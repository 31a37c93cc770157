import ImportBlock.Proofs.Line.Literal

/-! Comment lines as a grammar, and what stands outside the comments of a line. -/

namespace ImportBlock.Line

open Text

def commentStart : Text := ['/', '*']

def startsComment (text : Text) : Bool := startsWith slashes text || startsWith commentStart text

inductive Asides : Text → Prop where
  | nil : Asides []
  | cons {body white rest : Text} (closed : includes commentEnd body = false)
      (blank : ∀ c ∈ white, isWhite c = true) (below : Asides rest) :
      Asides (commentStart ++ body ++ commentEnd ++ (white ++ rest))

/-- Such comments and nothing behind them, or behind them a `//` comment or one that does not
end. -/
inductive CommentLine : Text → Prop where
  | asides {line : Text} (asides : Asides line) (ne : line ≠ []) : CommentLine line
  | remark {above : Text} (asides : Asides above) (words : Text) :
      CommentLine (above ++ (slashes ++ words))
  | endless {above body : Text} (asides : Asides above) (stays : includes commentEnd body = false) :
      CommentLine (above ++ (commentStart ++ body))

/-- What is left of the line from some place outside its comments. -/
inductive Exposed (line : Text) : Text → Prop where
  | whole : Exposed line line
  | char {c : Char} {rest : Text} (above : Exposed line (c :: rest))
      (plain : startsComment (c :: rest) = false) : Exposed line rest
  | aside {body rest : Text} (above : Exposed line (commentStart ++ body ++ commentEnd ++ rest))
      (closed : includes commentEnd body = false) : Exposed line rest

/-- All that stands outside the comments of the line is white space. -/
def BlankOutside (line : Text) : Prop :=
  ∀ c rest, Exposed line (c :: rest) → startsComment (c :: rest) = true ∨ isWhite c = true

/-- The check as it goes from one comment to the next: what stands behind the end of one is trimmed
and checked in its turn. There is no answer where the checks do not suffice. -/
def isCommentWithin : Nat → Text → Option Bool
  | 0, _ => none
  | checks + 1, line =>
    if startsWith slashes line then some true
    else
      match stripStart commentStart line with
      | none => some false
      | some text =>
        match splitFirst commentEnd text with
        | none => some true
        | some sides =>
          if (trim sides.2).isEmpty then some true else isCommentWithin checks (trim sides.2)

inductive Scanned : Text → Prop where
  | nil : Scanned []
  | remark (words : Text) : Scanned (slashes ++ words)
  | endless {body : Text} (stays : includes commentEnd body = false) :
      Scanned (commentStart ++ body)
  | aside {body rest : Text} (closed : includes commentEnd body = false) (below : Scanned rest) :
      Scanned (commentStart ++ body ++ commentEnd ++ rest)
  | char {c : Char} {rest : Text} (plain : startsComment (c :: rest) = false)
      (below : Scanned rest) : Scanned (c :: rest)

variable {c : Char} {line text body white rest above : Text}

section Scan

theorem stripStart_body (closed : includes commentEnd (c :: body) = false) (rest : Text) :
    stripStart commentEnd (c :: (body ++ commentEnd ++ rest)) = none := by
  rw [Option.eq_none_iff_forall_ne_some]
  intro after found
  have hcut := eq_append_of_stripStart found
  cases body with
  | nil => simp [commentEnd] at hcut
  | cons d body =>
    -- An end that begins at `c` lies in the body as a whole.
    simp only [commentEnd, List.cons_append, List.cons.injEq] at hcut
    obtain ⟨rfl, rfl, -⟩ := hcut
    have hends : includes commentEnd ('*' :: '/' :: body) = true := rfl
    rw [hends] at closed
    contradiction

theorem splitFirst_body (closed : includes commentEnd body = false) (rest : Text) :
    splitFirst commentEnd (body ++ commentEnd ++ rest) = some (body, rest) := by
  induction body with
  | nil => rfl
  | cons c body ih =>
    have hbody : includes commentEnd body = false := by
      rw [includes_cons, Bool.or_eq_false_iff] at closed
      exact closed.2
    rw [List.cons_append, List.cons_append, splitFirst, stripStart_body closed, ih hbody]
    rfl

theorem exists_body (text : Text) : includes commentEnd text = false ∨
    ∃ body rest, text = body ++ commentEnd ++ rest ∧ includes commentEnd body = false := by
  cases hsides : splitFirst commentEnd text with
  | none => exact .inl (includes_eq_false_iff.mpr hsides)
  | some sides =>
    exact .inr ⟨sides.1, sides.2, eq_append_of_splitFirst hsides,
      not_includes_of_splitFirst hsides⟩

theorem exists_of_startsComment (starts : startsComment text = true) :
    (∃ words, text = slashes ++ words) ∨ ∃ rest, text = commentStart ++ rest := by
  rw [startsComment, Bool.or_eq_true] at starts
  rcases starts with hstart | hstart
  · obtain ⟨words, hwords⟩ := Option.isSome_iff_exists.mp hstart
    exact .inl ⟨words, eq_append_of_stripStart hwords⟩
  · obtain ⟨rest, hrest⟩ := Option.isSome_iff_exists.mp hstart
    exact .inr ⟨rest, eq_append_of_stripStart hrest⟩

theorem not_startsComment_of_white (white : isWhite c = true) (rest : Text) :
    startsComment (c :: rest) = false := by
  have hne : '/' ≠ c := by
    rintro rfl
    contradiction
  simp [startsComment, startsWith, stripStart, slashes, commentStart, hne]

theorem scanned (text : Text) : Scanned text := by
  induction hlength : text.length using Nat.strongRecOn generalizing text with
  | ind length ih =>
    cases text with
    | nil => exact .nil
    | cons c rest =>
      by_cases hstarts : startsComment (c :: rest) = true
      · rcases exists_of_startsComment hstarts with ⟨words, htext⟩ | ⟨inside, htext⟩
        · rw [htext]
          exact .remark words
        · rcases exists_body inside with hstays | ⟨body, below, rfl, hclosed⟩
          · rw [htext]
            exact .endless hstays
          · rw [← List.append_assoc, ← List.append_assoc] at htext
            have hshorter : below.length < length := by
              simp only [← hlength, htext, commentStart, List.length_append, List.length_cons]
              omega
            rw [htext]
            exact .aside hclosed (ih _ hshorter below rfl)
      · have hshorter : rest.length < length := by
          rw [← hlength]
          exact Nat.lt_succ_self _
        exact .char (by simpa using hstarts) (ih _ hshorter rest rfl)

end Scan

section OnlyComments

/-- A comment line holds comments and white space only, and begins with a comment. -/
theorem isComment_eq (line : Text) :
    isComment line = (startsComment line && onlyComments line) := by
  unfold isComment
  split
  · rfl
  · rfl
  · next noRemark noAside =>
    have hplain : startsComment line = false := by
      by_contra hstarts
      rcases exists_of_startsComment (by simpa using hstarts) with ⟨words, hline⟩ | ⟨rest, hline⟩
      · exact noRemark words hline
      · exact noAside rest hline
    rw [hplain, Bool.false_and]

theorem onlyComments_char (plain : startsComment (c :: rest) = false) :
    onlyComments (c :: rest) = (isWhite c && onlyComments rest) := by
  conv_lhs => unfold onlyComments
  split
  · next heq => cases heq
  · next heq =>
    obtain ⟨rfl, rfl⟩ := List.cons.inj heq
    contradiction
  · next heq =>
    obtain ⟨rfl, rfl⟩ := List.cons.inj heq
    contradiction
  · next heq =>
    obtain ⟨rfl, rfl⟩ := List.cons.inj heq
    rfl

theorem onlyCommentsAfterClose_eq (text : Text) :
    onlyCommentsAfterClose text =
      (splitFirst commentEnd text).all fun sides => onlyComments sides.2 := by
  induction text with
  | nil => rfl
  | cons c rest ih =>
    cases hstrip : stripStart commentEnd (c :: rest) with
    | some after =>
      rw [eq_append_of_stripStart hstrip]
      rfl
    | none =>
      rw [splitFirst, hstrip, Option.all_map, onlyCommentsAfterClose]
      · exact ih
      · rintro more rfl rfl
        contradiction

theorem onlyCommentsAfterClose_of_not_includes {text : Text}
    (stays : includes commentEnd text = false) : onlyCommentsAfterClose text = true := by
  rw [onlyCommentsAfterClose_eq, includes_eq_false_iff.mp stays]
  rfl

theorem onlyComments_endless (stays : includes commentEnd body = false) :
    onlyComments (commentStart ++ body) = true :=
  onlyCommentsAfterClose_of_not_includes stays

theorem onlyComments_aside (closed : includes commentEnd body = false) (rest : Text) :
    onlyComments (commentStart ++ body ++ commentEnd ++ rest) = onlyComments rest := by
  rw [List.append_assoc, List.append_assoc, ← List.append_assoc body]
  show onlyCommentsAfterClose (body ++ commentEnd ++ rest) = onlyComments rest
  rw [onlyCommentsAfterClose_eq, splitFirst_body closed, Option.all_some]

theorem onlyComments_white_append (blank : ∀ c ∈ white, isWhite c = true) (rest : Text) :
    onlyComments (white ++ rest) = onlyComments rest := by
  induction white with
  | nil => rfl
  | cons c white ih =>
    obtain ⟨hc, hwhite⟩ := List.forall_mem_cons.mp blank
    rw [List.cons_append, onlyComments_char (not_startsComment_of_white hc _), hc, Bool.true_and,
      ih hwhite]

theorem onlyComments_append_white (blank : ∀ c ∈ white, isWhite c = true) (text : Text) :
    onlyComments (text ++ white) = onlyComments text := by
  have hscanned := scanned text
  induction hscanned with
  | nil =>
    have hwhite := onlyComments_white_append blank []
    rwa [List.append_nil] at hwhite
  | remark words => rfl
  | endless stays =>
    rw [List.append_assoc, onlyComments_endless stays, onlyComments_endless]
    rwa [includes_append_white blank (by decide) rfl]
  | aside closed _ ih =>
    rw [List.append_assoc, onlyComments_aside closed, onlyComments_aside closed]
    exact ih
  | @char c rest plain _ ih =>
    have hplain : startsComment (c :: (rest ++ white)) = false := by
      rwa [← List.cons_append, startsComment, startsWith_append_white blank rfl,
        startsWith_append_white blank rfl]
    rw [onlyComments_char plain, ← ih]
    exact onlyComments_char hplain

theorem onlyComments_trim (text : Text) : onlyComments (trim text) = onlyComments text := by
  obtain ⟨upper, lower, htext, hupper, hlower⟩ := exists_eq_trim text
  calc
    onlyComments (trim text) = onlyComments (upper ++ trim text) :=
      (onlyComments_white_append hupper _).symm
    _ = onlyComments (upper ++ trim text ++ lower) := (onlyComments_append_white hlower _).symm
    _ = onlyComments text := by rw [← htext]

theorem onlyComments_eq (text : Text) :
    onlyComments text = ((trim text).isEmpty || isComment (trim text)) := by
  rw [← onlyComments_trim, isComment_eq]
  by_cases hne : trim text = []
  · rw [hne]
    rfl
  · obtain ⟨⟨c, rest, htrim, hc⟩, -⟩ := trim_ends hne
    rw [htrim, List.isEmpty_cons, Bool.false_or]
    cases hstarts : startsComment (c :: rest) with
    | true => rw [Bool.true_and]
    | false => rw [onlyComments_char hstarts, hc, Bool.false_and, Bool.false_and]

end OnlyComments

section Grammar

theorem Asides.onlyComments_append (asides : Asides above) (rest : Text) :
    onlyComments (above ++ rest) = onlyComments rest := by
  induction asides with
  | nil => rfl
  | cons closed blank _ ih =>
    rw [List.append_assoc, onlyComments_aside closed, List.append_assoc,
      onlyComments_white_append blank, ih]

theorem Asides.startsComment_append (asides : Asides above)
    (starts : above ≠ [] ∨ startsComment rest = true) : startsComment (above ++ rest) = true := by
  cases asides with
  | nil => exact starts.resolve_left fun ne => ne rfl
  | cons => rfl

theorem CommentLine.onlyComments (comments : CommentLine line) :
    Line.onlyComments line = true := by
  cases comments with
  | asides asides ne =>
    have honly := asides.onlyComments_append []
    rwa [List.append_nil] at honly
  | remark asides words => exact asides.onlyComments_append _
  | endless asides stays => exact (asides.onlyComments_append _).trans (onlyComments_endless stays)

theorem CommentLine.starts (comments : CommentLine line) : startsComment line = true := by
  cases comments with
  | asides asides ne =>
    rw [← List.append_nil line]
    exact asides.startsComment_append (.inl ne)
  | remark asides words => exact asides.startsComment_append (.inr rfl)
  | endless asides stays => exact asides.startsComment_append (.inr rfl)

theorem CommentLine.aside (closed : includes commentEnd body = false)
    (blank : ∀ c ∈ white, isWhite c = true) (comments : CommentLine rest) :
    CommentLine (commentStart ++ body ++ commentEnd ++ (white ++ rest)) := by
  cases comments with
  | asides asides ne => exact .asides (.cons closed blank asides) (List.cons_ne_nil _ _)
  | remark asides words =>
    simpa only [List.append_assoc] using CommentLine.remark (.cons closed blank asides) words
  | endless asides stays =>
    simpa only [List.append_assoc] using CommentLine.endless (.cons closed blank asides) stays

/-- Behind white space a text of comments only is over, or a comment line. -/
theorem exists_commentLine (only : onlyComments text = true) : ∃ white rest,
    text = white ++ rest ∧ (∀ c ∈ white, isWhite c = true) ∧ (rest = [] ∨ CommentLine rest) := by
  have hscanned := scanned text
  induction hscanned with
  | nil => exact ⟨[], [], rfl, List.forall_mem_nil _, .inl rfl⟩
  | remark words => exact ⟨[], _, rfl, List.forall_mem_nil _, .inr (.remark .nil words)⟩
  | endless stays => exact ⟨[], _, rfl, List.forall_mem_nil _, .inr (.endless .nil stays)⟩
  | aside closed _ ih =>
    rw [onlyComments_aside closed] at only
    obtain ⟨white, rest, rfl, hblank, hrest⟩ := ih only
    refine ⟨[], _, rfl, List.forall_mem_nil _, .inr ?_⟩
    rcases hrest with rfl | hcomments
    · exact .asides (.cons closed hblank .nil) (List.cons_ne_nil _ _)
    · exact hcomments.aside closed hblank
  | @char c _ plain _ ih =>
    rw [onlyComments_char plain, Bool.and_eq_true] at only
    obtain ⟨white, rest, rfl, hblank, hrest⟩ := ih only.2
    exact ⟨c :: white, rest, rfl, List.forall_mem_cons.mpr ⟨only.1, hblank⟩, hrest⟩

theorem commentLine_iff :
    CommentLine line ↔ startsComment line = true ∧ onlyComments line = true := by
  constructor
  · intro comments
    exact ⟨comments.starts, comments.onlyComments⟩
  · rintro ⟨starts, only⟩
    obtain ⟨white, rest, rfl, hblank, hrest⟩ := exists_commentLine only
    -- A comment does not begin with white space, so there is none in front.
    cases white with
    | cons c white =>
      have hc := List.forall_mem_cons.mp hblank
      rw [List.cons_append, not_startsComment_of_white hc.1] at starts
      contradiction
    | nil =>
      rcases hrest with rfl | hcomments
      · exact absurd starts Bool.false_ne_true
      · exact hcomments

end Grammar

section Exposed

theorem Exposed.onlyComments (exposed : Exposed line rest) (only : onlyComments line = true) :
    Line.onlyComments rest = true := by
  induction exposed with
  | whole => exact only
  | char _ plain ih =>
    rw [onlyComments_char plain, Bool.and_eq_true] at ih
    exact ih.2
  | aside _ closed ih => rwa [onlyComments_aside closed] at ih

theorem Exposed.onlyComments_of_blankOutside (exposed : Exposed line rest)
    (outside : BlankOutside line) : Line.onlyComments rest = true := by
  -- Whatever the scan of the rest comes to is exposed in the line too.
  have hscanned := scanned rest
  induction hscanned with
  | nil => rfl
  | remark words => rfl
  | endless stays => exact onlyComments_endless stays
  | aside closed _ ih =>
    rw [onlyComments_aside closed]
    exact ih (exposed.aside closed)
  | @char c rest plain _ ih =>
    have hwhite : isWhite c = true := (outside c rest exposed).resolve_left (by simp [plain])
    rw [onlyComments_char plain, hwhite, Bool.true_and]
    exact ih (exposed.char plain)

theorem onlyComments_iff_blankOutside : onlyComments line = true ↔ BlankOutside line := by
  constructor
  · intro only c rest exposed
    cases hstarts : startsComment (c :: rest) with
    | true => exact .inl rfl
    | false =>
      have hrest := exposed.onlyComments only
      rw [onlyComments_char hstarts, Bool.and_eq_true] at hrest
      exact .inr hrest.1
  · intro outside
    exact Exposed.whole.onlyComments_of_blankOutside outside

end Exposed

section Checks

variable (checks : Nat)

theorem isCommentWithin_start (text : Text) :
    isCommentWithin (checks + 1) (commentStart ++ text) =
      match splitFirst commentEnd text with
      | none => some true
      | some sides =>
        if (trim sides.2).isEmpty then some true else isCommentWithin checks (trim sides.2) := rfl

theorem isCommentWithin_plain (plain : startsComment line = false) :
    isCommentWithin (checks + 1) line = some false := by
  rw [startsComment, Bool.or_eq_false_iff] at plain
  have hstrip : stripStart commentStart line = none := by simpa [startsWith] using plain.2
  rw [isCommentWithin, plain.1, hstrip]
  rfl

/-- Each check has the four marks of a comment fewer to go through than the one before. -/
theorem isCommentWithin_eq {checks : Nat} (enough : line.length < 4 * checks) :
    isCommentWithin checks line = some (isComment line) := by
  induction checks generalizing line with
  | zero => exact absurd enough (Nat.not_lt_zero _)
  | succ checks ih =>
    rw [isComment_eq]
    cases scanned line with
    | nil => rfl
    | remark words => rfl
    | @endless body stays =>
      rw [isCommentWithin_start, includes_eq_false_iff.mp stays, onlyComments_endless stays]
      rfl
    | @aside body rest closed _ =>
      have hlength := length_trim_le rest
      have hshorter : (trim rest).length < 4 * checks := by
        simp only [commentStart, commentEnd, List.length_append, List.length_cons] at enough
        omega
      rw [onlyComments_aside closed, onlyComments_eq, List.append_assoc, List.append_assoc,
        ← List.append_assoc body, isCommentWithin_start, splitFirst_body closed]
      dsimp only
      cases (trim rest).isEmpty with
      | true => rfl
      | false => exact ih hshorter
    | char plain _ => rw [isCommentWithin_plain checks plain, plain, Bool.false_and]

end Checks

/-- A line is taken for a comment if and only if it is one by the grammar. These are the lines that
begin with a comment and have nothing but white space outside of comments, and going from one
comment to the next comes to an end with that answer. -/
theorem isComment_exact (line : Text) :
    (isComment line = true ↔ CommentLine line) ∧
    (isComment line = true ↔ startsComment line = true ∧ BlankOutside line) ∧
    ∀ more, isCommentWithin (line.length / 4 + 1 + more) line = some (isComment line) := by
  have heq : isComment line = true ↔ startsComment line = true ∧ onlyComments line = true := by
    rw [isComment_eq, Bool.and_eq_true]
  refine ⟨?_, ?_, fun more => isCommentWithin_eq ?_⟩
  · rw [heq, commentLine_iff]
  · rw [heq, onlyComments_iff_blankOutside]
  · omega

example : isComment "/*/".toList = true ∧ isComment "/**//*/".toList = true ∧
    isComment "/*/*/ x // y".toList = false := by decide

end ImportBlock.Line
