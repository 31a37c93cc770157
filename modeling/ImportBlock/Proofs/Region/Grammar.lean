import ImportBlock.Proofs.Block.Statements
import ImportBlock.Proofs.Line.Comment

/-! A grammar of lines: statements, comments in lines of their own, and what stands between. -/

namespace ImportBlock

open Text

namespace Line

def depth : List Text → Int
  | [] => 0
  | l :: rest => braceDelta (trim l) + depth rest

def terminates (line : Text) : Bool :=
  (codePart line).contains ';' || (codePart line).getLast?.any isQuote

/-- With `above` braces open, the last of the lines has a terminator and leaves no brace open. -/
def EndsFrom (above : Int) (ls : List Text) : Prop :=
  above + depth ls ≤ 0 ∧ ls.getLast?.any (fun l => terminates (trim l)) = true

def StartsImport (ls : List Text) : Prop := ∃ first rest, ls = first :: rest ∧
  isImport (trim first) = true

/-- An import line and what follows it up to the first line that can end a statement. -/
structure IsStatement (ls : List Text) : Prop where
  opens : StartsImport ls
  ends : EndsFrom 0 ls
  first : ∀ upper, upper <+: ls → upper ≠ ls → ¬ EndsFrom 0 upper

/-- An import line and what follows it without such a line. -/
structure IsUnfinished (ls : List Text) : Prop where
  opens : StartsImport ls
  never : ∀ upper, upper <+: ls → ¬ EndsFrom 0 upper

/-- A comment with nothing but comments behind it: one line, or the lines from one that opens it to
the first one that ends it. -/
inductive IsWholeComment : List Text → Prop where
  | line {l : Text} (comment : isComment (trim l) = true) (ends : opensComment (trim l) = false) :
      IsWholeComment [l]
  | lines {first last : Text} {inside : List Text} {sides : Text × Text}
      (opens : opensComment (trim first) = true)
      (stays : ∀ l ∈ inside, includes commentEnd (trim l) = false)
      (ends : splitFirst commentEnd (trim last) = some sides)
      (only : onlyComments sides.2 = true) : IsWholeComment (first :: (inside ++ [last]))

/-- Blank lines, whole comments and the lines that `other` accepts. -/
inductive Loose (other : Text → Bool) : List Text → Prop where
  | nil : Loose other []
  | blank {l : Text} {rest : List Text} (blank : isBlank l = true) (below : Loose other rest) :
      Loose other (l :: rest)
  | comment {ls rest : List Text} (comment : IsWholeComment ls) (below : Loose other rest) :
      Loose other (ls ++ rest)
  | other {l : Text} {rest : List Text} (accepted : other (trim l) = true)
      (below : Loose other rest) : Loose other (l :: rest)

abbrev Fillers : List Text → Prop := Loose fun _ => false

/-- Lines that begin with code of another kind, with a comment that nothing ends or with one that
has code behind it, or no lines. -/
inductive Halts (other : Text → Bool) : List Text → Prop where
  | finish : Halts other []
  | code {l : Text} {rest : List Text} (text : isBlank l = false)
      (code : isComment (trim l) = false) (noImport : isImport (trim l) = false)
      (refused : other (trim l) = false) : Halts other (l :: rest)
  | endless {first : Text} {rest : List Text} (opens : opensComment (trim first) = true)
      (stays : ∀ l ∈ rest, includes commentEnd (trim l) = false) : Halts other (first :: rest)
  | mixed {first last : Text} {inside rest : List Text} {sides : Text × Text}
      (opens : opensComment (trim first) = true)
      (stays : ∀ l ∈ inside, includes commentEnd (trim l) = false)
      (ends : splitFirst commentEnd (trim last) = some sides)
      (code : onlyComments sides.2 = false) : Halts other (first :: (inside ++ last :: rest))

inductive Header : List Text → Prop where
  | plain {ls : List Text} (loose : Loose isDirective ls) : Header ls
  | shebang {l : Text} {ls : List Text} (shebang : isShebang (trim l) = true)
      (loose : Loose isDirective ls) : Header (l :: ls)

/-- Statements with fillers between them, down to the last one before code, the end of the text or
a comment that is not whole. A statement that never ends takes all lines. -/
inductive Imports : List Text → List Text → Prop where
  | last {ls gap rest : List Text} (statement : IsStatement ls) (fillers : Fillers gap)
      (halts : Halts (fun _ => false) rest) : Imports ls (gap ++ rest)
  | unfinished {ls : List Text} (statement : IsUnfinished ls) : Imports ls []
  | more {ls gap block below : List Text} (statement : IsStatement ls) (fillers : Fillers gap)
      (imports : Imports block below) : Imports (ls ++ gap ++ block) below

section Statement

theorem closesStatement_iff {above : Int} {line : Text} :
    closesStatement above line = true ↔ above ≤ 0 ∧ terminates line = true := by
  rw [closesStatement, Bool.and_eq_true, decide_eq_true_eq, terminates]

theorem not_endsFrom_nil (above : Int) : ¬ EndsFrom above [] := fun ends => absurd ends.2 (by simp)

theorem endsFrom_singleton {above : Int} {l : Text} :
    EndsFrom above [l] ↔ closesStatement (above + braceDelta (trim l)) (trim l) = true := by
  rw [closesStatement_iff, EndsFrom, depth, depth]
  simp

theorem endsFrom_cons {above : Int} {l : Text} {ls : List Text} (ne : ls ≠ []) :
    EndsFrom above (l :: ls) ↔ EndsFrom (above + braceDelta (trim l)) ls := by
  rw [EndsFrom, EndsFrom, depth, Int.add_assoc, List.getLast?_cons_of_ne_nil ne]

section OneLine

variable {above : Int} {l : Text} {ls : List Text}

theorem statementRun_of_closes
    (closes : closesStatement (above + braceDelta (trim l)) (trim l) = true) :
    Mode.StatementRun (.statement above) [l] := by
  have hread : Mode.read (.statement above) (trim l) = (.continued, .code) := by
    rw [Mode.read, Mode.afterStatementLine, if_pos closes]
  exact Mode.statementRun_cons.mpr ⟨by rw [hread], by rw [hread]; exact Mode.statementRun_nil⟩

variable (stays : ¬ closesStatement (above + braceDelta (trim l)) (trim l) = true)

include stays

theorem read_statement_of_stays : Mode.read (.statement above) (trim l) =
    (.continued, .statement (above + braceDelta (trim l))) := by
  rw [Mode.read, Mode.afterStatementLine, if_neg stays]

theorem exists_of_prefix_cons {front : List Text} (hfront : front <+: l :: ls)
    (ends : EndsFrom above front) :
    ∃ more, front = l :: more ∧ more <+: ls ∧ EndsFrom (above + braceDelta (trim l)) more := by
  rcases List.prefix_cons_iff.mp hfront with rfl | ⟨more, rfl, hmore⟩
  · exact absurd ends (not_endsFrom_nil above)
  · have hne : more ≠ [] := by
      rintro rfl
      exact stays (endsFrom_singleton.mp ends)
    exact ⟨more, rfl, hmore, (endsFrom_cons hne).mp ends⟩

end OneLine

/-- Lines below an open statement leave it open, or some of them are the rest of it. -/
theorem statement_cases (above : Int) (ls : List Text) :
    ((∀ upper, upper <+: ls → ¬ EndsFrom above upper) ∧
      (∀ line ∈ label (.statement above) ls, line.kind = .continued) ∧
      Mode.after (.statement above) ls = .statement (above + depth ls)) ∨
    ∃ upper lower, ls = upper ++ lower ∧ EndsFrom above upper ∧
      (∀ front, front <+: upper → front ≠ upper → ¬ EndsFrom above front) ∧
      Mode.StatementRun (.statement above) upper := by
  induction ls generalizing above with
  | nil =>
    left
    refine ⟨fun upper hupper => ?_, by simp [label], by simp [Mode.after, depth]⟩
    rw [List.prefix_nil.mp hupper]
    exact not_endsFrom_nil above
  | cons l ls ih =>
    by_cases hcloses : closesStatement (above + braceDelta (trim l)) (trim l) = true
    · right
      refine ⟨[l], ls, rfl, endsFrom_singleton.mpr hcloses, fun front hfront hne => ?_,
        statementRun_of_closes hcloses⟩
      rcases List.prefix_cons_iff.mp hfront with rfl | ⟨more, rfl, hmore⟩
      · exact not_endsFrom_nil above
      · exact absurd (by rw [List.prefix_nil.mp hmore]) hne
    · have hread := read_statement_of_stays hcloses
      rcases ih (above + braceDelta (trim l)) with
        ⟨hnever, hkinds, hafter⟩ | ⟨upper, lower, rfl, hends, hfirst, hrun⟩
      · left
        refine ⟨fun upper hupper ends => ?_, ?_, ?_⟩
        · obtain ⟨more, -, hmore, hends⟩ := exists_of_prefix_cons hcloses hupper ends
          exact hnever more hmore hends
        · rw [label, hread, List.forall_mem_cons]
          exact ⟨rfl, hkinds⟩
        · rw [Mode.after, hread, hafter, depth, Int.add_assoc]
      · right
        have hne : upper ≠ [] := by
          rintro rfl
          exact not_endsFrom_nil _ hends
        refine ⟨l :: upper, lower, rfl, (endsFrom_cons hne).mpr hends,
          fun front hfront hother ends => ?_,
          Mode.statementRun_cons.mpr ⟨by rw [hread], by rwa [hread]⟩⟩
        obtain ⟨more, rfl, hmore, hends'⟩ := exists_of_prefix_cons hcloses hfront ends
        exact hfirst more hmore (fun same => hother (by rw [same])) hends'

theorem read_import_statement {line : Text} (h : isImport line = true) :
    Mode.code.read line = (.opening, (Mode.read (.statement 0) line).2) := by
  rw [Mode.read_import h, Mode.read, Int.zero_add]

theorem wholeLines_of_run {ls : List Text} (opens : StartsImport ls)
    (run : Mode.StatementRun (.statement 0) ls) : Statement.WholeLines ls := by
  obtain ⟨first, rest, rfl, himport⟩ := opens
  have hread := read_import_statement himport
  refine ⟨first, rest, rfl, by rw [hread], ?_⟩
  rw [hread]
  exact (Mode.statementRun_cons.mp run).2

theorem IsStatement.wholeLines {ls : List Text} (h : IsStatement ls) :
    Statement.WholeLines ls := by
  rcases statement_cases 0 ls with ⟨hnever, -⟩ | ⟨upper, lower, rfl, hends, -, hrun⟩
  · exact absurd h.ends (hnever ls List.prefix_rfl)
  · by_cases hnil : lower = []
    · subst hnil
      rw [List.append_nil] at h ⊢
      exact wholeLines_of_run h.opens hrun
    · exact absurd hends (h.first upper (List.prefix_append _ _) (by simpa using hnil))

theorem isStatement_of_wholeLines {ls : List Text} (h : Statement.WholeLines ls) :
    IsStatement ls := by
  obtain ⟨first, rest, rfl, hopening, hcontinued⟩ := h
  have himport := Mode.isImport_of_opening hopening
  have hread := read_import_statement himport
  rw [hread] at hcontinued
  have hrun : Mode.StatementRun (.statement 0) (first :: rest) :=
    Mode.statementRun_cons.mpr ⟨rfl, hcontinued⟩
  rcases statement_cases 0 (first :: rest) with
    ⟨-, -, hafter⟩ | ⟨upper, lower, hsplit, hends, hfirst, hupper⟩
  · rw [hrun.2] at hafter
    contradiction
  have hlower : lower = [] := by
    cases lower with
    | nil => rfl
    | cons l more =>
      have hkinds := hrun.1
      rw [hsplit, label_append, hupper.2, List.forall_mem_append] at hkinds
      have hreads := Mode.reads_read .code (trim l)
      have hkind : (Mode.code.read (trim l)).1 = .continued := hkinds.2 _ List.mem_cons_self
      rw [hkind] at hreads
      generalize (Mode.code.read (trim l)).2 = next at hreads
      cases hreads
  rw [hlower, List.append_nil] at hsplit
  subst hsplit
  exact ⟨⟨first, rest, rfl, himport⟩, hends, hfirst⟩

theorem IsUnfinished.label {ls : List Text} (h : IsUnfinished ls) :
    (∃ first rest, Line.label .code ls = first :: rest ∧ first.kind = .opening ∧
      ∀ line ∈ rest, line.kind = .continued) ∧ (Mode.after .code ls).inStatement = true := by
  rcases statement_cases 0 ls with ⟨-, hkinds, hafter⟩ | ⟨upper, lower, rfl, hends, -⟩
  · obtain ⟨first, rest, rfl, himport⟩ := h.opens
    have hread := read_import_statement himport
    rw [Line.label, List.forall_mem_cons] at hkinds
    have hsame : Mode.after .code (first :: rest) = Mode.after (.statement 0) (first :: rest) := by
      rw [Mode.after, Mode.after, hread]
    refine ⟨⟨⟨.opening, first⟩, Line.label ((Mode.statement 0).read (trim first)).2 rest, ?_, rfl,
      hkinds.2⟩, ?_⟩
    · rw [Line.label, hread]
    · rw [hsame, hafter]
      rfl
  · exact absurd hends (h.never upper (List.prefix_append _ _))

end Statement

section Comment

theorem label_inside {ls : List Text}
    (stays : ∀ l ∈ ls, includes commentEnd (trim l) = false) :
    (∀ line ∈ label .comment ls, line.kind = .comment false) ∧
      Mode.after .comment ls = .comment := by
  induction ls with
  | nil => exact ⟨by simp [label], rfl⟩
  | cons l ls ih =>
    rw [List.forall_mem_cons] at stays
    have hnone := includes_eq_false_iff.mp stays.1
    have hread : Mode.comment.read (trim l) = (.comment false, .comment) := by
      rw [Mode.read, hnone]
    obtain ⟨hkinds, hafter⟩ := ih stays.2
    rw [label, Mode.after, hread, List.forall_mem_cons]
    exact ⟨⟨rfl, hkinds⟩, hafter⟩

/-- Lines below the start of a comment hold no end of it, or one of them is the first to do so. -/
theorem comment_cases (ls : List Text) :
    (∀ l ∈ ls, includes commentEnd (trim l) = false) ∨
    ∃ inside last lower sides, ls = inside ++ last :: lower ∧
      (∀ l ∈ inside, includes commentEnd (trim l) = false) ∧
      splitFirst commentEnd (trim last) = some sides := by
  induction ls with
  | nil => exact .inl (List.forall_mem_nil _)
  | cons l ls ih =>
    cases hl : splitFirst commentEnd (trim l) with
    | some sides => exact .inr ⟨[], l, ls, sides, rfl, List.forall_mem_nil _, hl⟩
    | none =>
      have hstays := includes_eq_false_iff.mpr hl
      rcases ih with hnever | ⟨inside, last, lower, sides, rfl, hinside, hends⟩
      · exact .inl (List.forall_mem_cons.mpr ⟨hstays, hnever⟩)
      · exact .inr ⟨l :: inside, last, lower, sides, rfl,
          List.forall_mem_cons.mpr ⟨hstays, hinside⟩, hends⟩

theorem read_opensComment {line : Text} (opens : opensComment line = true) :
    Mode.code.read line = (.comment false, .comment) := by
  obtain ⟨rest, rfl⟩ : ∃ rest, line = '/' :: '*' :: rest := by
    unfold opensComment at opens
    split at opens
    · exact ⟨_, rfl⟩
    · contradiction
  have hcomment : isComment ('/' :: '*' :: rest) = true :=
    onlyCommentsAfterClose_of_not_includes (by simpa [opensComment] using opens)
  rw [Mode.read, hcomment, opens]
  rfl

theorem read_closesComment {line : Text} {sides : Text × Text}
    (ends : splitFirst commentEnd line = some sides) : Mode.comment.read line =
      (if onlyComments sides.2 then .comment true else .mixed, .code) := by
  rw [Mode.read, ends]

theorem IsWholeComment.commentRun {ls : List Text} (h : IsWholeComment ls) :
    Mode.CommentRun .code ls := by
  cases h with
  | @line l comment ends =>
    have hne : (trim l).isEmpty = false := by
      cases hl : trim l with
      | nil => rw [hl] at comment; contradiction
      | cons c rest => rfl
    have hread : Mode.code.read (trim l) = (.comment true, .code) := by
      simp [Mode.read, hne, comment, ends]
    exact Mode.commentRun_cons.mpr ⟨by rw [hread]; rfl, by rw [hread]; exact Mode.commentRun_nil⟩
  | @lines first last inside sides opens stays ends only =>
    have hread := read_opensComment opens
    obtain ⟨hkinds, hafter⟩ := label_inside stays
    have hlast : Mode.comment.read (trim last) = (.comment true, .code) := by
      rw [read_closesComment ends, only]
      rfl
    refine Mode.commentRun_cons.mpr ⟨by rw [hread]; rfl, ?_⟩
    rw [hread]
    constructor
    · rw [label_append, hafter, List.forall_mem_append]
      refine ⟨fun line member => by simp [isCommentKind, hkinds line member], ?_⟩
      simp [label, hlast, isCommentKind]
    · rw [Mode.after_append, hafter, Mode.after, hlast]
      rfl

end Comment

section Loose

variable {other : Text → Bool}

theorem Loose.label {ls : List Text} (h : Loose other ls)
    (code : ∀ line, other line = true → Mode.code.read line = (.code, .code)) :
    Mode.after .code ls = .code ∧ ∀ line ∈ Line.label .code ls, line.isFiller = true ∨
      line.kind = .code ∧ other (trim line.text) = true := by
  induction h with
  | nil => exact ⟨rfl, by simp [Line.label]⟩
  | @blank l rest blank _ ih =>
    have hread : Mode.code.read (trim l) = (.blank, .code) := by
      rw [isBlank_iff_trim.mp blank]
      rfl
    rw [Mode.after, Line.label, hread, List.forall_mem_cons]
    exact ⟨ih.1, .inl rfl, ih.2⟩
  | @comment ls rest comment _ ih =>
    obtain ⟨hkinds, hafter⟩ := comment.commentRun
    rw [Mode.after_append, label_append, hafter, List.forall_mem_append]
    refine ⟨ih.1, fun line member => ?_, ih.2⟩
    obtain ⟨done, hkind⟩ := exists_kind_of_isCommentKind (hkinds line member)
    exact .inl (by rw [isFiller, hkind])
  | @other l rest accepted _ ih =>
    have hread := code _ accepted
    rw [Mode.after, Line.label, hread, List.forall_mem_cons]
    exact ⟨ih.1, .inr ⟨rfl, accepted⟩, ih.2⟩

theorem Fillers.label {ls : List Text} (h : Fillers ls) :
    Mode.after .code ls = .code ∧ ∀ line ∈ Line.label .code ls, line.isFiller = true := by
  obtain ⟨hafter, hkinds⟩ := Loose.label h (by simp)
  refine ⟨hafter, fun line member => ?_⟩
  rcases hkinds line member with hfiller | ⟨-, hfalse⟩
  · exact hfiller
  · contradiction

theorem exists_loose (other : Text → Bool) (ls : List Text) :
    ∃ upper lower, ls = upper ++ lower ∧ Loose other upper ∧
      (Halts other lower ∨ StartsImport lower) := by
  -- Whole comments take several lines at once, so the induction is on the number of lines.
  induction hn : ls.length using Nat.strong_induction_on generalizing ls with
  | _ n ih =>
    subst hn
    cases ls with
    | nil => exact ⟨[], [], rfl, .nil, .inl .finish⟩
    | cons l rest =>
      have hbelow : ∀ more, more.length < (l :: rest).length → ∃ upper lower,
          more = upper ++ lower ∧ Loose other upper ∧ (Halts other lower ∨ StartsImport lower) :=
        fun more shorter => ih more.length shorter more rfl
      by_cases hblank : isBlank l = true
      · obtain ⟨upper, lower, rfl, hloose, hstop⟩ := hbelow rest (by simp)
        exact ⟨l :: upper, lower, rfl, .blank hblank hloose, hstop⟩
      by_cases hopens : opensComment (trim l) = true
      · rcases comment_cases rest with hstays | ⟨inside, last, more, sides, rfl, hstays, hends⟩
        · exact ⟨[], l :: rest, rfl, .nil, .inl (.endless hopens hstays)⟩
        by_cases honly : onlyComments sides.2 = true
        · obtain ⟨upper, lower, rfl, hloose, hstop⟩ := hbelow more (by simp; omega)
          refine ⟨l :: (inside ++ [last]) ++ upper, lower, by simp, ?_, hstop⟩
          exact .comment (.lines hopens hstays hends honly) hloose
        · exact ⟨[], _, rfl, .nil, .inl (.mixed hopens hstays hends (by simpa using honly))⟩
      by_cases hcomment : isComment (trim l) = true
      · obtain ⟨upper, lower, rfl, hloose, hstop⟩ := hbelow rest (by simp)
        refine ⟨[l] ++ upper, lower, rfl, ?_, hstop⟩
        exact .comment (.line hcomment (by simpa using hopens)) hloose
      by_cases himport : isImport (trim l) = true
      · exact ⟨[], l :: rest, rfl, .nil, .inr ⟨l, rest, rfl, himport⟩⟩
      by_cases hother : other (trim l) = true
      · obtain ⟨upper, lower, rfl, hloose, hstop⟩ := hbelow rest (by simp)
        exact ⟨l :: upper, lower, rfl, .other hother hloose, hstop⟩
      · rw [Bool.not_eq_true] at hblank hcomment himport hother
        exact ⟨[], l :: rest, rfl, .nil, .inl (.code hblank hcomment himport hother)⟩

/-- How lines that are no fillers are read: as code, or as comments with no code below them or
with code behind their end. -/
theorem Halts.label {ls : List Text} (h : Halts other ls) :
    (∃ front, ∃ last, ∃ rest, Line.label .code ls = front ++ last :: rest ∧
      (∀ line ∈ front, line.kind = .comment false) ∧
      (last.kind = .code ∧ front = [] ∧ other (trim last.text) = false ∨ last.kind = .mixed)) ∨
    (∀ line ∈ Line.label .code ls, line.kind = .comment false) ∧
      (Mode.after .code ls = .code → ls = []) := by
  cases h with
  | finish => exact .inr ⟨by simp [Line.label], fun _ => rfl⟩
  | @code l rest text code noImport refused =>
    have hne : (trim l).isEmpty = false := by
      rw [← Bool.not_eq_true, List.isEmpty_iff, ← isBlank_iff_trim, text]
      decide
    have hread : Mode.code.read (trim l) = (.code, .code) := by
      simp [Mode.read, hne, code, noImport]
    refine .inl ⟨[], ⟨.code, l⟩, Line.label .code rest, ?_, by simp, .inl ⟨rfl, rfl, refused⟩⟩
    rw [Line.label, hread]
    rfl
  | @endless first rest opens stays =>
    have hread := read_opensComment opens
    obtain ⟨hkinds, hafter⟩ := label_inside stays
    rw [Line.label, Mode.after, hread, List.forall_mem_cons]
    refine .inr ⟨⟨rfl, hkinds⟩, fun hcode => ?_⟩
    rw [hafter] at hcode
    contradiction
  | @mixed first last inside rest sides opens stays ends code =>
    have hread := read_opensComment opens
    obtain ⟨hkinds, hafter⟩ := label_inside stays
    have hlast := read_closesComment ends
    rw [code] at hlast
    have hrest : Line.label .comment (inside ++ last :: rest) =
        Line.label .comment inside ++ ⟨.mixed, last⟩ :: Line.label .code rest := by
      rw [label_append, hafter, Line.label, hlast]
      rfl
    refine .inl ⟨⟨.comment false, first⟩ :: Line.label .comment inside, ⟨.mixed, last⟩,
      Line.label .code rest, ?_, List.forall_mem_cons.mpr ⟨rfl, hkinds⟩, .inr rfl⟩
    rw [Line.label, hread]
    dsimp only
    rw [hrest]
    rfl

end Loose
end Line
end ImportBlock
