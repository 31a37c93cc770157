import ImportBlock.Proofs.Layout.Wrap
import ImportBlock.Proofs.Line.Zone

/-! Where wrapping cuts a line, and when it cuts in code only. -/

namespace ImportBlock

open Text Line

def Text.marks (text : Text) : Text := text.filter fun c => !isWhite c && c != ','

namespace Text

theorem marks_append (upper lower : Text) : marks (upper ++ lower) = marks upper ++ marks lower :=
  List.filter_append ..

theorem marks_flatten (parts : List Text) : marks parts.flatten = (parts.map marks).flatten :=
  List.filter_flatten

theorem marks_cons {c : Char} (mark : isWhite c = false) (ne : c ≠ ',') (rest : Text) :
    marks (c :: rest) = c :: marks rest :=
  List.filter_cons_of_pos (by simp [mark, ne])

theorem marks_comma (rest : Text) : marks (',' :: rest) = marks rest :=
  List.filter_cons_of_neg (by decide)

theorem marks_white {text : Text} (white : ∀ c ∈ text, isWhite c = true) : marks text = [] := by
  rw [marks, List.filter_eq_nil_iff]
  intro c hc
  simp [white c hc]

theorem marks_trim (text : Text) : marks (trim text) = marks text := by
  obtain ⟨above, below, htext, habove, hbelow⟩ := exists_eq_trim text
  conv_rhs => rw [htext, marks_append, marks_append, marks_white habove, marks_white hbelow]
  simp

theorem marks_trimEnd (text : Text) : marks (trimEnd text) = marks text := by
  rw [← marks_trim, trimEnd, trim_dropEndWhile (fun _ => id), marks_trim]

theorem marks_joinWith (parts : List Text) :
    marks (joinWith [','] parts) = marks parts.flatten := by
  induction parts with
  | nil => rfl
  | cons part parts ih =>
    by_cases hnil : parts = []
    · simp [hnil, joinWith]
    · have hcomma : marks [','] = [] := marks_comma []
      rw [joinWith_cons hnil, List.flatten_cons, marks_append, marks_append, marks_append, ih,
        hcomma, List.append_nil]

theorem joinWith_parts (c : Char) {xs ys : List Text} (above : xs ≠ []) (below : ys ≠ []) :
    joinWith [c] (xs ++ ys) = joinWith [c] xs ++ c :: joinWith [c] ys := by
  induction xs with
  | nil => contradiction
  | cons x xs ih =>
    by_cases hnil : xs = []
    · subst hnil
      rw [List.singleton_append, joinWith_cons below]
      simp [joinWith]
    · rw [List.cons_append, joinWith_cons (by simp [hnil]), joinWith_cons hnil, ih hnil]
      simp

theorem marks_filter_trim (parts : List Text) :
    marks ((parts.map trim).filter (!·.isEmpty)).flatten = marks parts.flatten := by
  induction parts with
  | nil => rfl
  | cons part parts ih =>
    rw [List.map_cons, List.filter_cons, List.flatten_cons, marks_append, ← ih, ← marks_trim part]
    split
    · rw [List.flatten_cons, marks_append]
    · next hempty => simp_all [marks]

theorem marks_items (text : Text) : marks (items ',' text).flatten = marks text := by
  rw [items, marks_filter_trim, ← marks_joinWith, joinWith_splitOn]

theorem plain_of_marks {text : Text} (none : marks text = []) : ∀ c ∈ text, isQuote c = false := by
  rw [marks, List.filter_eq_nil_iff] at none
  intro c hc
  by_contra hquote
  rw [Bool.not_eq_false] at hquote
  refine none c hc ?_
  simp only [isQuote, Bool.or_eq_true, beq_iff_eq] at hquote
  rcases hquote with (rfl | rfl) | rfl <;> decide

theorem plain_of_items {text : Text} (none : items ',' text = []) :
    ∀ c ∈ text, isQuote c = false := by
  apply plain_of_marks
  rw [← marks_items, none]
  rfl

theorem exists_of_items {text : Text} {xs ys : List Text} (split : items ',' text = xs ++ ys)
    (above : xs ≠ []) (below : ys ≠ []) :
    ∃ upper lower, text = upper ++ ',' :: lower ∧ marks upper = marks xs.flatten := by
  obtain ⟨trimmed, trimmed', hsplit, rfl, rfl⟩ := List.filter_eq_append_iff.mp split
  obtain ⟨parts, parts', hparts, rfl, rfl⟩ := List.map_eq_append_iff.mp hsplit
  have hne : ∀ parts : List Text, (parts.map trim).filter (!·.isEmpty) ≠ [] → parts ≠ [] := by
    rintro parts h rfl
    exact h rfl
  refine ⟨joinWith [','] parts, joinWith [','] parts', ?_, ?_⟩
  · rw [← joinWith_parts ',' (hne _ above) (hne _ below), ← hparts, joinWith_splitOn]
  · rw [marks_joinWith, marks_filter_trim]

end Text

namespace Layout

/-- A break stands between two parts of a line: the lines above it and those below hold what the
parts hold, white space and commas aside. -/
def BreaksAt (ls : List Text) (upper lower : Text) : Prop :=
  ∃ front back, ls = front ++ back ∧ front ≠ [] ∧ back ≠ [] ∧
    marks front.flatten = marks upper ∧ marks back.flatten = marks lower

theorem memberLines_append (xs : List Text) {ys : List Text} (ne : ys ≠ []) :
    memberLines (xs ++ ys) = xs.map (indent ++ · ++ [',']) ++ memberLines ys := by
  induction xs with
  | nil => rfl
  | cons x xs ih =>
    rw [List.cons_append, memberLines, ih]
    · rfl
    · simp [ne]

theorem marks_indent (text : Text) : marks (indent ++ text) = marks text := by
  have hindent : marks indent = [] := marks_white (List.forall_mem_cons.mpr ⟨rfl, white_space⟩)
  rw [marks_append, hindent, List.nil_append]

theorem marks_item (text : Text) : marks (indent ++ text ++ [',']) = marks text := by
  have hcomma : marks [','] = [] := marks_comma []
  rw [marks_append, marks_indent, hcomma, List.append_nil]

theorem map_marks_memberLines (members : List Text) :
    (memberLines members).map marks = members.map marks := by
  induction members with
  | nil => rfl
  | cons member rest ih =>
    cases rest with
    | nil => rw [memberLines, List.map_singleton, List.map_singleton, marks_indent]
    | cons next rest =>
      rw [memberLines, List.map_cons, List.map_cons, marks_item, ih]
      simp

section Zones

variable {escapes : Char → Bool} {zone : Zone} {before inside after : Text}

/-- Two cuts of one line with the same between them but white space and commas are both in a
literal or neither is. -/
theorem isLiteral_of_marks {upper lower upper' lower' : Text}
    (same : upper ++ lower = upper' ++ lower') (marks_eq : marks upper = marks upper') :
    (zone.run escapes upper).isLiteral = (zone.run escapes upper').isLiteral := by
  have hgap : ∀ front gap : Text, marks front = marks (front ++ gap) →
      (zone.run escapes (front ++ gap)).isLiteral = (zone.run escapes front).isLiteral := by
    intro front gap h
    rw [marks_append, List.self_eq_append_right] at h
    rw [Zone.run_append, Zone.isLiteral_run (plain_of_marks h)]
  rcases List.append_eq_append_iff.mp same with ⟨gap, rfl, -⟩ | ⟨gap, rfl, -⟩
  · exact (hgap upper gap marks_eq).symm
  · exact hgap upper' gap marks_eq.symm

theorem step_opening (code : zone.isCode = true) : zone.step escapes '{' = .code := by
  cases zone <;> first | rfl | contradiction

theorem run_opening (code : (zone.run escapes before).isCode = true) (rest : Text) :
    zone.run escapes (before ++ '{' :: rest) = Zone.code.run escapes rest := by
  have hopening : (zone.run escapes before).step escapes '{' = .code := step_opening code
  rw [Zone.run_append, ← hopening]
  rfl

theorem isLiteral_of_isCode (code : zone.isCode = true) : zone.isLiteral = false := by
  cases zone <;> first | rfl | contradiction

theorem mem_code_iff {c : Char} {upper lower : Text} (above : c ∉ upper) (below : c ∉ lower) :
    c ∈ zone.charsIn escapes Zone.isCode (upper ++ c :: lower) ↔
      (zone.run escapes upper).isCode = true := by
  rw [Zone.mem_charsIn]
  constructor
  · rintro ⟨upper', lower', hcut, hcode⟩
    obtain ⟨rfl, -⟩ := (List.append_cons_inj_of_notMem above below).mp hcut
    exact hcode
  · intro hcode
    exact ⟨upper, lower, rfl, hcode⟩

theorem marks_closing (members : List Text) (after : Text) :
    marks (memberLines members ++ ['}' :: trimEnd after]).flatten =
      marks members.flatten ++ marks ('}' :: after) := by
  have hclosing : marks ('}' :: trimEnd after) = marks ('}' :: after) := by
    rw [marks_cons (by decide) (by decide), marks_cons (by decide) (by decide), marks_trimEnd]
  rw [List.flatten_append, marks_append, marks_flatten, map_marks_memberLines, ← marks_flatten,
    List.flatten_singleton, hclosing]

/-- A comma in a literal between two braces in code has members on both sides of it. -/
theorem exists_break_of_literal (opening : (zone.run escapes before).isCode = true)
    (closing : (zone.run escapes (before ++ '{' :: inside)).isCode = true)
    (literal : ',' ∈ Zone.code.charsIn escapes Zone.isLiteral inside) :
    ∃ upper lower, bracedLine before inside after = upper ++ lower ∧
      BreaksAt (bracedLines before inside after) upper lower ∧
        (zone.run escapes upper).isLiteral = true := by
  obtain ⟨upper, lower, rfl, hliteral⟩ := Zone.mem_charsIn.mp literal
  -- The quote that opens the literal is above the comma, the one that closes it below.
  have habove : items ',' upper ≠ [] := by
    intro hnil
    rw [Zone.isLiteral_run (plain_of_items hnil)] at hliteral
    contradiction
  have hbelow : items ',' lower ≠ [] := by
    intro hnil
    have hplain : ∀ c ∈ ',' :: lower, isQuote c = false :=
      List.forall_mem_cons.mpr ⟨by decide, plain_of_items hnil⟩
    rw [run_opening opening, Zone.run_append] at closing
    have hcode := isLiteral_of_isCode closing
    rw [Zone.isLiteral_run hplain, hliteral] at hcode
    contradiction
  have hupper : marks ((items ',' upper).map (indent ++ · ++ [','])).flatten = marks upper := by
    rw [marks_flatten, List.map_map, ← marks_items upper, marks_flatten]
    exact congrArg List.flatten (List.map_congr_left fun member _ => marks_item member)
  refine ⟨before ++ '{' :: upper, ',' :: (lower ++ '}' :: after), by simp [bracedLine],
    ⟨(before ++ ['{']) :: (items ',' upper).map (indent ++ · ++ [',']),
      memberLines (items ',' lower) ++ ['}' :: trimEnd after], ?_, by simp, by simp, ?_, ?_⟩, ?_⟩
  · rw [bracedLines, items_append, memberLines_append _ hbelow]
    simp
  · rw [List.flatten_cons, marks_append, hupper, ← marks_append]
    simp
  · rw [marks_closing, marks_items, ← marks_append, marks_comma]
  · rwa [run_opening opening]

theorem exists_of_breaksAt {upper lower : Text}
    (breaks : BreaksAt (bracedLines before inside after) upper lower) :
    ∃ xs ys, items ',' inside = xs ++ ys ∧
      marks upper = marks (before ++ ['{']) ++ marks xs.flatten := by
  obtain ⟨front, back, hlines, hfront, hback, hupper, -⟩ := breaks
  obtain ⟨first, front, rfl⟩ := List.exists_cons_of_ne_nil hfront
  obtain ⟨back, last, rfl⟩ := (List.eq_nil_or_concat' back).resolve_left hback
  rw [bracedLines, List.cons_append, List.cons_append, List.cons.injEq,
    ← List.append_assoc] at hlines
  obtain ⟨rfl, hmembers⟩ := hlines
  have hmap := congrArg (List.map marks) (List.append_inj' hmembers rfl).1
  rw [map_marks_memberLines, List.map_append] at hmap
  obtain ⟨xs, ys, hitems, hxs, -⟩ := List.map_eq_append_iff.mp hmap
  refine ⟨xs, ys, hitems, ?_⟩
  rw [← hupper, List.flatten_cons, marks_append, marks_flatten, marks_flatten, hxs]

/-- Every break that stands in a literal stands at a comma in one. -/
theorem not_isLiteral_of_breaksAt (opening : (zone.run escapes before).isCode = true)
    (closing : (zone.run escapes (before ++ '{' :: inside)).isCode = true)
    (free : ',' ∉ Zone.code.charsIn escapes Zone.isLiteral inside) {upper lower : Text}
    (cut : bracedLine before inside after = upper ++ lower)
    (breaks : BreaksAt (bracedLines before inside after) upper lower) :
    (zone.run escapes upper).isLiteral = false := by
  obtain ⟨xs, ys, hitems, hmarks⟩ := exists_of_breaksAt breaks
  -- A cut with the same above it, and not in a literal.
  obtain ⟨above, below, hcut, hsame, hcode⟩ : ∃ above below, inside ++ '}' :: after =
      above ++ below ∧ marks above = marks xs.flatten ∧
        (Zone.code.run escapes above).isLiteral = false := by
    by_cases hxs : xs = []
    · exact ⟨[], _, rfl, by rw [hxs]; rfl, rfl⟩
    by_cases hys : ys = []
    · refine ⟨inside, _, rfl, ?_, ?_⟩
      · rw [← marks_items, hitems, hys, List.append_nil]
      · rw [← run_opening opening]
        exact isLiteral_of_isCode closing
    · obtain ⟨above, below, rfl, habove⟩ := exists_of_items hitems hxs hys
      refine ⟨above, ',' :: below ++ '}' :: after, by simp, habove, ?_⟩
      by_contra hliteral
      exact free (Zone.mem_charsIn.mpr ⟨above, below, rfl, by simpa using hliteral⟩)
  have hline : upper ++ lower = (before ++ '{' :: above) ++ below := by
    rw [← cut, bracedLine, hcut]
    simp
  have hupper : marks upper = marks (before ++ '{' :: above) := by
    rw [hmarks, ← hsame, ← marks_append]
    simp
  rwa [isLiteral_of_marks hline hupper, run_opening opening]

end Zones

/-- A wrapped line is cut in code, and at no place in a literal, if and only if its braces stand in
code and no literal between them holds a comma. -/
theorem wrap_inCode_iff {settings : Settings} {statement : Statement} {ls : List Text}
    (wrapped : wrap settings statement = some ls) (escapes : Char → Bool) :
    ∃ before inside after, Braced before inside after ∧
      statement.lines = [bracedLine before inside after] ∧ ls = bracedLines before inside after ∧
      (((Zone.code.run escapes before).isCode = true ∧
          (Zone.code.run escapes (before ++ '{' :: inside)).isCode = true ∧
          ∀ upper lower, bracedLine before inside after = upper ++ lower →
            BreaksAt ls upper lower → (Zone.code.run escapes upper).isLiteral = false) ↔
        '{' ∈ Zone.code.charsIn escapes Zone.isCode (bracedLine before inside after) ∧
          '}' ∈ Zone.code.charsIn escapes Zone.isCode (bracedLine before inside after) ∧
          ',' ∉ Zone.code.charsIn escapes Zone.isLiteral inside) := by
  obtain ⟨before, inside, after, hbraced, hline, rfl⟩ := exists_of_wrap wrapped
  refine ⟨before, inside, after, hbraced, hline, rfl, ?_⟩
  have hregroup : bracedLine before inside after =
      (before ++ '{' :: inside) ++ '}' :: after := by simp [bracedLine]
  have hopening : '{' ∈ Zone.code.charsIn escapes Zone.isCode (bracedLine before inside after) ↔
      (Zone.code.run escapes before).isCode = true :=
    mem_code_iff hbraced.upper.1 (by simp [hbraced.within.1, hbraced.lower.1])
  have hclosing : '}' ∈ Zone.code.charsIn escapes Zone.isCode (bracedLine before inside after) ↔
      (Zone.code.run escapes (before ++ '{' :: inside)).isCode = true := by
    rw [hregroup]
    exact mem_code_iff (by simp [hbraced.upper.2, hbraced.within.2]) hbraced.lower.2
  rw [hopening, hclosing]
  constructor
  · rintro ⟨hopen, hclose, hbreaks⟩
    refine ⟨hopen, hclose, fun hliteral => ?_⟩
    obtain ⟨upper, lower, hcut, hbreak, hin⟩ := exists_break_of_literal hopen hclose hliteral
    rw [hbreaks upper lower hcut hbreak] at hin
    contradiction
  · rintro ⟨hopen, hclose, hfree⟩
    exact ⟨hopen, hclose, fun upper lower => not_isLiteral_of_breaksAt hopen hclose hfree⟩

def narrow : Settings := { maxLineLength := 20 }

/-- A literal among the members stays whole. -/
theorem wrap_inCode_iff_quoted :
    let line := "import \x7b a, \"b\" as c \x7d from \"d\";".toList
    let ls := ["import \x7b", "  a,", "  \"b\" as c", "\x7d from \"d\";"].map String.toList
    wrap narrow ⟨[], [line], 0⟩ = some ls ∧ ∀ upper lower, line = upper ++ lower →
      BreaksAt ls upper lower → (Zone.code.run (· == '\\') upper).isLiteral = false := by
  intro line ls
  have hwrapped : wrap narrow ⟨[], [line], 0⟩ = some ls := by decide +kernel
  obtain ⟨before, inside, after, -, hline, -, hcut⟩ := wrap_inCode_iff hwrapped (· == '\\')
  have hsame : "import ".toList ++ '{' :: " a, \"b\" as c \x7d from \"d\";".toList =
      before ++ '{' :: (inside ++ '}' :: after) := List.singleton_inj.mp hline
  obtain ⟨rfl, -, hrest⟩ := (List.append_cons_inj_of_notMem (by decide) (by decide)).mp hsame
  have hsame : " a, \"b\" as c ".toList ++ '}' :: " from \"d\";".toList =
      inside ++ '}' :: after := hrest
  obtain ⟨rfl, -, rfl⟩ := (List.append_cons_inj_of_notMem (by decide) (by decide)).mp hsame
  exact ⟨hwrapped, (hcut.mpr (by decide +kernel)).2.2⟩

/-- Braces of a specifier are taken for those of a clause. -/
theorem wrapped_specifier :
    let statement : Statement := ⟨[], ["import a from \"./\x7bb\x7d\";".toList], 0⟩
    narrow.validate = .ok () ∧
      (Block.parse "import a from \"./\x7bb\x7d\";\n".toList).statements = [statement] ∧
      wrap narrow statement =
        some (["import a from \"./\x7b", "  b", "\x7d\";"].map String.toList) ∧
      (Zone.code.run (· == '\\') "import a from \"./".toList).isLiteral = true :=
  ⟨rfl, by decide +kernel, by decide +kernel, by decide +kernel⟩

end Layout
end ImportBlock
