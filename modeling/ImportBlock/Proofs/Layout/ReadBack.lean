import ImportBlock.Proofs.Block.Lossless
import ImportBlock.Proofs.Format.Reordered
import ImportBlock.Proofs.Format.Wrapping

/-! Wrapped lines are read back as the statement that was wrapped, whatever stands below them. -/

namespace ImportBlock

open Text Line

namespace Text

theorem exists_lines_joinWith {ls : List Text} (free : NoFeed ls)
    (trimmed : ∀ l ∈ ls, trimEnd l = l ∧ l ≠ []) (more : List Text) :
    ∃ rest, lines (joinWith ['\n'] (ls ++ more)) = ls ++ rest := by
  have hstop : ∀ l ∈ ls, l.getLast? ≠ some '\r' := by
    intro l member hlast
    have hwhite := getLast?_dropEndWhile isWhite l
    rw [show dropEndWhile isWhite l = l from (trimmed l member).1, hlast] at hwhite
    contradiction
  have habove : ∀ (upper : List Text) (rest : Text), NoFeed upper →
      (∀ l ∈ upper, l.getLast? ≠ some '\r') →
      lines (endLines upper ++ rest) = upper ++ lines rest := by
    intro upper rest hfree hends
    induction upper with
    | nil => rfl
    | cons l upper ih =>
      rw [noFeed_cons] at hfree
      rw [List.forall_mem_cons] at hends
      have hline : endLines (l :: upper) ++ rest = l ++ ['\n'] ++ (endLines upper ++ rest) := by
        simp [endLines]
      rw [hline, lines_line (.inl rfl) hfree.1 hends.1, ih hfree.2 hends.2, List.cons_append]
  cases more with
  | cons text more =>
    refine ⟨lines (joinWith ['\n'] (text :: more)), ?_⟩
    rw [joinWith_append (List.cons_ne_nil text more), habove ls _ free hstop]
  | nil =>
    refine ⟨[], ?_⟩
    simp only [List.append_nil]
    rcases List.eq_nil_or_concat' ls with rfl | ⟨init, last, rfl⟩
    · rfl
    · obtain ⟨hinit, hlast⟩ := noFeed_append.mp free
      rw [List.forall_mem_append] at hstop
      rw [joinWith_concat, habove init last hinit hstop.1,
        lines_last (hlast last (List.mem_singleton_self last)) (trimmed last (by simp)).2]

end Text

namespace Layout

variable {settings : Settings}

theorem trimEnd_bracedLines (before inside after : Text) :
    ∀ l ∈ bracedLines before inside after, trimEnd l = l ∧ l ≠ [] := by
  have hsolid : ∀ {c : Char}, isWhite c = false → Solid [c] :=
    fun h => ⟨⟨_, [], rfl, h⟩, [], _, rfl, h⟩
  intro l member
  rw [bracedLines, List.cons_append, List.mem_cons, List.mem_append, List.mem_singleton] at member
  rcases member with rfl | hmember | rfl
  · exact ⟨(hsolid (by decide)).trimEnd_append before, by simp⟩
  · obtain ⟨text, htext, hline⟩ := exists_of_mem_memberLines hmember
    obtain ⟨htrim, hne⟩ := trim_items htext
    have htext : Solid text := htrim ▸ trim_ends (by rwa [htrim])
    rcases hline with rfl | rfl
    · exact ⟨htext.trimEnd_append indent, by simp [hne]⟩
    · exact ⟨(hsolid (by decide)).trimEnd_append (indent ++ text), by simp⟩
  · exact ⟨by rw [trimEnd_cons _ (by decide), trimEnd_trimEnd], List.cons_ne_nil _ _⟩

/-- The first statement that is read from wrapped lines has just these lines. It is spelt like the
one that was wrapped, so it has the category, the place, the names and the specifier of that one. -/
theorem parse_wrapped {text : Text} {statement : Statement} {ls : List Text}
    (member : statement ∈ (Block.parse text).statements)
    (wrapped : wrap settings statement = some ls) (plain : isPlain statement.rawText = true)
    (more : List Text) :
    let first : Statement := ⟨[], ls, 0⟩
    (∃ rest trailing,
      Block.parse (joinWith ['\n'] (ls ++ more)) = ⟨[], first :: rest, trailing⟩) ∧
        first.normal = statement.normal ∧ ∀ other, wrap other first = none := by
  obtain ⟨before, inside, after, hbraced, hlines, rfl⟩ := exists_of_wrap wrapped
  have hplain : Plain before inside after := by
    rw [Statement.rawText, hlines, joinWith] at plain
    exact plain_of_isPlain hbraced plain
  have hstatement : IsStatement (bracedLines before inside after) := by
    obtain ⟨first, rest, hfirst, himport⟩ := Block.startsImport_of_mem_parse member
    rw [hlines, List.cons.injEq] at hfirst
    rw [← hfirst.1] at himport
    apply isStatement_of_wholeLines
    exact wholeLines_of_opening hbraced hplain.steady (by rw [Mode.read_import himport])
  have hfree : NoFeed (bracedLines before inside after) := by
    intro line hline hfeed
    have hwhole := (Block.free_of_mem_parse member).1 _ (hlines ▸ List.mem_singleton_self _)
    simpa [hwhole] using mem_of_mem_bracedLines hline hfeed
  obtain ⟨rest, hsplit⟩ :=
    exists_lines_joinWith hfree (trimEnd_bracedLines before inside after) more
  obtain ⟨below, trailing, hparse⟩ := Block.parse_of_isStatement hsplit hstatement
  refine ⟨⟨below, trailing, hparse⟩, ?_, fun other => ?_⟩
  · have hsame := normal_bracedLines hbraced hplain statement
    rw [← hlines] at hsame
    exact hsame
  · exact Format.Wrappable.wrap_bracedLines ⟨[], [], 0⟩ before inside after

/-- Members at odd distances, a tail with a literal and a comment, and code further below. -/
theorem parse_wrapped_spaced :
    let settings : Settings := { maxLineLength := 20 }
    let text := "import \x7bb ,a,\t c as d , \x7d from \"x//y\"; // '".toList
    let ls := ["import \x7b", "  b,", "  a,", "  c as d", "\x7d from \"x//y\"; // '"].map
      String.toList
    let more := ["", "import e", "run();"].map String.toList
    let first : Statement := ⟨[], ls, 0⟩
    ∃ statement ∈ (Block.parse text).statements, wrap settings statement = some ls ∧
      isPlain statement.rawText = true ∧
      (∃ rest trailing,
        Block.parse (joinWith ['\n'] (ls ++ more)) = ⟨[], first :: rest, trailing⟩) ∧
          first.normal = statement.normal ∧ ∀ other, wrap other first = none := by
  intro settings text ls more first
  have hmember : ⟨[], [text], 0⟩ ∈ (Block.parse text).statements := by decide +kernel
  have hwrapped : wrap settings ⟨[], [text], 0⟩ = some ls := by decide +kernel
  have hplain : isPlain (Statement.rawText ⟨[], [text], 0⟩) = true := by decide +kernel
  exact ⟨_, hmember, hwrapped, hplain, parse_wrapped hmember hwrapped hplain more⟩

end Layout
end ImportBlock
