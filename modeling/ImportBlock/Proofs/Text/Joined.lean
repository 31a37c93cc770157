import ImportBlock.Proofs.Text.Paired

namespace ImportBlock.Text

/-- The lines of a text, each without the line feed and the carriage returns at its end. -/
def contents (text : Text) : List Text := (pieces text).map content

def EndsFilled (ls : List Text) : Prop := ∃ upper last, ls = upper ++ [last] ∧ last ≠ []

theorem EndsFilled.append {lower : List Text} (filled : EndsFilled lower) (upper : List Text) :
    EndsFilled (upper ++ lower) := by
  obtain ⟨init, last, rfl, hlast⟩ := filled
  exact ⟨upper ++ init, last, by rw [List.append_assoc], hlast⟩

theorem EndsFilled.joinWith_ne_nil {ls : List Text} (filled : EndsFilled ls) (separator : Text) :
    joinWith separator ls ≠ [] := by
  obtain ⟨upper, last, rfl, hlast⟩ := filled
  rw [joinWith_append_singleton]
  exact List.append_ne_nil_of_right_ne_nil _ hlast

theorem WholeBreak.breaks {separator : Text} (whole : WholeBreak separator) :
    ∀ c ∈ separator, isBreak c = true := by
  rcases whole with rfl | rfl
  · exact break_feed
  · exact break_return

theorem contents_append {upper : Text} (ended : Ended upper) (lower : Text) :
    contents (upper ++ lower) = contents upper ++ contents lower := by
  rw [contents, pieces_append ended, List.map_append]
  rfl

section Behind

variable {run rest : Text} (breaks : ∀ c ∈ run, isBreak c = true) (feed : '\n' ∉ run)
  (follows : Follows rest)

include feed follows

theorem tail_pieces : (pieces (run ++ rest)).tail = pieces rest.tail := by
  rcases follows with rfl | ⟨below, rfl⟩
  · rw [List.append_nil]
    by_cases hnil : run = []
    · rw [hnil]
      rfl
    · rw [pieces_last feed hnil]
      rfl
  · rw [pieces_line feed]
    rfl

include breaks

theorem exists_pieces_behind {l : Text} (free : '\n' ∉ l) (ne : l ≠ []) :
    ∃ ending, (∀ c ∈ ending, isBreak c = true) ∧
      pieces (l ++ (run ++ rest)) = (l ++ ending) :: pieces rest.tail := by
  have hrun : '\n' ∉ l ++ run := by
    rw [List.mem_append, not_or]
    exact ⟨free, feed⟩
  rcases follows with rfl | ⟨below, rfl⟩
  · refine ⟨run, breaks, ?_⟩
    rw [List.append_nil, pieces_last hrun (by simp [ne])]
    rfl
  · refine ⟨run ++ ['\n'], List.forall_mem_append.mpr ⟨breaks, break_feed⟩, ?_⟩
    rw [← List.append_assoc, pieces_line hrun, List.append_assoc]
    rfl

theorem contents_behind {l : Text} (free : '\n' ∉ l) (ne : l ≠ []) :
    contents (l ++ (run ++ rest)) = content l :: (contents (run ++ rest)).tail := by
  obtain ⟨ending, hending, hpieces⟩ := exists_pieces_behind breaks feed follows free ne
  rw [contents, contents, hpieces, List.map_cons, content_append_breaks hending, ← List.map_tail,
    tail_pieces feed follows]

end Behind

section Joined

variable {separator : Text} (whole : WholeBreak separator) {ls : List Text} (free : NoFeed ls)

include whole free

theorem pieces_flatMap (rest : Text) :
    pieces (ls.flatMap (· ++ separator) ++ rest) = ls.map (· ++ separator) ++ pieces rest := by
  obtain ⟨gap, hgap, rfl⟩ := whole.exists_gap
  have hlines : NoFeed (ls.map (· ++ gap)) := by
    intro line member
    obtain ⟨l, hl, rfl⟩ := List.mem_map.mp member
    rw [List.mem_append, not_or]
    exact ⟨free l hl, hgap⟩
  have hsame : ls.flatMap (· ++ (gap ++ ['\n'])) = endLines (ls.map (· ++ gap)) := by
    simp [endLines, List.flatMap_map]
  rw [hsame, pieces_endLines hlines, List.map_map]
  simp only [Function.comp_def, List.append_assoc]

theorem contents_flatMap (rest : Text) :
    contents (ls.flatMap (· ++ separator) ++ rest) = ls.map content ++ contents rest := by
  rw [contents, pieces_flatMap whole free, List.map_append, List.map_map]
  congr 1
  exact List.map_congr_left fun l _ => content_append_breaks whole.breaks l

theorem contents_joinWith {run rest : Text} (filled : EndsFilled ls)
    (breaks : ∀ c ∈ run, isBreak c = true) (feed : '\n' ∉ run) (follows : Follows rest) :
    contents (joinWith separator ls ++ (run ++ rest)) =
      ls.map content ++ (contents (run ++ rest)).tail := by
  obtain ⟨upper, l, rfl, hl⟩ := filled
  obtain ⟨hupper, hfeed⟩ := noFeed_append.mp free
  rw [joinWith_append_singleton, List.append_assoc, contents_flatMap whole hupper,
    contents_behind breaks feed follows (hfeed l (by simp)) hl]
  simp

end Joined

theorem lines_joinWith_break {separator : Text} (whole : WholeBreak separator) {ls : List Text}
    (free : ∀ l ∈ ls, '\n' ∉ l ∧ '\r' ∉ l) (filled : EndsFilled ls) :
    lines (joinWith separator ls) = ls := by
  obtain ⟨upper, l, rfl, hl⟩ := filled
  rw [List.forall_mem_append, List.forall_mem_singleton] at free
  have hupper : NoFeed upper := fun line member => (free.1 line member).1
  have hsame : (upper.map (· ++ separator)).map dropBreak = upper := by
    rw [List.map_map]
    conv_rhs => rw [← List.map_id upper]
    exact List.map_congr_left fun line member =>
      dropBreak_append (fun hlast => (free.1 line member).2 (List.mem_of_getLast? hlast)) whole
  rw [joinWith_append_singleton, lines, pieces_flatMap whole hupper, List.map_append, hsame,
    ← lines, lines_last free.2.1 hl]

end ImportBlock.Text
