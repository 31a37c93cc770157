import ImportBlock.Proofs.Text.Lines

namespace ImportBlock.Text

/-- A carriage return is put before each line feed. -/
def withReturns (text : Text) : Text := replaceChar '\n' ['\r', '\n'] text

/-- Line feeds without carriage returns, or each with one and no others. -/
def UniformBreaks (text : Text) : Prop :=
  '\r' ∉ text ∨ ∃ plain, '\r' ∉ plain ∧ text = withReturns plain

theorem withReturns_append (left right : Text) :
    withReturns (left ++ right) = withReturns left ++ withReturns right :=
  List.flatMap_append

theorem withReturns_feed (rest : Text) :
    withReturns ('\n' :: rest) = '\r' :: '\n' :: withReturns rest :=
  rfl

theorem withReturns_cons {c : Char} (h : c ≠ '\n') (rest : Text) :
    withReturns (c :: rest) = c :: withReturns rest := by
  simp [withReturns, replaceChar, h]

theorem withReturns_of_not_mem {text : Text} (h : '\n' ∉ text) : withReturns text = text := by
  induction text with
  | nil => rfl
  | cons c rest ih =>
    rw [List.mem_cons, not_or] at h
    rw [withReturns_cons (Ne.symm h.1), ih h.2]

theorem withReturns_eq_nil_iff {text : Text} : withReturns text = [] ↔ text = [] := by
  constructor
  · intro h
    cases text with
    | nil => rfl
    | cons c rest =>
      by_cases hc : c = '\n'
      · simp [hc, withReturns_feed] at h
      · simp [withReturns_cons hc] at h
  · rintro rfl
    rfl

theorem mem_of_mem_withReturns {text : Text} {c : Char} (h : c ∈ withReturns text) :
    c = '\r' ∨ c ∈ text := by
  rcases List.mem_flatMap.mp h with ⟨d, hd, hc⟩
  split at hc
  · next hfeed =>
    rw [hfeed] at hd
    rcases List.mem_cons.mp hc with rfl | hc
    · exact .inl rfl
    · exact .inr (List.mem_singleton.mp hc ▸ hd)
  · exact .inr (List.mem_singleton.mp hc ▸ hd)

theorem withReturns_ne_feed (text rest : Text) : withReturns text ≠ '\n' :: rest := by
  cases text with
  | nil => exact (List.cons_ne_nil _ _).symm
  | cons c text =>
    by_cases hc : c = '\n'
    · rw [hc, withReturns_feed]
      intro h
      exact absurd (List.cons.inj h).1 (by decide)
    · rw [withReturns_cons hc]
      intro h
      exact hc (List.cons.inj h).1

theorem withReturns_injective {left right : Text} (h : withReturns left = withReturns right) :
    left = right := by
  induction left generalizing right with
  | nil => exact (withReturns_eq_nil_iff.mp h.symm).symm
  | cons c left ih =>
    cases right with
    | nil => exact withReturns_eq_nil_iff.mp h
    | cons d right =>
      by_cases hc : c = '\n' <;> by_cases hd : d = '\n'
      · subst hc hd
        rw [ih (List.cons.inj (List.cons.inj h).2).2]
      · rw [hc, withReturns_feed, withReturns_cons hd] at h
        exact absurd (List.cons.inj h).2.symm (withReturns_ne_feed right _)
      · rw [hd, withReturns_feed, withReturns_cons hc] at h
        exact absurd (List.cons.inj h).2 (withReturns_ne_feed left _)
      · rw [withReturns_cons hc, withReturns_cons hd] at h
        rw [(List.cons.inj h).1, ih (List.cons.inj h).2]

theorem white_withReturns {text : Text} (white : ∀ c ∈ text, isWhite c = true) :
    ∀ c ∈ withReturns text, isWhite c = true := by
  intro c member
  rcases mem_of_mem_withReturns member with rfl | hc
  · decide
  · exact white c hc

theorem trimEnd_withReturns (text : Text) :
    trimEnd (withReturns text) = withReturns (trimEnd text) := by
  obtain ⟨run, hsplit, hwhite⟩ := exists_append_dropEndWhile isWhite text
  have hreturns : withReturns text = withReturns (trimEnd text) ++ withReturns run := by
    rw [← withReturns_append]
    exact congrArg withReturns hsplit
  rw [hreturns, trimEnd, dropEndWhile_append_of_all (white_withReturns hwhite)]
  rcases List.eq_nil_or_concat' (trimEnd text) with hnil | ⟨init, c, hlast⟩
  · rw [hnil]
    rfl
  · have hc : isWhite c = false := not_last_dropEndWhile hlast
    have hfeed : '\n' ∉ [c] := by
      rw [List.mem_singleton]
      rintro rfl
      contradiction
    rw [hlast, withReturns_append, withReturns_of_not_mem hfeed]
    rw [dropEndWhile_append_of_any ⟨c, List.mem_cons_self, hc⟩]
    simp [dropEndWhile, hc]

theorem flatten_map_withReturns (texts : List Text) :
    (texts.map withReturns).flatten = withReturns texts.flatten := by
  induction texts with
  | nil => rfl
  | cons text texts ih =>
    rw [List.map_cons, List.flatten_cons, List.flatten_cons, ih, withReturns_append]

theorem pieces_withReturns (text : Text) :
    pieces (withReturns text) = (pieces text).map withReturns := by
  induction text with
  | nil => rfl
  | cons c rest ih =>
    by_cases hc : c = '\n'
    · subst hc
      have hline := pieces_line (by decide : '\n' ∉ ['\r']) (withReturns rest)
      have hrest : pieces ('\n' :: rest) = ['\n'] :: pieces rest := by rw [pieces, if_pos rfl]
      rw [withReturns_feed, hrest, List.map_cons, ← ih]
      exact hline
    · rw [withReturns_cons hc, pieces, if_neg hc, pieces, if_neg hc, ih]
      cases pieces rest with
      | nil => simp [withReturns_cons hc, withReturns_of_not_mem]
      | cons piece more => simp [withReturns_cons hc]

theorem exists_of_mem_pieces {text piece : Text} (member : piece ∈ pieces text) :
    ∃ l feed, piece = l ++ feed ∧ '\n' ∉ l ∧ (feed = ['\n'] ∨ feed = []) := by
  obtain ⟨front, rest, hsplit⟩ := List.append_of_mem member
  have hstretch : pieces text = front ++ [piece] ++ rest := by simp [hsplit]
  obtain ⟨ls, l, feed, hfree, hfeed, hpiece⟩ := exists_lines_of_pieces hstretch (by simp)
  cases ls with
  | nil =>
    refine ⟨l, feed, List.singleton_inj.mp hpiece, hfree l (by simp), ?_⟩
    exact hfeed.imp_right fun h => h.1
  | cons x xs => simp at hpiece

section Piece

variable {text piece : Text} (member : piece ∈ pieces text)

include member

theorem withReturns_piece :
    ∃ l feed, piece = l ++ feed ∧ '\n' ∉ l ∧ withReturns piece = l ++ withReturns feed ∧
      (feed = ['\n'] ∨ feed = []) := by
  obtain ⟨l, feed, hpiece, hl, hfeed⟩ := exists_of_mem_pieces member
  refine ⟨l, feed, hpiece, hl, ?_, hfeed⟩
  rw [hpiece, withReturns_append, withReturns_of_not_mem hl]

theorem trim_withReturns : trim (withReturns piece) = trim piece := by
  obtain ⟨l, feed, hpiece, -, hreturns, hfeed⟩ := withReturns_piece member
  rw [hreturns, hpiece]
  rcases hfeed with rfl | rfl
  · rw [trim_append_breaks break_feed]
    exact trim_append_breaks break_return l
  · rfl

theorem content_withReturns : content (withReturns piece) = withReturns (content piece) := by
  obtain ⟨l, feed, hpiece, hl, hreturns, hfeed⟩ := withReturns_piece member
  have hplain : withReturns (content l) = content l :=
    withReturns_of_not_mem (not_mem_content hl)
  rw [hreturns, hpiece]
  rcases hfeed with rfl | rfl
  · rw [content_append_breaks break_feed, hplain]
    exact content_append_breaks break_return l
  · rw [withReturns, replaceChar, List.flatMap_nil, List.append_nil, hplain]

theorem dropBreak_withReturns (plain : '\r' ∉ text) :
    dropBreak (withReturns piece) = dropBreak piece := by
  obtain ⟨l, feed, hpiece, hl, hreturns, hfeed⟩ := withReturns_piece member
  have hreturn : '\r' ∉ l := by
    intro hc
    apply plain
    rw [← flatten_pieces text]
    exact List.mem_flatten.mpr ⟨piece, member, by simp [hpiece, hc]⟩
  rw [hreturns, hpiece]
  rcases hfeed with rfl | rfl
  · rw [dropBreak_line hreturn, dropBreak, withReturns_feed, List.reverse_append]
    simp [withReturns, replaceChar]
  · rfl

end Piece

theorem map_trim_withReturns {text : Text} {part : List Text}
    (sub : ∀ piece ∈ part, piece ∈ pieces text) :
    (part.map withReturns).map trim = part.map trim := by
  rw [List.map_map]
  exact List.map_congr_left fun piece member => trim_withReturns (sub piece member)

theorem flattenContent_withReturns {text : Text} {part : List Text}
    (sub : ∀ piece ∈ part, piece ∈ pieces text) :
    flattenContent (part.map withReturns) = withReturns (flattenContent part) := by
  rcases List.eq_nil_or_concat' part with rfl | ⟨init, last, rfl⟩
  · rfl
  · have hlast : last ∈ pieces text := sub last (by simp)
    simp only [flattenContent, List.map_append, List.map_singleton, List.dropLast_concat,
      List.getLast?_concat, Option.getD_some]
    rw [flatten_map_withReturns, content_withReturns hlast, withReturns_append]

theorem lines_withReturns {text : Text} (plain : '\r' ∉ text) :
    lines (withReturns text) = lines text := by
  rw [lines, lines, pieces_withReturns, List.map_map]
  exact List.map_congr_left fun piece member => dropBreak_withReturns member plain

theorem takeWhile_withReturns (text : Text) :
    (withReturns text).takeWhile isBreak = withReturns (text.takeWhile isBreak) := by
  induction text with
  | nil => rfl
  | cons c rest ih =>
    by_cases hc : c = '\n'
    · subst hc
      have hfeed : isBreak '\n' = true := rfl
      have hreturn : isBreak '\r' = true := rfl
      simp only [withReturns_feed, List.takeWhile_cons, hfeed, hreturn, if_true, ih]
    · rw [withReturns_cons hc, List.takeWhile_cons, List.takeWhile_cons, ih]
      split
      · rw [withReturns_cons hc]
      · rfl

theorem dropWhile_withReturns (text : Text) :
    (withReturns text).dropWhile isBreak = withReturns (text.dropWhile isBreak) := by
  have hsplit := congrArg withReturns (List.takeWhile_append_dropWhile (p := isBreak) (l := text))
  rw [withReturns_append, ← takeWhile_withReturns] at hsplit
  conv_rhs at hsplit =>
    rw [← List.takeWhile_append_dropWhile (p := isBreak) (l := withReturns text)]
  exact (List.append_cancel_left hsplit).symm

end ImportBlock.Text
