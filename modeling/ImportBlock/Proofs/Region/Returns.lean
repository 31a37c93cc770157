import ImportBlock.Proofs.Region.Lines
import ImportBlock.Proofs.Region.Trailing
import ImportBlock.Proofs.Text.Returns

namespace ImportBlock

open Text Line

namespace Region

def withReturns (region : Region) : Region :=
  ⟨Text.withReturns region.before, Text.withReturns region.block, Text.withReturns region.after⟩

theorem text_withReturns (region : Region) :
    region.withReturns.text = Text.withReturns region.text := by
  simp only [text, withReturns, withReturns_append]

variable {text : Text} {region : Region}

theorem mem_pieces_of_split {header block below : List Text}
    (split : pieces text = header ++ block ++ below) :
    (∀ piece ∈ header, piece ∈ pieces text) ∧ (∀ piece ∈ block, piece ∈ pieces text) ∧
      ∀ piece ∈ below, piece ∈ pieces text := by
  rw [split]
  refine ⟨?_, ?_, ?_⟩ <;> intro piece member <;> simp [member]

theorem find?_withReturns_of_some (found : find? text = some region) :
    find? (Text.withReturns text) = some region.withReturns := by
  obtain ⟨header, block, below, hsplit, hcut, hbefore, hblock⟩ := exists_cut_of_find? found
  obtain ⟨hheader, hmiddle, hbelow⟩ := mem_pieces_of_split hsplit
  have hpieces : pieces (Text.withReturns text) = header.map Text.withReturns ++
      block.map Text.withReturns ++ below.map Text.withReturns := by
    rw [pieces_withReturns, hsplit, List.map_append, List.map_append]
  have hreturns := hcut.of_trim (map_trim_withReturns hheader).symm
    (map_trim_withReturns hmiddle).symm (map_trim_withReturns hbelow).symm
  have htext : Text.withReturns text = Text.withReturns region.before ++
      Text.withReturns region.block ++ Text.withReturns region.after := by
    rw [← text_of_find? found, Region.text, withReturns_append, withReturns_append]
  rw [find?_of_cut hpieces hreturns, flatten_map_withReturns, flattenContent_withReturns hmiddle,
    ← hbefore, ← hblock, htext, List.drop_left]
  rfl

theorem exists_of_find?_withReturns {region' : Region}
    (found : find? (Text.withReturns text) = some region') :
    ∃ region, find? text = some region := by
  obtain ⟨header', block', below', hsplit', hcut', -⟩ := exists_cut_of_find? found
  rw [pieces_withReturns] at hsplit'
  obtain ⟨upper, below, hsplit, hupper, rfl⟩ := List.map_eq_append_iff.mp hsplit'
  obtain ⟨header, block, rfl, rfl, rfl⟩ := List.map_eq_append_iff.mp hupper
  obtain ⟨hheader, hmiddle, hbelow⟩ := mem_pieces_of_split hsplit
  have hcut := hcut'.of_trim (map_trim_withReturns hheader) (map_trim_withReturns hmiddle)
    (map_trim_withReturns hbelow)
  exact ⟨_, find?_of_cut hsplit hcut⟩

theorem find?_withReturns (text : Text) :
    find? (Text.withReturns text) = (find? text).map withReturns := by
  cases hfound : find? text with
  | some region => exact find?_withReturns_of_some hfound
  | none =>
    cases hreturns : find? (Text.withReturns text) with
    | none => rfl
    | some region' =>
      obtain ⟨region, hsome⟩ := exists_of_find?_withReturns hreturns
      rw [hfound] at hsome
      contradiction

theorem closed_withReturns (plain : '\r' ∉ region.block) :
    region.withReturns.Closed ↔ region.Closed := by
  rw [Closed, Closed, withReturns, lines_withReturns plain]

/-- A region of a text with uniform line breaks is one without carriage returns, or one of such a
text written with them. -/
theorem plain_or_withReturns (uniform : UniformBreaks text) (found : find? text = some region)
    (closed : region.Closed) : '\r' ∉ text ∨ ∃ plain region', '\r' ∉ plain ∧ '\n' ∈ plain ∧
      text = Text.withReturns plain ∧ region = region'.withReturns ∧ find? plain = some region' ∧
      region'.Closed := by
  rcases uniform with hplain | ⟨plain, hplain, rfl⟩
  · exact .inl hplain
  · by_cases feed : '\n' ∈ plain
    · rw [find?_withReturns, Option.map_eq_some_iff] at found
      obtain ⟨region', found, rfl⟩ := found
      have hblock := noReturn_block (text_of_find? found ▸ hplain)
      exact .inr ⟨plain, region', hplain, feed, rfl, rfl, found,
        (closed_withReturns hblock).mp closed⟩
    · rw [withReturns_of_not_mem feed]
      exact .inl hplain

end Region

theorem topComments_withReturns (text : Text) :
    topComments (pieces (withReturns text)) = (topComments (pieces text)).map withReturns := by
  have hlabel := label_map .code
    (map_trim_withReturns (fun _ member => member : ∀ piece ∈ pieces text, piece ∈ pieces text))
  rw [topComments, pieces_withReturns, hlabel, List.takeWhile_map, dropEndWhile_map, topComments,
    List.map_map, List.map_map]
  rfl

theorem fst_splitTrailingComments_withReturns (after : Text) :
    (splitTrailingComments (withReturns after)).1 =
      withReturns (splitTrailingComments after).1 := by
  by_cases feed : '\n' ∈ after
  · obtain ⟨gap, below, rfl, hgap⟩ := List.eq_append_cons_of_mem feed
    have hreturns : withReturns (gap ++ '\n' :: below) =
        (gap ++ ['\r']) ++ '\n' :: withReturns below := by
      rw [withReturns_append, withReturns_of_not_mem hgap, withReturns_feed]
      simp
    have hsub := (prefix_topComments (pieces below)).subset
    rw [hreturns, splitTrailingComments_feed (by simp [hgap]), splitTrailingComments_feed hgap,
      topComments_withReturns]
    simp only [List.map_eq_nil_iff]
    split
    · rfl
    · rw [flattenContent_withReturns hsub, withReturns_append, withReturns_of_not_mem hgap,
        withReturns_feed, List.append_assoc, List.singleton_append]
  · rw [withReturns_of_not_mem feed, withReturns_of_not_mem]
    intro member
    rw [← append_splitTrailingComments after] at feed
    exact feed (List.mem_append_left _ member)

theorem splitTrailingComments_withReturns (after : Text) :
    splitTrailingComments (withReturns after) =
      (withReturns (splitTrailingComments after).1,
        withReturns (splitTrailingComments after).2) := by
  have hfirst := fst_splitTrailingComments_withReturns after
  have hwhole := append_splitTrailingComments (withReturns after)
  conv_rhs at hwhole => rw [← append_splitTrailingComments after, withReturns_append]
  rw [hfirst] at hwhole
  exact Prod.ext hfirst (List.append_cancel_left hwhole)

end ImportBlock
