import ImportBlock.Proofs.Format.InPlace
import ImportBlock.Proofs.Region.Returns
import ImportBlock.Proofs.Text.Parts

namespace ImportBlock

open Text

namespace Replacement

def withReturns (replacement : Replacement) : Replacement :=
  ⟨Text.withReturns replacement.before, Text.withReturns replacement.old,
    Text.withReturns replacement.new, Text.withReturns replacement.after⟩

theorem result_withReturns (replacement : Replacement) :
    replacement.withReturns.result = Text.withReturns replacement.result := by
  simp only [result, withReturns, withReturns_append]

theorem edit?_withReturns_iff {replacement : Replacement} :
    replacement.withReturns.edit? = none ↔ replacement.edit? = none := by
  rw [edit?_eq_none_iff, edit?_eq_none_iff]
  exact ⟨fun same => withReturns_injective same, congrArg Text.withReturns⟩

end Replacement

theorem Region.parse_block_withReturns {region : Region} (plain : '\r' ∉ region.text) :
    Block.parse region.withReturns.block = Block.parse region.block := by
  rw [Block.parse, Block.parse, Region.withReturns, lines_withReturns (noReturn_block plain)]

namespace Format

variable {settings : Settings} {unused : List Text} {text : Text} {region : Region}

theorem lineBreak_withReturns (feed : '\n' ∈ text) :
    lineBreak (withReturns text) = ['\r', '\n'] := by
  rcases List.eq_append_cons_of_mem feed with ⟨first, rest, rfl, hfirst⟩
  have hreturns : withReturns (first ++ '\n' :: rest) =
      (first ++ ['\r']) ++ '\n' :: withReturns rest := by
    rw [withReturns_append, withReturns_of_not_mem hfirst, withReturns_feed]
    simp
  rw [lineBreak, hreturns, splitFirst_append (by simp [hfirst])]
  simp

theorem rendered_withReturns (unused : List Text) (plain : '\r' ∉ region.text)
    (feed : '\n' ∈ region.text)
    (same : Format.block settings region.withReturns = Format.block settings region) :
    rendered settings unused region.withReturns =
      withReturns (rendered settings unused region) := by
  have hkept : keptGroup settings unused region.withReturns = keptGroup settings unused region := by
    rw [keptGroup, keptGroup, same]
  rw [rendered, rendered, same, hkept, Region.text_withReturns, lineBreak_withReturns feed,
    lineBreak_of_plain plain, replaceChar_self, withReturns]

section Replacement

variable (same : ∀ region, Region.find? text = some region →
  replacement settings unused region.withReturns = (replacement settings unused region).withReturns)

include same

theorem formatted_of_replacement_withReturns :
    formatted settings unused (withReturns text) =
      withReturns (formatted settings unused text) := by
  cases found : Region.find? text with
  | none =>
    have hnone : Region.find? (withReturns text) = none := by
      rw [Region.find?_withReturns, found]
      rfl
    rw [formatted, formatted, hnone, found]
  | some region =>
    rw [formatted_of_find? found, formatted_of_find? (Region.find?_withReturns_of_some found),
      same region found, Replacement.result_withReturns]

theorem settled_of_replacement_withReturns :
    Settled settings unused (withReturns text) ↔ Settled settings unused text := by
  constructor
  · rintro ⟨region', found, hsame⟩
    rw [Region.find?_withReturns, Option.map_eq_some_iff] at found
    obtain ⟨region, found, rfl⟩ := found
    rw [same region found] at hsame
    exact ⟨region, found, Replacement.edit?_withReturns_iff.mp hsame⟩
  · rintro ⟨region, found, hsame⟩
    refine ⟨region.withReturns, Region.find?_withReturns_of_some found, ?_⟩
    rw [same region found]
    exact Replacement.edit?_withReturns_iff.mpr hsame

end Replacement

section InPlace

variable (mode : settings.wholeDocument = false)

include mode

theorem block_withReturns (plain : '\r' ∉ region.text) :
    Format.block settings region.withReturns = Format.block settings region := by
  rw [block_of_inPlace mode, block_of_inPlace mode, Region.parse_block_withReturns plain]

theorem replacement_withReturns (plain : '\r' ∉ region.text) (feed : '\n' ∈ region.text) :
    replacement settings unused region.withReturns =
      (replacement settings unused region).withReturns := by
  have hrendered := rendered_withReturns unused plain feed (block_withReturns mode plain)
  -- With nothing rendered, the line breaks below the block go too.
  by_cases hnil : rendered settings unused region = []
  · rw [hnil] at hrendered
    rw [replacement_of_nil mode hnil, replacement_of_nil mode hrendered]
    simp only [Region.withReturns, Replacement.withReturns, takeWhile_withReturns,
      dropWhile_withReturns, withReturns_append]
    rfl
  · rw [replacement_inPlace mode hnil, replacement_inPlace mode, hrendered]
    · rfl
    · rwa [hrendered, Ne, withReturns_eq_nil_iff]

theorem formatted_withReturns (plain : '\r' ∉ text) (feed : '\n' ∈ text) :
    formatted settings unused (withReturns text) =
      withReturns (formatted settings unused text) := by
  apply formatted_of_replacement_withReturns
  intro region found
  have htext := Region.text_of_find? found
  exact replacement_withReturns mode (htext ▸ plain) (htext ▸ feed)

theorem settled_withReturns (plain : '\r' ∉ text) (settled : Settled settings unused text) :
    Settled settings unused (withReturns text) := by
  by_cases feed : '\n' ∈ text
  · apply (settled_of_replacement_withReturns _).mpr settled
    intro region found
    have htext := Region.text_of_find? found
    exact replacement_withReturns mode (htext ▸ plain) (htext ▸ feed)
  · rwa [withReturns_of_not_mem feed]

end InPlace
end Format
end ImportBlock
