import ImportBlock.Format
import ImportBlock.Proofs.Region.Lines
import ImportBlock.Proofs.Text.Offset
import ImportBlock.Proofs.Text.Paired

namespace ImportBlock

open Text

namespace Text

theorem replaceChar_self (c : Char) (text : Text) : replaceChar c [c] text = text := by
  have hsame : ∀ d : Char, (if d = c then [c] else [d]) = [d] := by
    intro d
    split
    · next heq => rw [heq]
    · rfl
  simp only [replaceChar, hsame, List.flatMap_singleton']

end Text

namespace Replacement

variable {replacement : Replacement}

theorem replaceRange?_of_edit? {edit : Edit} (edits : replacement.edit? = some edit) :
    replaceRange? edit.start edit.stop edit.text
      (replacement.before ++ replacement.old ++ replacement.after) = some replacement.result := by
  rcases replacement with ⟨before, old, new, after⟩
  rw [edit?] at edits
  split at edits
  · cases edits
  · cases edits
    exact replaceRange?_append before old new after

theorem isSome_edit?_iff : replacement.edit?.isSome ↔
    replacement.result ≠ replacement.before ++ replacement.old ++ replacement.after := by
  rw [← not_iff_not, Option.not_isSome_iff_eq_none, edit?_eq_none_iff, not_not, result]
  simp [eq_comm]

end Replacement

namespace Format

/-- The text after the edit that puts its import block in order, if there is one to make. -/
def formatted (settings : Settings) (unused : List Text) (text : Text) : Text :=
  match Region.find? text with
  | none => text
  | some region =>
    match (replacement settings unused region).edit? with
    | none => text
    | some edit => (replaceRange? edit.start edit.stop edit.text text).getD text

/-- A block is found, and nothing about it is to be changed. -/
def Settled (settings : Settings) (unused : List Text) (text : Text) : Prop :=
  ∃ region, Region.find? text = some region ∧
    (replacement settings unused region).edit? = none

variable {settings : Settings} {unused : List Text} {text : Text} {region : Region}

theorem append_extent (settings : Settings) (region : Region) :
    (if settings.wholeDocument then [] else region.before) ++ (extent settings region).1 ++
      (extent settings region).2 = region.text := by
  rw [extent]
  split
  · have hcut := append_splitTrailingComments region.after
    generalize splitTrailingComments region.after = cut at hcut ⊢
    simp only [List.nil_append, List.append_assoc, hcut, Region.text]
  · rfl

theorem append_replacement (settings : Settings) (unused : List Text) (region : Region) :
    let parts := replacement settings unused region
    parts.before ++ parts.old ++ parts.after = region.text := by
  have hextent := append_extent settings region
  rw [replacement]
  generalize extent settings region = parts at hextent ⊢
  dsimp only
  split
  · simp
  · next hmode =>
    rw [if_neg hmode] at hextent
    split
    · simp only [List.append_assoc, List.takeWhile_append_dropWhile, ← hextent]
    · exact hextent

theorem formatted_of_find? (found : Region.find? text = some region) :
    formatted settings unused text = (replacement settings unused region).result := by
  have hwhole := (append_replacement settings unused region).trans (Region.text_of_find? found)
  simp only [formatted, found]
  cases edits : (replacement settings unused region).edit? with
  | none =>
    have hsame := Replacement.edit?_eq_none_iff.mp edits
    exact hwhole.symm.trans (by rw [Replacement.result, hsame])
  | some edit =>
    have hreplaced := Replacement.replaceRange?_of_edit? edits
    rw [hwhole] at hreplaced
    exact congrArg (Option.getD · text) hreplaced

theorem replaceRange?_of_edit? {edit : Edit} (found : Region.find? text = some region)
    (edits : (replacement settings unused region).edit? = some edit) :
    Text.replaceRange? edit.start edit.stop edit.text text = some (formatted settings unused text) ∧
      formatted settings unused text ≠ text := by
  rw [formatted_of_find? found, ← Region.text_of_find? found,
    ← append_replacement settings unused region]
  exact ⟨Replacement.replaceRange?_of_edit? edits,
    Replacement.isSome_edit?_iff.mp (Option.isSome_of_eq_some edits)⟩

section WholeDocument

variable (mode : settings.wholeDocument = true)

include mode

theorem extent_of_wholeDocument (region : Region) : extent settings region =
    (region.before ++ region.block ++ (splitTrailingComments region.after).1,
      (splitTrailingComments region.after).2) := by
  rw [extent, mode]
  rfl

theorem replacement_of_wholeDocument (region : Region) : replacement settings unused region =
    ⟨[], region.text, rendered settings unused region ++
      (if rendered settings unused region = [] then
        (dropBlankTail (splitTrailingComments region.after).2).dropWhile isBreak
      else dropBlankTail (splitTrailingComments region.after).2) ++ lineBreak region.text, []⟩ := by
  rw [replacement, extent_of_wholeDocument mode, mode]
  simp only [List.isEmpty_iff, if_true]

end WholeDocument

theorem wholeBreak_lineBreak (text : Text) : WholeBreak (lineBreak text) := by
  rw [lineBreak]
  split
  · split
    · exact .inr rfl
    · exact .inl rfl
  · exact .inl rfl

theorem lineBreak_of_plain (plain : '\r' ∉ text) : lineBreak text = ['\n'] := by
  rw [lineBreak]
  split
  · next first rest found =>
    rw [if_neg]
    intro hlast
    apply plain
    rw [eq_append_of_splitFirst found]
    simp [List.mem_of_getLast? hlast]
  · rfl

end Format
end ImportBlock
