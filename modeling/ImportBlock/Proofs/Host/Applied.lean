import ImportBlock.Proofs.Host.Contents
import ImportBlock.Proofs.Format.InPlace
import ImportBlock.Proofs.Region.Agreement

/-! Edits that can always be made, and change nothing outside the block. -/

namespace ImportBlock

open Text Runs

namespace Region

variable {text : Text} {region : Region}

theorem isRange_of_find? (found : find? text = some region) :
    IsRange text region.start region.stop := by
  rw [← text_of_find? found]
  exact isRange_append region.before region.block region.after

theorem start_lt_stop (found : find? text = some region) : region.start < region.stop := by
  have hblock : region.block ≠ [] := by
    intro hnil
    have hlines := isBlock_lines found
    rw [hnil] at hlines
    exact hlines.ne_nil rfl
  have hsize : byteLength region.block ≠ 0 := fun hsize => hblock (eq_nil_of_byteLength hsize)
  rw [start, stop, byteLength_append]
  omega

end Region

namespace Format

variable {settings : Settings} {unused : List Text} {text : Text} {region : Region}

/-- The bytes around the block stay, apart from the line breaks below a block that vanishes. -/
theorem encode_result_replacement (found : Region.find? text = some region)
    (mode : settings.wholeDocument = false) :
    encode (replacement settings unused region).result =
      (encode text).take region.start ++ encode (rendered settings unused region) ++
        if rendered settings unused region = [] then
          ((encode text).drop region.stop).dropWhile isBreakByte
        else (encode text).drop region.stop := by
  have htake : (encode text).take region.start = encode region.before := by
    rw [← Region.text_of_find? found, Region.text, List.append_assoc]
    exact take_encode_append region.before _
  have hdrop : (encode text).drop region.stop = encode region.after := by
    rw [← Region.text_of_find? found]
    exact drop_encode_append (region.before ++ region.block) region.after
  rw [htake, hdrop, ← encode_dropWhile_isBreak]
  by_cases hnil : rendered settings unused region = []
  · rw [if_pos hnil, replacement_of_nil mode hnil, hnil]
    simp only [Replacement.result, encode_append]
  · rw [if_neg hnil, replacement_inPlace mode hnil]
    simp only [Replacement.result, encode_append]

end Format

namespace FileDocument

variable {m : Type → Type} [Monad m] {σ : Type} {runs : Runs m σ} {host : Host m}

theorem align_ne_invalidRange (still : host.Still runs) {path : String} (trial : Bool)
    {aligner : Aligner (StateT Unsaved m)}
    (quiet : ∀ note, (runs.stateT Unsaved).Keeps (contents runs host path) (aligner.note note))
    (inFlight : InFlight) (state : Unsaved × σ) (start stop : Nat) :
    ((runs.stateT Unsaved).perform (aligner.align (fileDocument host path trial)) inFlight
      state).1.1 ≠ .error (.invalidRange start stop path) := by
  have hmeets := Aligner.meets_align (lawful still trial) quiet inFlight state trivial
  generalize (runs.stateT Unsaved).perform _ inFlight state = ended at hmeets ⊢
  rcases ended with ⟨⟨failure | value, left⟩, after⟩
  · obtain ⟨other, cause, hcause, rfl | rfl⟩ := hmeets
    · simp
    · obtain ⟨fault, rfl⟩ := exists_of_contents_error hcause
      simp
  · simp

/-- An edit replaces a range of the text, one that a file document accepts. There is one wherever
something changes, and in place nothing changes outside the block but the line breaks below it. -/
theorem edit_applies {text : Text} {region : Region} (found : Region.find? text = some region)
    (settings : Settings) (unused : List Text) (still : host.Still runs) {path : String}
    (trial : Bool) {aligner : Aligner (StateT Unsaved m)}
    (quiet : ∀ note, (runs.stateT Unsaved).Keeps (contents runs host path) (aligner.note note)) :
    let replacement := Format.replacement settings unused region
    (region.start < region.stop ∧ IsRange text region.start region.stop) ∧
      (∀ edit ∈ replacement.edit?, IsRange text edit.start edit.stop ∧
        replaceRange? edit.start edit.stop edit.text text = some replacement.result ∧
        ∀ inFlight state, contents runs host path state = .ok text →
          (runs.stateT Unsaved).perform (replaceRange host path edit.start edit.stop edit.text)
            inFlight state = ((.ok (), inFlight), (⟨some replacement.result⟩, state.2))) ∧
      (∀ inFlight state start stop,
        ((runs.stateT Unsaved).perform (aligner.align (fileDocument host path trial)) inFlight
          state).1.1 ≠ .error (.invalidRange start stop path)) ∧
      (settings.wholeDocument = false →
        encode replacement.result =
          (encode text).take region.start ++ encode (Format.rendered settings unused region) ++
            if Format.rendered settings unused region = [] then
              ((encode text).drop region.stop).dropWhile isBreakByte
            else (encode text).drop region.stop) ∧
      (replacement.edit?.isSome ↔ replacement.result ≠ text) := by
  intro replacement
  have hwhole : replacement.before ++ replacement.old ++ replacement.after = text :=
    (Format.append_replacement settings unused region).trans (Region.text_of_find? found)
  refine ⟨⟨Region.start_lt_stop found, Region.isRange_of_find? found⟩, fun edit edits => ?_,
    align_ne_invalidRange still trial quiet, Format.encode_result_replacement found, ?_⟩
  · have hreplaced := Replacement.replaceRange?_of_edit? edits
    rw [hwhole] at hreplaced
    exact ⟨isSome_replaceRange?_iff.mp (Option.isSome_of_eq_some hreplaced), hreplaced,
      fun _ _ holds => perform_replaceRange_of_some still holds hreplaced⟩
  · rw [← hwhole]
    exact Replacement.isSome_edit?_iff

def unneeded : Region where
  before := "// à la carte\n".toList
  block := "import _ from \"lodash\";".toList
  after := "\r\n\nrun();".toList

theorem edit_applies_unneeded :
    let run : Command → StateM Workspace (Except SystemFault Finished) :=
      fun _ => pure (.error .notFound)
    let unused := ["lodash".toList]
    let edit : Edit := ⟨15, 41, []⟩
    let workspace : Workspace := { tree := .empty, folder := [] }
    Region.find? unneeded.text = some unneeded ∧
      (Format.replacement {} unused unneeded).edit? = some edit ∧
      IsRange unneeded.text edit.start edit.stop ∧
      ((Runs.stateM Workspace).stateT Unsaved).perform
          (replaceRange (Workspace.host run) "a.ts" edit.start edit.stop edit.text) .none
          (⟨some unneeded.text⟩, workspace) =
        ((.ok (), .none), (⟨some "// à la carte\nrun();".toList⟩, workspace)) := by
  intro run unused edit workspace
  have hfound : Region.find? unneeded.text = some unneeded := by decide +kernel
  have hedit : (Format.replacement {} unused unneeded).edit? = some edit := by decide +kernel
  have hstill : (Workspace.host run).Still (Runs.stateM Workspace) := Workspace.still
  obtain ⟨-, happlies, -⟩ := edit_applies hfound {} unused hstill false
    (Workspace.keeps_note {} {} "a.ts")
  obtain ⟨hrange, -, hperform⟩ := happlies edit hedit
  have hresult : (Format.replacement {} unused unneeded).result =
      "// à la carte\nrun();".toList := by decide +kernel
  rw [hresult] at hperform
  exact ⟨hfound, hedit, hrange, hperform .none _ rfl⟩

end FileDocument
end ImportBlock
