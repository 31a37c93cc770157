import ImportBlock.Proofs.CommandLine.Check
import ImportBlock.Proofs.Host.Contents

/-! Where the unused symbols cannot be had, nothing is removed. -/

namespace ImportBlock

open Text Runs

variable {m : Type → Type} [Monad m] {σ : Type} {runs : Runs m σ}

namespace Aligner

def removing (aligner : Aligner m) (removeUnused : Bool) : Aligner m :=
  { aligner with settings := { aligner.settings with removeUnused } }

/-- A provider that fails or finds nothing has no more to say than one that is never asked. -/
theorem align_barren {document : Document m} {contents : σ → Except Failure Text}
    {aligner : Aligner m} (lawful : document.Lawful runs contents)
    (quiet : ∀ note, runs.Keeps contents (aligner.note note)) {state : σ} {now : Text}
    (holds : contents state = .ok now) (barren : aligner.Barren runs document contents state)
    (inFlight : InFlight) :
    let ended := fun removeUnused =>
      runs.perform ((aligner.removing removeUnused).align document) inFlight state
    (ended true).1.1 = (ended false).1.1 ∧ contents (ended true).2 = contents (ended false).2 ∧
      (ended true).1.1 = .ok (Format.outcome aligner.settings now) ∧
      contents (ended true).2 = .ok (Format.formatted aligner.settings [] now) := by
  intro ended
  have hended : ∀ removeUnused,
      (ended removeUnused).1.1 = .ok (Format.outcome aligner.settings now) ∧
        contents (ended removeUnused).2 = .ok (Format.formatted aligner.settings [] now) := by
    intro removeUnused
    have hquiet : ∀ note, runs.Keeps contents ((aligner.removing removeUnused).note note) := quiet
    have hbarren : (aligner.removing removeUnused).Barren runs document contents state := barren
    exact (yields_align lawful hquiet holds hbarren).ends rfl
  obtain ⟨houtcome, hcontents⟩ := hended true
  obtain ⟨houtcome', hcontents'⟩ := hended false
  exact ⟨houtcome.trans houtcome'.symm, hcontents.trans hcontents'.symm, houtcome, hcontents⟩

theorem align_barren_lint :
    let run : Command → StateM Workspace (Except SystemFault Finished) :=
      fun _ => pure (.ok ⟨3, []⟩)
    let host := Workspace.host run
    let runs := (stateM Workspace).stateT Unsaved
    let aligner := Tool.aligner host {} { unusedCmd := some "lint" }
    let document := fileDocument host "a.ts" false
    let contents := FileDocument.contents (stateM Workspace) host "a.ts"
    let now := Tool.unordered.text
    let state := (⟨none⟩, Tool.desk)
    (aligner.provider.isSome ∧ aligner.Barren runs document contents state ∧
      contents state = .ok now ∧ Format.outcome aligner.settings now = .edited) ∧
    let ended := fun removeUnused =>
      runs.perform ((aligner.removing removeUnused).align document) .none state
    (ended true).1.1 = (ended false).1.1 ∧ contents (ended true).2 = contents (ended false).2 ∧
      (ended true).1.1 = .ok (Format.outcome aligner.settings now) ∧
      contents (ended true).2 = .ok (Format.formatted aligner.settings [] now) := by
  intro run host runs aligner document contents now state
  have hholds : contents state = .ok now :=
    Workspace.contents_of_holds Tool.holds_desk
  have hbarren : aligner.Barren runs document contents state := by
    rintro fetch ⟨rfl⟩
    have hwords : (words "lint".toList).map String.ofList = ["lint"] := by decide +kernel
    have hreport : (stateM Workspace).run (host.reportCommand "lint" "a.ts") Tool.desk =
        (.error (.failed "lint" 3), Tool.desk) := by
      rw [Host.reportCommand, hwords]
      rfl
    have hrun : runs.run (liftM (host.reportCommand "lint" "a.ts")) state =
        (.error (.failed "lint" 3), state) := by
      rw [run_stateT_liftM, hreport]
    refine ⟨congrArg contents (congrArg Prod.snd hrun), fun symbols answered => ?_⟩
    cases (congrArg Prod.fst hrun).symm.trans answered
  have hlawful : document.Lawful runs contents := FileDocument.lawful Workspace.still false
  have hquiet : ∀ note, runs.Keeps contents (aligner.note note) :=
    Workspace.keeps_note {} { unusedCmd := some "lint" } "a.ts"
  exact ⟨⟨rfl, hbarren, hholds, Tool.outcome_unordered⟩,
    align_barren hlawful hquiet hholds hbarren .none⟩

end Aligner
end ImportBlock
