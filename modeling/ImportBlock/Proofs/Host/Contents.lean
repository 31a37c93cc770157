import ImportBlock.Proofs.Aligner.Lawful

namespace ImportBlock

open Runs

variable {m : Type → Type} [Monad m] {σ : Type} {runs : Runs m σ} {host : Host m} {path : String}
  {inFlight : InFlight} {state : Unsaved × σ}

/-- Reading a file changes nothing. -/
def Host.Still (runs : Runs m σ) (host : Host m) : Prop :=
  ∀ path state, (runs.run (host.read path) state).2 = state

theorem Host.Still.readText (still : host.Still runs) (path : String) (state : σ) :
    (runs.run (host.readText path) state).2 = state := by
  have hstill := still path state
  rw [Host.readText, runs.run_bind]
  generalize runs.run (host.read path) state = ended at hstill ⊢
  rcases ended with ⟨fault | bytes, after⟩
  · exact (congrArg Prod.snd (runs.run_pure _ _)).trans hstill
  · exact (congrArg Prod.snd (runs.run_pure _ _)).trans hstill

namespace FileDocument

variable (runs host path)

def stored (state : σ) : Except SystemFault Text := (runs.run (host.readText path) state).1

/-- The text that waits, or else the one in the file. -/
def contents (state : Unsaved × σ) : Except Failure Text :=
  match state.1.text with
  | some text => .ok text
  | none => (stored runs host path state.2).mapError (.unreadableFile path)

variable {runs host path}

theorem exists_of_contents_error {failure : Failure}
    (unread : contents runs host path state = .error failure) :
    ∃ fault, failure = .unreadableFile path fault := by
  rw [contents] at unread
  split at unread
  · cases unread
  · cases hread : stored runs host path state.2 with
    | ok text =>
      rw [hread] at unread
      cases unread
    | error fault =>
      rw [hread] at unread
      exact ⟨fault, (Except.error.inj unread).symm⟩

theorem perform_text (still : host.Still runs) :
    (runs.stateT Unsaved).perform (text host path) inFlight state =
      ((contents runs host path state, inFlight), state) := by
  rw [text, Runs.perform_bind, perform_getThe, contents]
  dsimp only
  cases state.1.text with
  | some text => exact Runs.perform_pure _ _
  | none =>
    dsimp only
    rw [Runs.perform_bind, perform_stateT_liftM, still.readText]
    rw [stored]
    generalize (runs.run (host.readText path) state.2).1 = read
    cases read with
    | ok text => exact Runs.perform_pure _ _
    | error fault => exact Runs.perform_throw _ _

theorem perform_replaceRange (still : host.Still runs) (start stop : Nat) (new : Text) :
    (runs.stateT Unsaved).perform (replaceRange host path start stop new) inFlight state =
      match contents runs host path state with
      | .error failure => ((.error failure, inFlight), state)
      | .ok old =>
        match Text.replaceRange? start stop new old with
        | some changed => ((.ok (), inFlight), (⟨some changed⟩, state.2))
        | none => ((.error (.invalidRange start stop path), inFlight), state) := by
  rw [replaceRange, Runs.perform_bind, perform_text still]
  cases contents runs host path state with
  | error failure => rfl
  | ok old =>
    dsimp only
    cases Text.replaceRange? start stop new old with
    | some changed => exact perform_modifyThe runs _
    | none => exact Runs.perform_throw _ _

theorem perform_replaceRange_of_some (still : host.Still runs) {start stop : Nat}
    {new now changed : Text} (holds : contents runs host path state = .ok now)
    (replaces : Text.replaceRange? start stop new now = some changed) :
    (runs.stateT Unsaved).perform (replaceRange host path start stop new) inFlight state =
      ((.ok (), inFlight), (⟨some changed⟩, state.2)) := by
  rw [perform_replaceRange still, holds]
  dsimp only
  rw [replaces]

theorem perform_save (trial : Bool) :
    (runs.stateT Unsaved).perform (save host path trial) inFlight state =
      match trial, state.1.text with
      | true, _ | false, none => ((.ok (), inFlight), state)
      | false, some waiting =>
        let written := runs.run (host.write path waiting.encode) state.2
        ((written.1.mapError (.unwritableFile path), inFlight), (⟨none⟩, written.2)) := by
  cases trial with
  | true => exact Runs.perform_pure _ _
  | false =>
    rw [save, if_neg Bool.false_ne_true, Runs.perform_bind, perform_getThe]
    dsimp only
    cases state.1.text with
    | none => exact Runs.perform_pure _ _
    | some waiting =>
      dsimp only
      rw [Runs.perform_bind, perform_modifyThe]
      dsimp only
      rw [Runs.perform_bind, perform_stateT_liftM]
      dsimp only
      generalize runs.run (host.write path waiting.encode) state.2 = written
      rcases written with ⟨fault | written, after⟩
      · exact Runs.perform_throw _ _
      · exact Runs.perform_pure _ _

theorem lawful (still : host.Still runs) (trial : Bool) :
    (fileDocument host path trial).Lawful (runs.stateT Unsaved) (contents runs host path) where
  read _ _ := perform_text still
  replace {start stop new now changed} replaces := by
    refine yields_of_ends fun inFlight state holds => ?_
    have hreplace : (runs.stateT Unsaved).perform ((fileDocument host path trial).replaceRange
        start stop new) inFlight state = ((.ok (), inFlight), (⟨some changed⟩, state.2)) :=
      perform_replaceRange_of_some still holds replaces
    rw [hreplace]
    exact ⟨rfl, rfl⟩

end FileDocument

namespace Workspace

variable {run : Command → StateM Workspace (Except SystemFault Finished)}

theorem still : (Workspace.host run).Still (stateM Workspace) := fun _ _ => rfl

theorem stored_eq (path : String) (workspace : Workspace) :
    FileDocument.stored (stateM Workspace) (Workspace.host run) path workspace =
      (workspace.read path).bind fun bytes => (Text.decode bytes).mapError fun _ => .notUtf8 := by
  have hread : (stateM Workspace).run ((Workspace.host run).read path) workspace =
      (workspace.read path, workspace) := rfl
  rw [FileDocument.stored, Host.readText, (stateM Workspace).run_bind, hread]
  cases workspace.read path with
  | error fault => rfl
  | ok bytes => rfl

theorem contents_of_holds {path : String} {workspace : Workspace} {place : List Text}
    {bytes : List UInt8} {now : Text} (holds : FileDocument.Holds workspace path place bytes now) :
    FileDocument.contents (stateM Workspace) (Workspace.host run) path (⟨none⟩, workspace) =
      .ok now := by
  have hstored : FileDocument.stored (stateM Workspace) (Workspace.host run) path workspace =
      .ok now := by
    rw [stored_eq, holds.read]
    exact congrArg (Except.mapError _) holds.decoded
  rw [FileDocument.contents]
  dsimp only
  rw [hstored]
  rfl

theorem keeps_note (settings : Settings) (arguments : Arguments) (path : String) (note : Note) :
    ((stateM Workspace).stateT Unsaved).Keeps (FileDocument.contents (stateM Workspace)
      (Workspace.host run) path)
      ((Tool.aligner (Workspace.host run) settings arguments).note note) := by
  rintro ⟨⟨waiting⟩, workspace⟩
  cases waiting with
  | some text => rfl
  | none =>
    have hrun : ((stateM Workspace).stateT Unsaved).run ((Tool.aligner (Workspace.host run) settings
        arguments).note note) (⟨none⟩, workspace) =
          ((), ⟨none⟩, { workspace with notes := workspace.notes ++ [note] }) := rfl
    rw [hrun, FileDocument.contents, FileDocument.contents]
    simp only [stored_eq]
    rfl

end Workspace
end ImportBlock
