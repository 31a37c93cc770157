import ImportBlock.CommandLine.Run
import ImportBlock.Host.Workspace
import ImportBlock.Proofs.Format.Formatted
import ImportBlock.Proofs.Host.FileTree
import ImportBlock.Proofs.Text.Utf8

namespace ImportBlock

namespace Format

variable {settings : Settings} {text : Text}

/-- How aligning a text ends where nothing is known to be unused. -/
def outcome (settings : Settings) (text : Text) : Outcome :=
  match Region.find? text with
  | none => .noImports
  | some region =>
    match (replacement settings [] region).edit? with
    | none => .unchanged
    | some _ => .edited

theorem outcome_eq_edited_iff :
    outcome settings text = .edited ↔ formatted settings [] text ≠ text := by
  rw [outcome]
  split
  · next none => simp [formatted, none]
  · next region found =>
    split
    · next none => simp [formatted, found, none]
    · next edit edits => simpa using (replaceRange?_of_edit? found edits).2

end Format

namespace FileDocument

def perform {α : Type} (step : Step (StateM Workspace) α) (inFlight : InFlight) (unsaved : Unsaved)
    (workspace : Workspace) : ((Except Failure α × InFlight) × Unsaved) × Workspace :=
  ((step.run.run inFlight).run unsaved).run workspace

/-- The step ends so, whatever has been noted before and whatever it notes. -/
def Gives {α : Type} (step : Step (StateM Workspace) α) (inFlight : InFlight) (unsaved : Unsaved)
    (workspace : Workspace) (value : α) (left : Unsaved) (after : Workspace) : Prop :=
  ∀ notes, ∃ more, perform step inFlight unsaved { workspace with notes } =
    (((.ok value, inFlight), left), { after with notes := more })

section Gives

variable {α β : Type} {inFlight : InFlight} {unsaved left last : Unsaved}
  {workspace after final : Workspace}

theorem perform_bind (step : Step (StateM Workspace) α) (next : α → Step (StateM Workspace) β) :
    perform (step >>= next) inFlight unsaved workspace =
      match (perform step inFlight unsaved workspace).1.1.1 with
      | .ok value => perform (next value) (perform step inFlight unsaved workspace).1.1.2
          (perform step inFlight unsaved workspace).1.2 (perform step inFlight unsaved workspace).2
      | .error failure => (((.error failure, (perform step inFlight unsaved workspace).1.1.2),
          (perform step inFlight unsaved workspace).1.2),
          (perform step inFlight unsaved workspace).2) := by
  change ((((ExceptT.bindCont next (perform step inFlight unsaved workspace).1.1.1).run
    (perform step inFlight unsaved workspace).1.1.2).run
      (perform step inFlight unsaved workspace).1.2).run
        (perform step inFlight unsaved workspace).2) = _
  cases (perform step inFlight unsaved workspace).1.1.1 <;> rfl

theorem gives_pure (value : α) :
    Gives (pure value) inFlight unsaved workspace value unsaved workspace :=
  fun notes => ⟨notes, rfl⟩

theorem Gives.bind {step : Step (StateM Workspace) α} {next : α → Step (StateM Workspace) β}
    {value : α} {result : β} (first : Gives step inFlight unsaved workspace value left after)
    (rest : Gives (next value) inFlight left after result last final) :
    Gives (step >>= next) inFlight unsaved workspace result last final := by
  intro notes
  obtain ⟨between, hfirst⟩ := first notes
  obtain ⟨more, hrest⟩ := rest between
  refine ⟨more, ?_⟩
  rw [perform_bind, hfirst]
  exact hrest

theorem Gives.failingAs {step : Step (StateM Workspace) α} {value : α}
    (gives : Gives step inFlight unsaved workspace value left after) (wrap : Failure → Failure) :
    Gives (step.failingAs wrap) inFlight unsaved workspace value left after := by
  intro notes
  obtain ⟨more, hgives⟩ := gives notes
  refine ⟨more, ?_⟩
  change ((fun ended : ((Except Failure α × InFlight) × Unsaved) × Workspace =>
    perform (match ended.1.1.1 with
      | .ok value => ExceptT.mk (pure (.ok value))
      | .error failure => ExceptT.mk (pure (.error (wrap failure)))) ended.1.1.2 ended.1.2 ended.2)
    (perform step inFlight unsaved { workspace with notes })) = _
  rw [hgives]
  rfl

end Gives

section Host

variable {run : Command → StateM Workspace (Except SystemFault Finished)} {path : String}
  {inFlight : InFlight} {unsaved : Unsaved} {workspace : Workspace} {place : List Text}
  {bytes : List UInt8} {now : Text}

/-- The path leads to that file, and this is the text in it. -/
structure Holds (workspace : Workspace) (path : String) (place : List Text) (bytes : List UInt8)
    (now : Text) : Prop where
  located : workspace.locate path = .ok place
  file : workspace.tree.get? place = some (.file bytes)
  decoded : Text.decode bytes = .ok now

theorem perform_get {α : Type} (next : Unsaved → Step (StateM Workspace) α) :
    perform (getThe Unsaved >>= next) inFlight unsaved workspace =
      perform (next unsaved) inFlight unsaved workspace := rfl

theorem perform_modify {α : Type} (change : Unsaved → Unsaved)
    (next : PUnit → Step (StateM Workspace) α) :
    perform (modifyThe Unsaved change >>= next) inFlight unsaved workspace =
      perform (next ()) inFlight (change unsaved) workspace := rfl

theorem perform_host {α β : Type} (action : StateM Workspace β)
    (next : β → Step (StateM Workspace) α) :
    perform (liftM action >>= next) inFlight unsaved workspace =
      perform (next (action.run workspace).1) inFlight unsaved (action.run workspace).2 := rfl

theorem Holds.read (holds : Holds workspace path place bytes now) :
    workspace.read path = .ok bytes := by
  rw [Workspace.read, holds.located]
  change workspace.tree.read place = .ok bytes
  rw [FileTree.read, holds.file]

theorem Holds.write (holds : Holds workspace path place bytes now) (new : List UInt8) :
    workspace.write path new =
      .ok { workspace with tree := workspace.tree.put place (.file new) } := by
  rw [Workspace.write, holds.located]
  change (workspace.tree.write place new).bind (fun tree => .ok { workspace with tree }) = _
  rw [FileTree.write, holds.file]
  rfl

theorem Holds.withNotes (holds : Holds workspace path place bytes now) (notes : List Note) :
    Holds { workspace with notes } path place bytes now :=
  ⟨holds.located, holds.file, holds.decoded⟩

theorem run_bind {α β : Type} (action : StateM Workspace α) (next : α → StateM Workspace β) :
    (action >>= next).run workspace =
      (next (action.run workspace).1).run (action.run workspace).2 := rfl

theorem run_readText (holds : Holds workspace path place bytes now) :
    ((Workspace.host run).readText path).run workspace = (.ok now, workspace) := by
  have hread : ((Workspace.host run).read path).run workspace = (.ok bytes, workspace) := by
    rw [← holds.read]
    rfl
  rw [Host.readText, run_bind, hread]
  simp only [holds.decoded]
  rfl

theorem gives_text_stored (holds : Holds workspace path place bytes now) :
    Gives (text (Workspace.host run) path) inFlight ⟨none⟩ workspace now ⟨none⟩ workspace := by
  intro notes
  refine ⟨notes, ?_⟩
  simp only [text, perform_get, perform_host, run_readText (holds.withNotes notes)]
  rfl

theorem gives_replaceRange {start stop : Nat} {new changed : Text}
    (holds : Holds workspace path place bytes now)
    (replaces : Text.replaceRange? start stop new now = some changed) :
    Gives (replaceRange (Workspace.host run) path start stop new) inFlight ⟨none⟩ workspace ()
      ⟨some changed⟩ workspace := by
  refine (gives_text_stored holds).bind ?_
  rw [replaces]
  exact fun notes => ⟨notes, rfl⟩

theorem gives_save_trial (run : Command → StateM Workspace (Except SystemFault Finished))
    (path : String) : Gives (save (Workspace.host run) path true) inFlight unsaved workspace ()
    unsaved workspace := fun notes => ⟨notes, rfl⟩

theorem gives_save (holds : Holds workspace path place bytes now) (waiting : Text) :
    Gives (save (Workspace.host run) path false) inFlight ⟨some waiting⟩ workspace () ⟨none⟩
      { workspace with tree := workspace.tree.put place (.file (Text.encode waiting)) } := by
  intro notes
  refine ⟨notes, ?_⟩
  have hwrite := (holds.withNotes notes).write (Text.encode waiting)
  have hget : (get : StateM Workspace Workspace).run { workspace with notes } =
      ({ workspace with notes }, { workspace with notes }) := rfl
  have hrun : ((Workspace.host run).write path (Text.encode waiting)).run { workspace with notes } =
      (.ok (), { workspace with
        notes, tree := workspace.tree.put place (.file (Text.encode waiting)) }) := by
    rw [Workspace.host, run_bind, hget]
    simp only [hwrite]
    rfl
  simp only [save, Bool.false_eq_true, if_false, perform_get, perform_modify, perform_host, hrun]
  rfl

end Host

section Align

variable {run : Command → StateM Workspace (Except SystemFault Finished)} {path : String}
  {inFlight : InFlight} {unsaved left : Unsaved} {workspace after : Workspace} {place : List Text}
  {bytes : List UInt8} {now : Text} {settings : Settings} {arguments : Arguments} {trial : Bool}

theorem gives_note (note : Note) :
    Gives (liftM ((Tool.aligner (Workspace.host run) settings arguments).note note)) inFlight
      unsaved workspace () unsaved workspace := fun notes => ⟨notes ++ [note], rfl⟩

section Unsourced

variable (unsourced : Tool.provider? (Workspace.host run) arguments = none)

include unsourced

theorem gives_unusedSymbols (id : String) :
    Gives (liftM ((Tool.aligner (Workspace.host run) settings arguments).unusedSymbols id)) inFlight
      unsaved workspace [] unsaved workspace := by
  have hprovider : (Tool.aligner (Workspace.host run) settings arguments).provider = none := by
    rw [Tool.aligner, unsourced]
    rfl
  rw [Aligner.unusedSymbols, hprovider]
  exact fun notes => ⟨_, rfl⟩

theorem gives_fetchUnused (holds : Holds workspace path place bytes now) :
    Gives ((Tool.aligner (Workspace.host run) settings arguments).fetchUnused
      (fileDocument (Workspace.host run) path trial) now) inFlight ⟨none⟩ workspace (some []) ⟨none⟩
      workspace := by
  rw [Aligner.fetchUnused]
  split
  · refine (gives_unusedSymbols unsourced _).bind ((gives_text_stored holds).bind ?_)
    rw [if_pos rfl]
    exact gives_pure _
  · exact gives_pure _

def waiting (settings : Settings) (now : Text) : Unsaved :=
  ⟨if Format.outcome settings now = .edited then some (Format.formatted settings [] now) else none⟩

theorem gives_align (holds : Holds workspace path place bytes now) :
    Gives ((Tool.aligner (Workspace.host run) settings arguments).align
      (fileDocument (Workspace.host run) path trial)) inFlight ⟨none⟩ workspace
      (Format.outcome settings now) (waiting settings now) workspace := by
  have hnotes : ∀ notes : List Note, Gives (notes.forM fun note =>
      liftM ((Tool.aligner (Workspace.host run) settings arguments).note note)) inFlight ⟨none⟩
        workspace () ⟨none⟩ workspace := by
    intro notes
    induction notes with
    | nil => exact gives_pure ()
    | cons note notes ih => exact (gives_note note).bind ih
  rw [Aligner.align, waiting]
  refine ((gives_text_stored holds).failingAs _).bind ?_
  cases found : Region.find? now with
  | none =>
    have houtcome : Format.outcome settings now = .noImports := by rw [Format.outcome, found]
    rw [houtcome]
    exact (gives_note _).bind (gives_pure _)
  | some region =>
    refine (gives_fetchUnused unsourced holds).bind ((hnotes _).bind ?_)
    have hsettings : (Tool.aligner (Workspace.host run) settings arguments).settings = settings :=
      rfl
    rw [hsettings]
    cases edits : (Format.replacement settings [] region).edit? with
    | none =>
      have houtcome : Format.outcome settings now = .unchanged := by
        simp only [Format.outcome, found, edits]
      rw [houtcome]
      exact gives_pure _
    | some edit =>
      have houtcome : Format.outcome settings now = .edited := by
        simp only [Format.outcome, found, edits]
      rw [houtcome]
      have hreplaced := (Format.replaceRange?_of_edit? found edits).1
      exact (gives_replaceRange holds hreplaced).bind (gives_pure _)

end Unsourced

/-- The workspace once the file has been aligned and saved. A trial leaves it as it is. -/
def settled (settings : Settings) (trial : Bool) (workspace : Workspace) (place : List Text)
    (now : Text) : Workspace :=
  if trial = false ∧ Format.outcome settings now = .edited then
    { workspace with
      tree := workspace.tree.put place (.file (Text.encode (Format.formatted settings [] now))) }
  else workspace

theorem gives_alignAndSave (unsourced : Tool.provider? (Workspace.host run) arguments = none)
    (holds : Holds workspace path place bytes now) :
    ∃ left, Gives ((Tool.aligner (Workspace.host run) settings arguments).alignAndSave
      (fileDocument (Workspace.host run) path trial)) inFlight ⟨none⟩ workspace
      (Format.outcome settings now) left (settled settings trial workspace place now) := by
  have aligns : Gives ((Tool.aligner (Workspace.host run) settings arguments).align
      (fileDocument (Workspace.host run) path trial)) inFlight ⟨none⟩ workspace
      (Format.outcome settings now) (waiting settings now) workspace := gives_align unsourced holds
  rw [Aligner.alignAndSave, settled]
  by_cases edited : Format.outcome settings now = .edited
  · rw [waiting, edited, if_pos rfl] at aligns
    rw [edited]
    cases trial with
    | true => exact ⟨_, aligns.bind ((gives_save_trial run path).bind (gives_pure _))⟩
    | false =>
      rw [if_pos ⟨rfl, rfl⟩]
      exact ⟨_, aligns.bind ((gives_save holds _).bind (gives_pure _))⟩
  · rw [if_neg fun both => edited both.2]
    refine ⟨waiting settings now, aligns.bind ?_⟩
    rw [if_neg edited]
    exact gives_pure _

theorem gives_guarded (known : (Language.ofPath? path).isSome) {entered : InFlight}
    (enters : inFlight.acquire? path = some entered) {step : Step (StateM Workspace) Outcome}
    {result : Outcome} (gives : Gives step entered unsaved workspace result left after) :
    Gives ((Tool.aligner (Workspace.host run) settings arguments).guarded
      (fileDocument (Workspace.host run) path trial) step) inFlight unsaved workspace result left
      after := by
  have hlanguage : (fileDocument (Workspace.host run) path trial).language =
      Language.ofPath? path := rfl
  have hid : (fileDocument (Workspace.host run) path trial).id = path := rfl
  rw [Aligner.guarded, hlanguage, if_neg (by simpa [Option.isSome_iff_ne_none] using known), hid]
  intro notes
  obtain ⟨more, hgives⟩ := gives notes
  refine ⟨more, ?_⟩
  simp only [perform, ExceptT.run_mk, StateT.run, enters]
  change ((fun ended : ((Except Failure Outcome × InFlight) × Unsaved) × Workspace =>
    (((ended.1.1.1, ended.1.1.2.release path), ended.1.2), ended.2))
      (perform step entered unsaved { workspace with notes })) = _
  rw [hgives, ← InFlight.release_acquire enters]

/-- On command or after a save, the file is aligned and saved alike. -/
theorem gives_alignFile (unsourced : Tool.provider? (Workspace.host run) arguments = none)
    (holds : Holds workspace path place bytes now) (known : (Language.ofPath? path).isSome)
    {entered : InFlight} (enters : inFlight.acquire? path = some entered) (onSave : Bool) :
    ∃ left, Gives (Tool.alignFile (Tool.aligner (Workspace.host run) settings arguments)
      (fileDocument (Workspace.host run) path trial) onSave) inFlight ⟨none⟩ workspace
      (Format.outcome settings now) left (settled settings trial workspace place now) := by
  rw [Tool.alignFile]
  split
  · obtain ⟨left, gives⟩ : ∃ left, Gives ((Tool.aligner (Workspace.host run) settings
        arguments).alignAndSave (fileDocument (Workspace.host run) path trial)) entered ⟨none⟩
        workspace (Format.outcome settings now) left (settled settings trial workspace place now) :=
      gives_alignAndSave unsourced holds
    exact ⟨left, gives_guarded known enters gives⟩
  · exact gives_alignAndSave unsourced holds

end Align

end FileDocument
end ImportBlock
