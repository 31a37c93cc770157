import ImportBlock.Proofs.CommandLine.Settings
import ImportBlock.Proofs.Host.FileDocument

namespace ImportBlock

open FileDocument

namespace FileDocument

variable {workspace other : Workspace} {path : String} {place elsewhere : List Text}
  {bytes : List UInt8} {now : Text} {settings : Settings} {trial : Bool}

theorem Holds.congr (holds : Holds workspace path place bytes now)
    (tree : other.tree = workspace.tree) (folder : other.folder = workspace.folder) :
    Holds other path place bytes now := by
  obtain ⟨located, file, decoded⟩ := holds
  refine ⟨?_, tree ▸ file, decoded⟩
  rw [Workspace.locate, tree, folder]
  exact located

theorem Holds.unique {place' : List Text} {bytes' : List UInt8} {now' : Text}
    (holds : Holds workspace path place bytes now)
    (holds' : Holds workspace path place' bytes' now') :
    place' = place ∧ bytes' = bytes ∧ now' = now := by
  obtain rfl : place' = place := Except.ok.inj (holds'.located.symm.trans holds.located)
  obtain rfl : bytes' = bytes :=
    Node.file.inj (Option.some.inj (holds'.file.symm.trans holds.file))
  exact ⟨rfl, rfl, Except.ok.inj (holds'.decoded.symm.trans holds.decoded)⟩

theorem locate_settled (file : workspace.tree.get? place = some (.file bytes)) (path : String) :
    (settled settings trial workspace place now).locate path = workspace.locate path := by
  rw [settled]
  split
  · exact FileTree.locate_put file _ _ _
  · rfl

theorem get?_settled (file : workspace.tree.get? place = some (.file bytes)) :
    (settled settings trial workspace place now).tree.get? elsewhere =
      if elsewhere = place ∧ trial = false ∧ Format.outcome settings now = .edited then
        some (.file (Text.encode (Format.formatted settings [] now)))
      else workspace.tree.get? elsewhere := by
  by_cases changes : trial = false ∧ Format.outcome settings now = .edited
  · rw [settled, if_pos changes, FileTree.get?_put file]
    simp only [changes, and_true]
  · rw [settled, if_neg changes, if_neg fun both => changes both.2]

theorem printed_settled :
    (settled settings trial workspace place now).printed = workspace.printed := by
  rw [settled]
  split <;> rfl

theorem Holds.settled_elsewhere {otherPath : String} {otherBytes : List UInt8} {otherNow : Text}
    (holds : Holds workspace otherPath elsewhere otherBytes otherNow)
    (file : workspace.tree.get? place = some (.file bytes)) (apart : elsewhere ≠ place) :
    Holds (settled settings trial workspace place now) otherPath elsewhere otherBytes otherNow := by
  refine ⟨(locate_settled file otherPath).trans holds.located, ?_, holds.decoded⟩
  rw [get?_settled file, if_neg fun both => apart both.1]
  exact holds.file

end FileDocument

namespace Tool

variable {α β : Type} {run : Command → StateM Workspace (Except SystemFault Finished)}
  {workspace after final : Workspace} {settings : Settings} {arguments : Arguments}

/-- The step ends so, whatever has been noted before and whatever it notes. -/
def Gives (step : Step (StateM Workspace) α) (workspace : Workspace) (result : Except Failure α)
    (after : Workspace) : Prop :=
  ∀ notes, ∃ more, step.run.run { workspace with notes } = (result, { after with notes := more })

theorem gives_pure (value : α) : Gives (pure value) workspace (.ok value) workspace :=
  fun notes => ⟨notes, rfl⟩

theorem gives_throw (failure : Failure) :
    Gives (throw failure : Step (StateM Workspace) α) workspace (.error failure) workspace :=
  fun notes => ⟨notes, rfl⟩

theorem run_run_bind (step : Step (StateM Workspace) α) (next : α → Step (StateM Workspace) β) :
    (step >>= next).run.run workspace =
      (ExceptT.bindCont next (step.run.run workspace).1 : StateM Workspace _).run
        (step.run.run workspace).2 := rfl

theorem Gives.bind {step : Step (StateM Workspace) α} {next : α → Step (StateM Workspace) β}
    {value : α} {result : Except Failure β} (first : Gives step workspace (.ok value) after)
    (rest : Gives (next value) after result final) :
    Gives (step >>= next) workspace result final := by
  intro notes
  obtain ⟨between, hfirst⟩ := first notes
  obtain ⟨more, hrest⟩ := rest between
  refine ⟨more, ?_⟩
  rw [run_run_bind, hfirst]
  exact hrest

theorem gives_note (note : Note) :
    Gives (liftM ((Workspace.host run).note note)) workspace (.ok ()) workspace :=
  fun notes => ⟨notes ++ [note], rfl⟩

theorem gives_print (line : String) : Gives (liftM ((Workspace.host run).print line)) workspace
    (.ok ()) { workspace with printed := workspace.printed ++ [line] } := fun notes => ⟨notes, rfl⟩

def line (check : Bool) (path : String) : String :=
  if check then s!"Imports out of order: {path}" else s!"Aligned imports in {path}"

section Visit

variable {path : String} {place : List Text} {bytes : List UInt8} {now : Text}

theorem gives_tell (check : Bool) (path : String) (settings : Settings) (now : Text) :
    Gives (tell (Workspace.host run) check path (Format.outcome settings now)) workspace
      (.ok (check && Format.outcome settings now = .edited))
      { workspace with printed := workspace.printed ++
        if Format.outcome settings now = .edited then [line check path] else [] } := by
  have hcancelled : Format.outcome settings now ≠ .cancelled := by
    rw [Format.outcome]
    split
    · simp
    · split <;> simp
  generalize Format.outcome settings now = outcome at hcancelled
  cases outcome with
  | edited =>
    cases check with
    | true => exact (gives_print _).bind (gives_pure _)
    | false => exact (gives_print _).bind (gives_pure _)
  | cancelled => exact absurd rfl hcancelled
  | noImports | unchanged | skipped =>
    simp only [reduceCtorEq, if_false, List.append_nil, decide_false, Bool.and_false]
    exact (gives_note _).bind (gives_pure _)

def visitedOne (settings : Settings) (check : Bool) (workspace : Workspace) (path : String)
    (place : List Text) (now : Text) : Workspace :=
  { settled settings check workspace place now with
    printed := workspace.printed ++
      if Format.outcome settings now = .edited then [line check path] else [] }

/-- The visit leaves in flight what was. -/
theorem gives_visit (unsourced : provider? (Workspace.host run) arguments = none)
    (holds : Holds workspace path place bytes now) {language : Language}
    (known : Language.ofPath? path = some language) {inFlight entered : InFlight}
    (enters : inFlight.acquire? path = some entered) :
    Gives (visit (Workspace.host run) settings arguments inFlight (path, language)) workspace
      (.ok (arguments.check && Format.outcome settings now = .edited, inFlight))
      (visitedOne settings arguments.check workspace path place now) := by
  let step := alignFile (aligner (Workspace.host run) settings arguments)
    (fileDocument (Workspace.host run) path arguments.check) arguments.onSave
  obtain ⟨left, aligns⟩ : ∃ left, FileDocument.Gives step inFlight ⟨none⟩ workspace
      (Format.outcome settings now) left (settled settings arguments.check workspace place now) :=
    gives_alignFile unsourced holds (by rw [known]; rfl) enters arguments.onSave
  have lifted : Gives (liftM ((step.run.run inFlight).run ⟨none⟩)) workspace
      (.ok ((.ok (Format.outcome settings now), inFlight), left))
      (settled settings arguments.check workspace place now) := by
    intro notes
    obtain ⟨more, haligns⟩ := aligns notes
    refine ⟨more, ?_⟩
    change (fun ended : ((Except Failure Outcome × InFlight) × Unsaved) × Workspace =>
      (Except.ok ended.1, ended.2)) (perform step inFlight ⟨none⟩ { workspace with notes }) = _
    rw [haligns]
  have told : Gives (tell (Workspace.host run) arguments.check path (Format.outcome settings now))
      (settled settings arguments.check workspace place now) _ _ := gives_tell _ _ _ _
  rw [printed_settled] at told
  exact (gives_note _).bind (lifted.bind (told.bind (gives_pure _)))

end Visit

end Tool
end ImportBlock
