import ImportBlock.CommandLine.Run
import ImportBlock.Host.Workspace

namespace ImportBlock

namespace Workspace

/-- Changes nothing but the notes. -/
def Quiet {α : Type} (action : StateM Workspace α) : Prop :=
  ∀ workspace, ∃ notes, (action.run workspace).2 = { workspace with notes }

section Quiet

variable {α β : Type} {run : Command → StateM Workspace (Except SystemFault Finished)}
  {reader : Reader}

theorem quiet_pure (value : α) : Quiet (pure value : StateM Workspace α) :=
  fun workspace => ⟨workspace.notes, rfl⟩

theorem Quiet.bind {action : StateM Workspace α} {next : α → StateM Workspace β}
    (first : Quiet action) (rest : ∀ value, Quiet (next value)) : Quiet (action >>= next) := by
  intro workspace
  obtain ⟨between, hfirst⟩ := first workspace
  obtain ⟨notes, hrest⟩ := rest (action.run workspace).1 { workspace with notes := between }
  refine ⟨notes, ?_⟩
  change ((next (action.run workspace).1).run (action.run workspace).2).2 = _
  rw [hfirst]
  exact hrest

theorem quiet_get (look : Workspace → α) : Quiet (do return look (← get)) :=
  fun workspace => ⟨workspace.notes, rfl⟩

theorem quiet_note (note : Note) : Quiet ((host run).note note) :=
  fun workspace => ⟨workspace.notes ++ [note], rfl⟩

theorem quiet_readText (path : String) : Quiet ((host run).readText path) := by
  refine (quiet_get fun workspace => workspace.read path).bind fun result => ?_
  cases result with
  | error fault => exact quiet_pure _
  | ok bytes => exact quiet_pure _

theorem quiet_findSomeM? {action : α → StateM Workspace (Option β)}
    (all : ∀ value, Quiet (action value)) (values : List α) : Quiet (values.findSomeM? action) := by
  induction values with
  | nil => exact quiet_pure _
  | cons value values ih =>
    rw [List.findSomeM?]
    refine (all value).bind fun found => ?_
    cases found with
    | none => exact ih
    | some found => exact quiet_pure _

theorem quiet_readLayer (path : String) : Quiet ((host run).readLayer path reader) := by
  refine (quiet_readText path).bind fun result => ?_
  cases result with
  | error fault => exact quiet_pure _
  | ok text =>
    simp only
    split <;> exact quiet_pure _

theorem quiet_layered (lower : reader.Layer) : Quiet ((host run).layered reader lower) :=
  (quiet_get fun workspace => workspace.environment).bind fun _ => quiet_pure _

theorem quiet_settingsFrom (path : String) : Quiet ((host run).settingsFrom path reader) := by
  refine (quiet_readLayer path).bind fun result => ?_
  cases result with
  | error fault => exact quiet_pure _
  | ok layer => exact quiet_layered _

theorem quiet_hostSettings (named : Option String) :
    Quiet ((host run).settings named reader) := by
  cases named with
  | some path =>
    refine (quiet_get fun workspace => workspace.isFile path).bind fun file => ?_
    split
    · exact quiet_settingsFrom path
    · exact quiet_pure _
  | none =>
    have finds : Quiet (host run).findSettings? :=
      (quiet_get fun workspace => workspace.folderName).bind fun folder =>
        quiet_findSomeM? (fun folder => (quiet_get fun workspace =>
          workspace.isFile (Path.join folder Host.settingsName)).bind fun file => quiet_pure _) _
    refine finds.bind fun found => ?_
    cases found with
    | none => exact quiet_layered _
    | some path => exact (quiet_note _).bind fun _ => quiet_settingsFrom path

theorem Quiet.lift {action : StateM Workspace α} (quiet : Quiet action) :
    Quiet (liftM action : Tool.Step (StateM Workspace) α).run :=
  quiet.bind fun value => quiet_pure (Except.ok value)

theorem Quiet.andThen {step : Tool.Step (StateM Workspace) α}
    {next : α → Tool.Step (StateM Workspace) β} (first : Quiet step.run)
    (rest : ∀ value, Quiet (next value).run) : Quiet (step >>= next).run := by
  change Quiet (step.run >>= ExceptT.bindCont next)
  refine first.bind fun result => ?_
  cases result with
  | error failure => exact quiet_pure _
  | ok value => exact rest value

theorem quiet_settings (arguments : Arguments) :
    Quiet (Tool.settings (host run) arguments reader).run := by
  refine (quiet_hostSettings arguments.config).lift.andThen fun result => ?_
  cases result with
  | error fault => exact quiet_pure _
  | ok settings =>
    simp only
    split
    · exact quiet_pure _
    · exact (quiet_note _).lift.andThen fun _ => quiet_pure _

end Quiet

end Workspace
end ImportBlock
