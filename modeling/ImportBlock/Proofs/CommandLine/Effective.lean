import ImportBlock.Proofs.CommandLine.Settings
import ImportBlock.Proofs.Layout.Groups
import ImportBlock.Proofs.Settings.Standard
import ImportBlock.Proofs.Text.Utf8

/-! The settings that the files are aligned with, from the command line, the environment and the
settings file. -/

namespace ImportBlock

open Text

namespace Settings

theorem sound_of_validate {settings : Settings} (valid : settings.validate = .ok ()) :
    settings.importOrder.Perm Category.all ∧ 0 < settings.maxLineLength := by
  refine ⟨perm_of_validate valid, ?_⟩
  rw [validate] at valid
  split at valid
  · contradiction
  · split at valid
    · contradiction
    · next hlength => exact Nat.pos_of_ne_zero hlength

end Settings

namespace Tool

variable {m : Type → Type} [Monad m]

def runWith (host : Host m) (arguments : Arguments) (settings : Settings) : Step m Unit := do
  if arguments.files.isEmpty then
    match ← filesOfRepository host with
    | none => return
    | some files => runFiles host settings arguments files
  else runFiles host settings arguments (← classify host arguments.files)

/-- An order that lists each category once, and lines that can hold something. -/
def Sound (settings : Settings) : Prop :=
  settings.importOrder.Perm Category.all ∧ 0 < settings.maxLineLength

instance (settings : Settings) : Decidable (Sound settings) :=
  inferInstanceAs (Decidable (_ ∧ _))

theorem throw_bind [LawfulMonad m] (failure : Failure) (next : Settings → Step m Unit) :
    (throw failure : Step m Settings) >>= next = throw failure := by
  apply ExceptT.ext
  simp

/-- Nothing depends on what a run would do with other settings. -/
theorem run_eq [LawfulMonad m] (host : Host m) (arguments : Arguments)
    (reader : Reader) (elsewhere : Settings → Step m Unit) :
    run host arguments reader = settings host arguments reader >>= fun settings =>
      if Sound settings then runWith host arguments settings else elsewhere settings := by
  have hrun : run host arguments reader = settings host arguments reader >>=
      runWith host arguments := rfl
  rw [hrun, settings, bind_assoc, bind_assoc]
  refine bind_congr fun loaded => ?_
  cases loaded with
  | error fault => exact (throw_bind _ _).trans (throw_bind _ _).symm
  | ok loaded =>
    dsimp only
    cases hchecked : (arguments.override loaded).checked with
    | error fault => exact (throw_bind _ _).trans (throw_bind _ _).symm
    | ok settings =>
      obtain ⟨rfl, hvalid⟩ := Settings.checked_eq_ok_iff.mp hchecked
      have hsound : Sound (arguments.override loaded) := Settings.sound_of_validate hvalid
      dsimp only
      rw [bind_assoc, bind_assoc]
      refine bind_congr fun _ => ?_
      rw [pure_bind, pure_bind, if_pos hsound]

end Tool

namespace Workspace

variable {run : Command → StateM Workspace (Except SystemFault Finished)} {workspace : Workspace}
  {reader : Reader}

def settingsPaths (workspace : Workspace) : List String :=
  (Path.ancestors workspace.folderName).map (Path.join · Host.settingsName)

def Reads (reader : Reader) (workspace : Workspace) (path : String) (file : reader.Layer) : Prop :=
  ∃ bytes text, workspace.read path = .ok bytes ∧ Text.decode bytes = .ok text ∧
    reader.file? text = some file

/-- The values of the settings file that is named, or else of the nearest one if there is any. -/
inductive Stores (reader : Reader) (workspace : Workspace) :
    Option String → Option reader.Layer → Prop where
  | named {path : String} {file : reader.Layer} (isFile : workspace.isFile path = true)
      (reads : Reads reader workspace path file) : Stores reader workspace (some path) (some file)
  | nearest {path : String} {file : reader.Layer}
      (found : workspace.settingsPaths.find? workspace.isFile = some path)
      (reads : Reads reader workspace path file) : Stores reader workspace none (some file)
  | without (absent : ∀ path ∈ workspace.settingsPaths, workspace.isFile path = false) :
      Stores reader workspace none none

theorem run_findSettings? : (host run).findSettings?.run workspace =
    (workspace.settingsPaths.find? workspace.isFile, workspace) := by
  have hrun : ∀ folders : List String,
      (folders.findSomeM? fun folder => do
        let path := Path.join folder Host.settingsName
        return if ← (host run).isFile path then some path else none).run workspace =
        ((folders.map (Path.join · Host.settingsName)).find? workspace.isFile, workspace) := by
    intro folders
    induction folders with
    | nil => rfl
    | cons folder folders ih =>
      have hfolder : (do
          let path := Path.join folder Host.settingsName
          return if ← (host run).isFile path then some path else none : StateM Workspace _).run
            workspace = (if workspace.isFile (Path.join folder Host.settingsName) then
              some (Path.join folder Host.settingsName) else none, workspace) := rfl
      rw [List.findSomeM?, StateT.run_bind, hfolder, List.map_cons, List.find?_cons]
      cases workspace.isFile (Path.join folder Host.settingsName) with
      | true => rfl
      | false => exact ih
  exact hrun _

theorem run_readLayer {path : String} {file : reader.Layer}
    (reads : Reads reader workspace path file) :
    ((host run).readLayer path reader).run workspace = (.ok file, workspace) := by
  obtain ⟨bytes, text, hbytes, hdecode, hfile⟩ := reads
  have hread : ((host run).read path).run workspace = (.ok bytes, workspace) := by
    rw [← hbytes]
    rfl
  have htext : ((host run).readText path).run workspace = (.ok text, workspace) := by
    rw [Host.readText, StateT.run_bind, hread]
    change (pure ((Text.decode bytes).mapError fun _ => SystemFault.notUtf8, workspace) : Id _) = _
    rw [hdecode]
    rfl
  rw [Host.readLayer, StateT.run_bind, htext]
  dsimp only [bind, pure]
  rw [hfile]
  rfl

theorem run_settingsFrom {path : String} {file : reader.Layer}
    (reads : Reads reader workspace path file) :
    ((host run).settingsFrom path reader).run workspace =
      (reader.extract (reader.together workspace.environment (some file)), workspace) := by
  rw [Host.settingsFrom, StateT.run_bind, run_readLayer reads]
  rfl

/-- The settings before the command line has its say. -/
def loaded (reader : Reader) (run : Command → StateM Workspace (Except SystemFault Finished))
    (workspace : Workspace) (arguments : Arguments) : Except SettingsFault Settings :=
  (((host run).settings arguments.config reader).run workspace).1

/-- The settings of a run. -/
def effective (reader : Reader) (run : Command → StateM Workspace (Except SystemFault Finished))
    (workspace : Workspace) (arguments : Arguments) : Except Failure Settings :=
  ((Tool.settings (host run) arguments reader).run.run workspace).1

theorem loaded_eq {arguments : Arguments} {file : Option reader.Layer}
    (stores : Stores reader workspace arguments.config file) :
    loaded reader run workspace arguments =
      reader.extract (reader.together workspace.environment file) := by
  rw [loaded]
  generalize arguments.config = named at stores
  cases stores with
  | @named path file isFile reads =>
    have hfile : ((host run).isFile path).run workspace = (true, workspace) := by
      rw [← isFile]
      rfl
    rw [Host.settings, StateT.run_bind, hfile]
    exact congrArg Prod.fst (run_settingsFrom reads)
  | @nearest path file found reads =>
    let noted : Workspace :=
      { workspace with notes := workspace.notes ++ [⟨.debug, s!"Using settings from {path}"⟩] }
    have hreads : Reads reader noted path file := reads
    rw [Host.settings, StateT.run_bind, run_findSettings?, found]
    exact congrArg Prod.fst (run_settingsFrom hreads)
  | without absent =>
    have hnone : workspace.settingsPaths.find? workspace.isFile = none :=
      List.find?_eq_none.mpr fun path member => by simp [absent path member]
    rw [Host.settings, StateT.run_bind, run_findSettings?, hnone]
    rfl

theorem run_liftM_bind {α β : Type} (action : StateM Workspace α)
    (next : α → Tool.Step (StateM Workspace) β) :
    ((liftM action : Tool.Step (StateM Workspace) α) >>= next).run.run workspace =
      (next (action.run workspace).1).run.run (action.run workspace).2 := rfl

theorem effective_eq (arguments : Arguments) : effective reader run workspace arguments =
    match loaded reader run workspace arguments with
    | .error fault => .error (.settings fault)
    | .ok lower => (arguments.override lower).checked.mapError .settings := by
  rw [effective, loaded, Tool.settings, run_liftM_bind]
  rcases ((host run).settings arguments.config reader).run workspace with ⟨fault | lower, after⟩
  · rfl
  · dsimp only
    cases (arguments.override lower).checked <;> rfl

theorem effective_eq_ok_iff {arguments : Arguments} {settings : Settings} :
    effective reader run workspace arguments = .ok settings ↔
      ∃ lower, loaded reader run workspace arguments = .ok lower ∧
        arguments.override lower = settings ∧ settings.validate = .ok () := by
  rw [effective_eq]
  cases loaded reader run workspace arguments with
  | error fault => simp
  | ok lower =>
    have hchecked : (arguments.override lower).checked.mapError Failure.settings = .ok settings ↔
        (arguments.override lower).checked = .ok settings := by
      cases (arguments.override lower).checked <;> simp [Except.mapError]
    dsimp only
    rw [hchecked, Settings.checked_eq_ok_iff]
    constructor
    · rintro ⟨rfl, hvalid⟩
      exact ⟨lower, rfl, rfl, hvalid⟩
    · rintro ⟨_, ⟨rfl⟩, rfl, hvalid⟩
      exact ⟨rfl, hvalid⟩

theorem effective_eq_ok_iff_fields {arguments : Arguments} {settings : Settings} :
    effective reader run workspace arguments = .ok settings ↔
      ∃ lower, loaded reader run workspace arguments = .ok lower ∧ settings.validate = .ok () ∧
        ∀ setting ∈ Setting.all, setting.field settings =
          (setting.said arguments).getD (setting.field lower) := by
  rw [effective_eq_ok_iff]
  refine exists_congr fun lower => and_congr_right fun _ => ?_
  rw [and_comm]
  refine and_congr_right fun _ => ⟨?_, fun hfields => ?_⟩
  · rintro rfl
    exact arguments.field_override lower
  · refine Setting.eq_of_fields fun setting member => ?_
    rw [arguments.field_override lower setting member, hfields setting member]

/-- How the settings of a run come about, each by itself. -/
structure Layered (reader : Reader)
    (run : Command → StateM Workspace (Except SystemFault Finished)) (workspace : Workspace)
    (arguments : Arguments) (file : Option reader.Layer) (winner : Text → Option reader.Value) :
    Prop where
  wins : ∀ setting ∈ Setting.all, Environment.Plain workspace.environment setting.key →
    ∀ found, reader.Wins workspace.environment file setting.key found ↔ found = winner setting.key
  /-- A wrong value does harm only if it wins, but then even if the command line hides it. -/
  fails : (∃ fault, loaded reader run workspace arguments = .error fault) ↔
    (∃ setting ∈ Setting.all, setting.settled reader (winner setting.key) = none) ∨
      ∃ settings, Setting.Reflects reader winner settings ∧ settings.validate ≠ .ok ()
  loads : ∀ settings, loaded reader run workspace arguments = .ok settings ↔
    Setting.Reflects reader winner settings ∧ settings.validate = .ok ()
  yields : ∀ settings, effective reader run workspace arguments = .ok settings ↔
    ∃ lower, loaded reader run workspace arguments = .ok lower ∧ settings.validate = .ok () ∧
      ∀ setting ∈ Setting.all, setting.field settings =
        (setting.said arguments).getD (setting.field lower)
  settles : ∀ settings, effective reader run workspace arguments = .ok settings →
    ∀ setting ∈ Setting.all,
      (setting.said arguments).or (setting.settled reader (winner setting.key)) =
        some (setting.field settings)
  /-- What would be done with settings that are not sound makes no difference. -/
  sound : ∀ elsewhere : Settings → Tool.Step (StateM Workspace) Unit,
    Tool.run (host run) arguments reader =
      Tool.settings (host run) arguments reader >>= fun settings =>
        if Tool.Sound settings then Tool.runWith (host run) arguments settings
        else elsewhere settings

/-- Whatever the settings file, the environment and the command line say, each setting is the one of
the strongest among them, and only valid settings are used. -/
theorem settings_layered (lawful : reader.Lawful) (arguments : Arguments)
    {file : Option reader.Layer} (stores : Stores reader workspace arguments.config file)
    (apart : Environment.Apart workspace.environment) :
    Layered reader run workspace arguments file (reader.winner workspace.environment file) := by
  have hloads : ∀ settings, loaded reader run workspace arguments = .ok settings ↔
      Setting.Reflects reader (reader.winner workspace.environment file) settings ∧
        settings.validate = .ok () :=
    fun settings => loaded_eq stores ▸ lawful.extract_together_eq_ok_iff
  constructor
  case wins => exact fun setting member plain found => lawful.wins_iff apart member plain
  case fails => exact loaded_eq stores ▸ lawful.extract_together_eq_error_iff
  case loads => exact hloads
  case yields => exact fun settings => effective_eq_ok_iff_fields
  case settles =>
    intro settings heffective setting member
    obtain ⟨lower, hlower, -, hfields⟩ := effective_eq_ok_iff_fields.mp heffective
    rw [((hloads lower).mp hlower).1 setting member, hfields setting member]
    cases setting.said arguments <;> rfl
  case sound => exact Tool.run_eq (host run) arguments reader

def cascadeText : Text := "max_line_length = \"wide\"\nsort_by = \"length-asc\"\n".toList

def cascadeLayer : Layer :=
  [("max_line_length".toList, .text "wide".toList), ("sort_by".toList, .text "length-asc".toList)]

/-- A settings file in the folder around the current one. A variable hides the wrong value in it. -/
def cascade : Workspace where
  tree := ⟨[(["src".toList], .folder),
    ([Host.settingsName.toList], .file (Text.encode cascadeText))]⟩
  folder := ["src".toList]
  environment := [("HOME", "/"), ("Align_Imports_MAX_LINE_LENGTH", " 100")]

theorem settings_layered_cascade :
    let run : Command → StateM Workspace (Except SystemFault Finished) :=
      fun _ => return .error .notFound
    let arguments : Arguments := { noWrap := true, sortBy := some .lengthDescending }
    let file : Option Reader.standard.Layer := some cascadeLayer
    let wins := fun (name : String) (found : Option Value) =>
      Reader.standard.Wins cascade.environment file name.toList found
    (Reader.standard.Lawful ∧ Stores .standard cascade arguments.config file ∧
      Environment.Apart cascade.environment) ∧
    Layered .standard run cascade arguments file
      (Reader.standard.winner cascade.environment file) ∧
    wins "max_line_length" (some (.integer 100)) ∧
    wins "sort_by" (some (.text "length-asc".toList)) ∧ wins "remove_unused" none ∧
    loaded .standard run cascade arguments =
      .ok { maxLineLength := 100, sortBy := .lengthAscending } ∧
    effective .standard run cascade arguments = .ok
      { maxLineLength := 100, sortBy := .lengthDescending, wrapMultilineImports := false } := by
  intro run arguments file wins
  have hfile : Toml.read? cascadeText = some cascadeLayer := by rfl
  have hfound : cascade.settingsPaths.find? cascade.isFile = some "/.align-imports.toml" := by
    decide +kernel
  have hbytes : cascade.read "/.align-imports.toml" = .ok (Text.encode cascadeText) := by
    decide +kernel
  have hstores : Stores .standard cascade arguments.config file :=
    .nearest hfound ⟨_, cascadeText, hbytes, Text.decode_encode _, hfile⟩
  have hapart : Environment.Apart cascade.environment := by
    simp only [Environment.Apart, cascade]
    decide +kernel
  have hlayered : Layered .standard run cascade arguments file
      (Reader.standard.winner cascade.environment file) :=
    settings_layered Reader.standard_lawful arguments hstores hapart
  have hlength : wins "max_line_length" (some (.integer 100)) := by
    have hread : Reader.standard.value " 100".toList = Value.integer 100 := by rfl
    have hgiven : ("Align_Imports_MAX_LINE_LENGTH", " 100") ∈ cascade.environment := by decide
    exact hread ▸ .environment hgiven (by decide)
  have hsort : wins "sort_by" (some (.text "length-asc".toList)) := .file (by decide) rfl
  have hunused : wins "remove_unused" none := .default (by decide) rfl
  have hloaded : loaded .standard run cascade arguments =
      .ok { maxLineLength := 100, sortBy := .lengthAscending } := by
    refine (hlayered.loads _).mpr ⟨?_, rfl⟩
    simp only [Setting.Reflects, Setting.all, List.forall_mem_cons]
    refine ⟨rfl, rfl, rfl, rfl, ?_, rfl, rfl, rfl, rfl, rfl, List.forall_mem_nil _⟩
    decide +kernel
  refine ⟨⟨Reader.standard_lawful, hstores, hapart⟩, hlayered, hlength, hsort, hunused, hloaded,
    ?_⟩
  refine (hlayered.yields _).mpr ⟨_, hloaded, rfl, ?_⟩
  simp only [Setting.all, List.forall_mem_cons]
  exact ⟨rfl, rfl, rfl, rfl, rfl, rfl, rfl, rfl, rfl, rfl, List.forall_mem_nil _⟩

end Workspace
end ImportBlock
