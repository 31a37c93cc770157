import ImportBlock.Editor.Basic
import ImportBlock.Proofs.Session.Course

namespace ImportBlock.Editor

open Recorded

def hooks (editor : Editor) : List (List Trigger × List Trigger) :=
  editor.buffers.map fun buffer => (buffer.onReplace, buffer.onSave)

def run {α : Type} (step : Step α) (inFlight : InFlight) (editor : Editor) :
    (Except Failure α × InFlight) × Editor := (step.run.run inFlight).run editor

def fireAll : List Trigger → Script Editor Nat
  | [] => .done
  | trigger :: rest => .act id fun editor =>
    .fire trigger.hook trigger.target fun result =>
      .act (log (.nested trigger.hook (editor.buffer trigger.target).id result.toOption)) fun _ =>
        match result with
        | .ok _ => fireAll rest
        | .error failure => .fail failure

def replaceScript (index : Nat) (onReplace : List Trigger) (start stop : Nat) (text : Text) :
    Script Editor Nat :=
  .act id fun editor =>
    let buffer := editor.buffer index
    .act (log (.replace buffer.id start stop text)) fun _ =>
      match buffer.replaceError with
      | some message => .fail (.document message)
      | none =>
        match Text.replaceRange? start stop text buffer.text with
        | none => .fail (.invalidRange start stop buffer.id)
        | some text => .act (update index ({ · with text := text })) fun _ => fireAll onReplace

def saveScript (index : Nat) (onSave : List Trigger) : Script Editor Nat :=
  .act id fun editor =>
    let buffer := editor.buffer index
    .act (log (.save buffer.id)) fun _ =>
      match buffer.saveError with
      | some message => .fail (.document message)
      | none =>
        .act (update index fun buffer => { buffer with saves := buffer.saves + 1 }) fun _ =>
          fireAll onSave

def scripted (buffers : List Buffer) (index : Nat) : ScriptedDocument Editor Nat :=
  let buffer := buffer ⟨buffers, []⟩ index
  { id := buffer.id
    language := Language.ofPath? buffer.id
    read := fun editor =>
      let ended := run (readText index) .none editor
      (ended.1.1, ended.2)
    replace := replaceScript index buffer.onReplace
    save := saveScript index buffer.onSave }

def session (settings : Settings) (source : Option Source) (buffers : List Buffer) :
    Session Editor Nat where
  document := scripted buffers
  settings := settings
  provider := source.map fun source id editor => (source.fetch id).run editor

section Run

variable {α β : Type} (inFlight : InFlight) (editor : Editor)

theorem run_bind (step : Step α) (next : α → Step β) :
    run (step >>= next) inFlight editor =
      match (run step inFlight editor).1.1 with
      | .ok value => run (next value) (run step inFlight editor).1.2 (run step inFlight editor).2
      | .error failure =>
        ((.error failure, (run step inFlight editor).1.2), (run step inFlight editor).2) := by
  change run (ExceptT.mk (step.run >>= ExceptT.bindCont next)) inFlight editor = _
  change (((ExceptT.bindCont next (run step inFlight editor).1.1).run
    (run step inFlight editor).1.2).run (run step inFlight editor).2) = _
  cases (run step inFlight editor).1.1 <;> rfl

theorem run_get (next : Editor → Step α) :
    run (getThe Editor >>= next) inFlight editor = run (next editor) inFlight editor := rfl

theorem run_modify (change : Editor → Editor) (next : PUnit → Step α) :
    run (modifyThe Editor change >>= next) inFlight editor =
      run (next ()) inFlight (change editor) := rfl

theorem run_lift (step : Step β) (next : Except Failure β → Step α) :
    run (ExceptT.lift step.run >>= next) inFlight editor =
      run (next (run step inFlight editor).1.1) (run step inFlight editor).1.2
        (run step inFlight editor).2 := rfl

theorem run_failingAs (step : Step α) (wrap : Failure → Failure) :
    run (step.failingAs wrap) inFlight editor =
      (((run step inFlight editor).1.1.mapError wrap, (run step inFlight editor).1.2),
        (run step inFlight editor).2) := by
  change ((fun ended => run (match ended.1.1 with
    | .ok value => ExceptT.mk (pure (.ok value))
    | .error failure => ExceptT.mk (pure (.error (wrap failure)))) ended.1.2 ended.2)
      (run step inFlight editor)) = _
  rcases run step inFlight editor with ⟨⟨failure | value, entered⟩, kept⟩ <;> rfl

theorem run_readText (buffers : List Buffer) (index : Nat) :
    run (readText index) inFlight editor =
      ((((scripted buffers index).read editor).1, inFlight),
        ((scripted buffers index).read editor).2) := by
  simp only [scripted, readText, run_get, run_modify]
  split <;> rfl

theorem hooks_update {change : Buffer → Buffer} (index : Nat)
    (keeps : ∀ buffer, (change buffer).onReplace = buffer.onReplace ∧
      (change buffer).onSave = buffer.onSave) :
    (editor.update index change).hooks = editor.hooks := by
  rw [hooks, update, hooks]
  induction editor.buffers generalizing index with
  | nil => simp
  | cons buffer buffers ih =>
    cases index with
    | zero => simp [keeps]
    | succ index => simpa using ih index

theorem hooks_log (event : Event) : (editor.log event).hooks = editor.hooks := rfl

theorem hooks_readText (buffers : List Buffer) (index : Nat) :
    ((scripted buffers index).read editor).2.hooks = editor.hooks := by
  simp only [scripted, readText, run_get, run_modify]
  split
  · rfl
  · exact hooks_update _ _ fun _ => ⟨rfl, rfl⟩
  · rfl

end Run

/-- The calls end in the editor as they are recorded. -/
def Follows (buffers : List Buffer) (follow : Follow Editor Nat)
    (call : Hook → Nat → Step Outcome) : Prop :=
  ∀ ⦃hook target moment recorded⦄, moment.world.hooks = hooks ⟨buffers, []⟩ →
    follow hook target moment = some recorded →
      run (call hook target) moment.inFlight moment.world =
          ((recorded.result, recorded.left.inFlight), recorded.left.world) ∧
        recorded.left.world.hooks = hooks ⟨buffers, []⟩

/-- The step does what the script tells, if that ends. -/
def Plays (buffers : List Buffer) (follow : Follow Editor Nat) (script : Script Editor Nat)
    (step : Step Unit) : Prop :=
  ∀ moment played, moment.world.hooks = hooks ⟨buffers, []⟩ →
    script.play follow moment = some played →
      run step moment.inFlight moment.world =
          ((played.result, played.left.inFlight), played.left.world) ∧
        played.left.world.hooks = hooks ⟨buffers, []⟩

section Plays

variable {buffers : List Buffer} {follow : Follow Editor Nat} {call : Hook → Nat → Step Outcome}

theorem plays_fireAll (follows : Follows buffers follow call) (triggers : List Trigger) :
    Plays buffers follow (fireAll triggers) (fire call triggers) := by
  induction triggers with
  | nil =>
    intro moment played same h
    cases h
    exact ⟨rfl, same⟩
  | cons trigger rest ih =>
    intro moment played same h
    rw [fireAll, Script.play] at h
    obtain ⟨recorded, later, hcall, hlater, rfl⟩ := Script.play_fire_eq_some.mp h
    obtain ⟨hrun, hhooks⟩ := follows same hcall
    simp only [fire, pull, bind_assoc, run_get, run_lift, run_modify, hrun]
    cases hresult : recorded.result with
    | ok outcome =>
      simp only [hresult, Script.play] at hlater
      refine ih _ _ ?_ hlater
      exact (hooks_log _ _).trans hhooks
    | error failure =>
      simp only [hresult, Script.play] at hlater
      cases hlater
      exact ⟨rfl, hhooks⟩

theorem hooks_buffer {editor : Editor} (same : editor.hooks = hooks ⟨buffers, []⟩) (index : Nat) :
    (editor.buffer index).onReplace = (buffer ⟨buffers, []⟩ index).onReplace ∧
      (editor.buffer index).onSave = (buffer ⟨buffers, []⟩ index).onSave := by
  have hget := congrArg (·[index]?) same
  simp only [hooks, List.getElem?_map] at hget
  simp only [buffer]
  cases hleft : editor.buffers[index]? <;> cases hright : buffers[index]? <;>
    simp_all

theorem plays_replaceText (follows : Follows buffers follow call) (index start stop : Nat)
    (text : Text) : Plays buffers follow ((scripted buffers index).replace start stop text)
      (replaceText call index start stop text) := by
  intro moment played same h
  simp only [scripted, replaceScript, Script.play, id_eq] at h
  simp only [replaceText, run_get, run_modify, (hooks_buffer same index).1]
  cases hfault : (moment.world.buffer index).replaceError with
  | some message =>
    rw [hfault] at h
    cases h
    exact ⟨rfl, same⟩
  | none =>
    rw [hfault] at h
    cases hreplaced : Text.replaceRange? start stop text (moment.world.buffer index).text with
    | none =>
      simp only [hreplaced] at h
      cases h
      exact ⟨rfl, same⟩
    | some text =>
      simp only [hreplaced, Script.play] at h
      refine plays_fireAll follows _ _ _ ((hooks_update _ index ?_).trans same) h
      exact fun _ => ⟨rfl, rfl⟩

theorem plays_saveText (follows : Follows buffers follow call) (index : Nat) :
    Plays buffers follow (scripted buffers index).save (saveText call index) := by
  intro moment played same h
  simp only [scripted, saveScript, Script.play, id_eq] at h
  simp only [saveText, run_get, run_modify, (hooks_buffer same index).2]
  cases hfault : (moment.world.buffer index).saveError with
  | some message =>
    rw [hfault] at h
    cases h
    exact ⟨rfl, same⟩
  | none =>
    rw [hfault, Script.play] at h
    refine plays_fireAll follows _ _ _ ((hooks_update _ index ?_).trans same) h
    exact fun _ => ⟨rfl, rfl⟩

end Plays

/-- The step does what the recorded action does, if that ends. -/
def Mirrors {α : Type} (buffers : List Buffer) (recorded : Action (Recorded Editor Nat) α)
    (step : Step α) : Prop :=
  ∀ ⦃inFlight recording ended⦄, recording.world.hooks = hooks ⟨buffers, []⟩ →
    perform recorded inFlight recording = some ended →
    run step inFlight recording.world = (ended.1, ended.2.world) ∧
      ended.2.world.hooks = hooks ⟨buffers, []⟩

section Mirrors

variable {α β : Type} {buffers : List Buffer} {settings : Settings} {source : Option Source}
  {follow : Follow Editor Nat} {call : Hook → Nat → Step Outcome}

theorem mirrors_pure (value : α) : Mirrors buffers (pure value) (pure value) := by
  intro inFlight recording ended same h
  cases h
  exact ⟨rfl, same⟩

theorem mirrors_note (note : Note) :
    Mirrors buffers (liftM ((session settings source buffers).aligner.note note))
      (liftM ((aligner settings source).note note)) := by
  intro inFlight recording ended same h
  cases h
  exact ⟨rfl, same⟩

theorem Mirrors.bind {recorded : Action (Recorded Editor Nat) α} {step : Step α}
    {later : α → Action (Recorded Editor Nat) β} {next : α → Step β}
    (first : Mirrors buffers recorded step)
    (rest : ∀ value, Mirrors buffers (later value) (next value)) :
    Mirrors buffers (recorded >>= later) (step >>= next) := by
  intro inFlight recording ended same h
  rw [perform_bind, Option.bind_eq_some_iff] at h
  obtain ⟨⟨⟨result, entered⟩, kept⟩, hfirst, h⟩ := h
  obtain ⟨hrun, same⟩ := first same hfirst
  rw [run_bind, hrun]
  cases result with
  | error failure =>
    cases h
    exact ⟨rfl, same⟩
  | ok value => exact rest value same h

theorem Mirrors.failingAs {recorded : Action (Recorded Editor Nat) α} {step : Step α}
    (wrap : Failure → Failure) (mirrors : Mirrors buffers recorded step) :
    Mirrors buffers (recorded.failingAs wrap) (step.failingAs wrap) := by
  intro inFlight recording ended same h
  rw [perform_failingAs, Option.map_eq_some_iff] at h
  obtain ⟨⟨⟨result, entered⟩, kept⟩, hrecorded, rfl⟩ := h
  obtain ⟨hrun, same⟩ := mirrors same hrecorded
  rw [run_failingAs, hrun]
  exact ⟨rfl, same⟩

theorem hooks_applyEdit (editor : Editor) (edit : String × Text) :
    (editor.applyEdit edit).hooks = editor.hooks := by
  rw [applyEdit]
  split
  · exact hooks_update editor _ fun _ => ⟨rfl, rfl⟩
  · rfl

theorem hooks_foldl_applyEdit (edits : List (String × Text)) (editor : Editor) :
    (edits.foldl applyEdit editor).hooks = editor.hooks := by
  induction edits generalizing editor with
  | nil => rfl
  | cons edit edits ih => rw [List.foldl_cons, ih, hooks_applyEdit]

theorem mirrors_unusedSymbols (id : String) :
    Mirrors buffers (liftM ((session settings source buffers).aligner.unusedSymbols id))
      (liftM ((aligner settings source).unusedSymbols id)) := by
  intro inFlight recording ended same h
  rw [perform_lift] at h
  cases source with
  | none =>
    cases h
    exact ⟨rfl, same⟩
  | some source =>
    have hhooks := (hooks_foldl_applyEdit source.edits _).trans
      ((hooks_log recording.world (.provider id)).trans same)
    rcases source with ⟨edits, symbols | fault⟩ <;>
    · cases h
      exact ⟨rfl, hhooks⟩

structure Mirrored (buffers : List Buffer) (recorded : Document (Recorded Editor Nat))
    (opened : Document (StateM Editor)) : Prop where
  id : recorded.id = opened.id
  language : recorded.language = opened.language
  text : Mirrors buffers recorded.text opened.text
  replaceRange : ∀ start stop text,
    Mirrors buffers (recorded.replaceRange start stop text) (opened.replaceRange start stop text)
  save : Mirrors buffers recorded.save opened.save

section Document

variable {recorded : Document (Recorded Editor Nat)} {opened : Document (StateM Editor)}

theorem Mirrored.fetchUnused (same : Mirrored buffers recorded opened) (text : Text) :
    Mirrors buffers ((session settings source buffers).aligner.fetchUnused recorded text)
      ((aligner settings source).fetchUnused opened text) := by
  have hrecorded : (session settings source buffers).aligner.settings.removeUnused =
    settings.removeUnused := rfl
  have hopened : (aligner settings source).settings.removeUnused = settings.removeUnused := rfl
  simp only [Aligner.fetchUnused, hrecorded, hopened, same.id]
  split
  · refine .bind (mirrors_unusedSymbols opened.id) fun symbols => .bind same.text fun now => ?_
    split
    · exact mirrors_pure _
    · exact .bind (mirrors_note _) fun _ => mirrors_pure _
  · exact mirrors_pure _

theorem Mirrored.edit (same : Mirrored buffers recorded opened) (region : Region)
    (unused : List Text) :
    Mirrors buffers ((session settings source buffers).aligner.edit recorded region unused)
      ((aligner settings source).edit opened region unused) := by
  have hnotes : ∀ notes : List Note, Mirrors buffers
      (notes.forM fun note => liftM ((session settings source buffers).aligner.note note))
      (notes.forM fun note => liftM ((aligner settings source).note note)) := by
    intro notes
    induction notes with
    | nil => exact mirrors_pure _
    | cons note notes ih => exact .bind (mirrors_note note) fun _ => ih
  refine .bind (hnotes _) fun _ => ?_
  have hrecorded : (session settings source buffers).aligner.settings = settings := rfl
  have hopened : (aligner settings source).settings = settings := rfl
  simp only [hrecorded, hopened]
  split
  · exact mirrors_pure _
  · exact .bind (same.replaceRange _ _ _) fun _ => mirrors_pure _

theorem Mirrored.align (same : Mirrored buffers recorded opened) :
    Mirrors buffers ((session settings source buffers).aligner.align recorded)
      ((aligner settings source).align opened) := by
  simp only [Aligner.align, same.id]
  refine .bind (same.text.failingAs _) fun text => ?_
  split
  · exact .bind (mirrors_note _) fun _ => mirrors_pure _
  · refine .bind (same.fetchUnused text) fun unused => ?_
    split
    · exact mirrors_pure _
    · exact same.edit _ _

theorem Mirrored.alignAndSave (same : Mirrored buffers recorded opened) :
    Mirrors buffers ((session settings source buffers).aligner.alignAndSave recorded)
      ((aligner settings source).alignAndSave opened) := by
  refine .bind same.align fun outcome => ?_
  split
  · exact .bind same.save fun _ => mirrors_pure _
  · exact mirrors_pure _

theorem Mirrored.guarded (same : Mirrored buffers recorded opened)
    {action : Action (Recorded Editor Nat) Outcome} {step : Step Outcome}
    (mirrors : Mirrors buffers action step) :
    Mirrors buffers ((session settings source buffers).aligner.guarded recorded action)
      ((aligner settings source).guarded opened step) := by
  simp only [Aligner.guarded, same.id, same.language]
  split
  · exact .bind (mirrors_note _) fun _ => mirrors_pure _
  intro inFlight recording ended hhooks h
  simp only [perform, ExceptT.run_mk, StateT.run] at h
  simp only [run, ExceptT.run_mk, StateT.run]
  cases hfree : inFlight.acquire? opened.id with
  | none =>
    rw [hfree] at h
    cases h
    exact ⟨rfl, hhooks⟩
  | some entered =>
    rw [hfree] at h
    obtain ⟨⟨⟨result, left⟩, kept⟩, hended, h⟩ := Option.bind_eq_some_iff.mp h
    cases h
    obtain ⟨hrun, hkept⟩ := mirrors hhooks hended
    refine ⟨?_, hkept⟩
    change ((fun ended => (((ended.1.1, ended.1.2.release opened.id), ended.2) :
      (Except Failure Outcome × InFlight) × Editor)) (run step entered recording.world)) = _
    rw [hrun]

theorem Mirrored.hook (same : Mirrored buffers recorded opened) (hook : Hook) :
    Mirrors buffers ((session settings source buffers).aligner.call recorded hook)
      ((aligner settings source).call opened hook) := by
  cases hook with
  | align => exact same.align
  | willSave => exact same.guarded same.align
  | didSave => exact same.guarded same.alignAndSave

end Document

theorem mirrored_openBuffer (follows : Follows buffers follow call) (index : Nat) :
    Mirrored buffers ((session settings source buffers).openDocument follow index)
      (openBuffer call (buffers.map Buffer.id) index) := by
  have hid : (buffer ⟨buffers, []⟩ index).id = (buffers.map Buffer.id)[index]?.getD "" := by
    rw [List.getElem?_map, buffer]
    cases buffers[index]? <;> rfl
  refine ⟨hid, congrArg Language.ofPath? hid, ?_, fun start stop text => ?_, ?_⟩
  · intro inFlight recording ended same h
    rw [Session.perform_text rfl] at h
    cases h
    exact ⟨run_readText inFlight recording.world buffers index,
      (hooks_readText recording.world buffers index).trans same⟩
  · intro inFlight recording ended same h
    simp only [Session.openDocument, perform_enact, Option.map_eq_some_iff] at h
    obtain ⟨played, hplayed, rfl⟩ := h
    exact plays_replaceText follows index start stop text ⟨inFlight, recording.world⟩ played same
      hplayed
  · intro inFlight recording ended same h
    simp only [Session.openDocument, perform_enact, Option.map_eq_some_iff] at h
    obtain ⟨played, hplayed, rfl⟩ := h
    exact plays_saveText follows index ⟨inFlight, recording.world⟩ played same hplayed

/-- A call that comes to an end in the session ends so in the editor. -/
theorem follows_record (depth : Nat) :
    Follows buffers ((session settings source buffers).record depth)
      (Editor.call (aligner settings source) (buffers.map Buffer.id) depth) := by
  induction depth with
  | zero =>
    intro hook target moment recorded same h
    cases h
  | succ depth ih =>
    intro hook target moment recorded same h
    obtain ⟨result, left, deeds, ended, rfl⟩ := Session.attempt_eq_some.mp h
    exact (mirrored_openBuffer ih target).hook hook same ended

end Mirrors

end ImportBlock.Editor
