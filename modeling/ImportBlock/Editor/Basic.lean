import ImportBlock.Aligner.Basic

/-! An editor whose documents fire events back at the aligner that changes them. -/

namespace ImportBlock

/-- Calls the hook on the document with that number. -/
structure Trigger where
  hook : Hook
  target : Nat
  deriving DecidableEq, Repr

/-- How often the text can still be had may be bounded by `readsLeft`. -/
structure Buffer where
  id : String
  text : Text
  readsLeft : Option Nat := none
  replaceError : Option String := none
  saveError : Option String := none
  onReplace : List Trigger := []
  onSave : List Trigger := []
  saves : Nat := 0
  deriving DecidableEq, Repr

/-- A nested call ends with an outcome or fails. -/
inductive Event where
  | read (id : String)
  | provider (id : String)
  | replace (id : String) (start stop : Nat) (text : Text)
  | save (id : String)
  | nested (hook : Hook) (id : String) (outcome : Option Outcome)
  deriving DecidableEq, Repr

structure Editor where
  buffers : List Buffer
  events : List Event
  deriving DecidableEq, Repr

namespace Editor

def log (event : Event) (editor : Editor) : Editor :=
  { editor with events := editor.events ++ [event] }

def update (index : Nat) (change : Buffer → Buffer) (editor : Editor) : Editor :=
  { editor with buffers := editor.buffers.modify index change }

def buffer (editor : Editor) (index : Nat) : Buffer :=
  editor.buffers[index]?.getD { id := "", text := [] }

abbrev Step := Action (StateM Editor)

def readText (index : Nat) : Step Text := do
  let buffer := (← getThe Editor).buffer index
  modifyThe Editor (log (.read buffer.id))
  match buffer.readsLeft with
  | some 0 => throw (.document "closed")
  | some (left + 1) => modifyThe Editor (update index ({ · with readsLeft := some left }))
  | none => pure ()
  return buffer.text

def pull (call : Hook → Nat → Step Outcome) (trigger : Trigger) : Step Unit := do
  let id := ((← getThe Editor).buffer trigger.target).id
  let result ← ExceptT.lift (call trigger.hook trigger.target).run
  modifyThe Editor (log (.nested trigger.hook id result.toOption))
  match result with
  | .ok _ => return
  | .error failure => throw failure

def fire (call : Hook → Nat → Step Outcome) : List Trigger → Step Unit
  | [] => return
  | trigger :: rest => do
    pull call trigger
    fire call rest

def replaceText (call : Hook → Nat → Step Outcome) (index start stop : Nat) (text : Text) :
    Step Unit := do
  let buffer := (← getThe Editor).buffer index
  modifyThe Editor (log (.replace buffer.id start stop text))
  match buffer.replaceError with
  | some message => throw (.document message)
  | none =>
    match Text.replaceRange? start stop text buffer.text with
    | none => throw (.invalidRange start stop buffer.id)
    | some text =>
      modifyThe Editor (update index ({ · with text := text }))
      fire call buffer.onReplace

def saveText (call : Hook → Nat → Step Outcome) (index : Nat) : Step Unit := do
  let buffer := (← getThe Editor).buffer index
  modifyThe Editor (log (.save buffer.id))
  match buffer.saveError with
  | some message => throw (.document message)
  | none =>
    modifyThe Editor (update index fun buffer => { buffer with saves := buffer.saves + 1 })
    fire call buffer.onSave

def openBuffer (call : Hook → Nat → Step Outcome) (ids : List String) (index : Nat) :
    Document (StateM Editor) :=
  let id := ids[index]?.getD ""
  { id
    language := Language.ofPath? id
    text := readText index
    replaceRange := replaceText call index
    save := saveText call index }

/-- A hook on a buffer. Triggers nest at most `depth` calls. -/
def call (aligner : Aligner (StateM Editor)) (ids : List String) :
    Nat → Hook → Nat → Step Outcome
  | 0, _, _ => throw .tooDeeplyNested
  | depth + 1, hook, index =>
    aligner.call (openBuffer (call aligner ids depth) ids index) hook

/-- Where unused symbols come from. Each call first gives the listed documents another text. -/
structure Source where
  edits : List (String × Text)
  answer : Except ProviderFault (List Text)

def applyEdit (editor : Editor) (edit : String × Text) : Editor :=
  match editor.buffers.findIdx? (·.id == edit.1) with
  | some index => editor.update index ({ · with text := edit.2 })
  | none => editor

def Source.fetch (source : Source) (id : String) :
    StateM Editor (Except ProviderFault (List Text)) := do
  modify fun editor => source.edits.foldl applyEdit (editor.log (.provider id))
  return source.answer

def aligner (settings : Settings) (source : Option Source) : Aligner (StateM Editor) :=
  { settings, provider := source.map Source.fetch, note := fun _ => pure () }

end Editor
end ImportBlock
