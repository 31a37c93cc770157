import ImportBlock.Host.Basic

/-! Documents that are files. Changes wait until they are saved. -/

namespace ImportBlock

structure Unsaved where
  text : Option Text
  deriving DecidableEq, Repr

namespace FileDocument

variable {m : Type → Type} [Monad m]

abbrev Step (m : Type → Type) := Action (StateT Unsaved m)

def text (host : Host m) (path : String) : Step m Text := do
  match (← getThe Unsaved).text with
  | some text => return text
  | none =>
    match ← host.readText path with
    | .ok text => return text
    | .error fault => throw (.unreadableFile path fault)

def replaceRange (host : Host m) (path : String) (start stop : Nat) (new : Text) :
    Step m Unit := do
  let old ← text host path
  match Text.replaceRange? start stop new old with
  | some text => modifyThe Unsaved fun _ => ⟨some text⟩
  | none => throw (.invalidRange start stop path)

/-- The waiting text is given up even where it cannot be written. A trial run writes nothing and
keeps it. -/
def save (host : Host m) (path : String) (trial : Bool) : Step m Unit := do
  if trial then return
  match (← getThe Unsaved).text with
  | none => return
  | some text =>
    modifyThe Unsaved fun _ => ⟨none⟩
    match ← host.write path text.encode with
    | .ok () => return
    | .error fault => throw (.unwritableFile path fault)

end FileDocument

def fileDocument {m : Type → Type} [Monad m] (host : Host m) (path : String) (trial : Bool) :
    Document (StateT Unsaved m) where
  id := path
  language := Language.ofPath? path
  text := FileDocument.text host path
  replaceRange := FileDocument.replaceRange host path
  save := FileDocument.save host path trial

end ImportBlock
