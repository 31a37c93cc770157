import ImportBlock.Aligner.Document
import ImportBlock.Aligner.Provider
import ImportBlock.Format
import ImportBlock.Note

/-! Putting the imports of a document in order, on command and around a save. -/

namespace ImportBlock

/-- A document is skipped for its language, or because it is being saved already. It is left alone
as cancelled if it changes while unused symbols are fetched. -/
inductive Outcome where
  | noImports
  | unchanged
  | edited
  | skipped
  | cancelled
  deriving DecidableEq, Repr

def Outcome.name : Outcome → String
  | .noImports => "NoImports"
  | .unchanged => "Unchanged"
  | .edited => "Edited"
  | .skipped => "Skipped"
  | .cancelled => "Cancelled"

structure Aligner (m : Type → Type) where
  settings : Settings
  provider : Option (String → m (Except ProviderFault (List Text)))
  note : Note → m Unit

inductive Hook where
  | align
  | willSave
  | didSave
  deriving DecidableEq, Repr

namespace Aligner

variable {m : Type → Type} [Monad m]

/-- A provider that fails finds nothing unused. -/
def unusedSymbols (aligner : Aligner m) (id : String) : m (List Text) := do
  match aligner.provider with
  | none =>
    aligner.note ⟨.warn, "remove_unused is enabled but no unused-symbol provider is configured"⟩
    return []
  | some fetch =>
    match ← fetch id with
    | .ok symbols => return symbols
    | .error fault =>
      aligner.note ⟨.warn, s!"Skipping unused import removal for {id}: " ++ fault.message⟩
      return []

/-- What to remove from the text, unless the document has another text by then. -/
def fetchUnused (aligner : Aligner m) (document : Document m) (text : Text) :
    Action m (Option (List Text)) := do
  if aligner.settings.removeUnused then
    let symbols ← aligner.unusedSymbols document.id
    let now ← document.text
    if now = text then return some symbols
    else
      aligner.note ⟨.info, s!"{document.id} changed while fetching unused symbols"⟩
      return none
  else return some []

def edit (aligner : Aligner m) (document : Document m) (region : Region)
    (unused : List Text) : Action m Outcome := do
  (Format.notes aligner.settings unused region).forM fun note => aligner.note note
  match (Format.replacement aligner.settings unused region).edit? with
  | none => return .unchanged
  | some edit =>
    document.replaceRange edit.start edit.stop edit.text
    return .edited

def align (aligner : Aligner m) (document : Document m) : Action m Outcome := do
  let text ← document.text.failingAs (.unreadableDocument document.id)
  match Region.find? text with
  | none =>
    aligner.note ⟨.debug, s!"{document.id}: no import region"⟩
    return .noImports
  | some region =>
    match ← aligner.fetchUnused document text with
    | none => return .cancelled
    | some unused => aligner.edit document region unused

/-- Enters the document for as long as the step runs, however it ends. -/
def guarded (aligner : Aligner m) (document : Document m) (step : Action m Outcome) :
    Action m Outcome := do
  if document.language.isNone then
    aligner.note ⟨.debug, s!"{document.id}: not a JS/TS document"⟩
    return .skipped
  else
    ExceptT.mk fun inFlight => do
      match inFlight.acquire? document.id with
      | none =>
        aligner.note ⟨.debug, s!"{document.id}: format already in flight"⟩
        return (.ok .skipped, inFlight)
      | some entered =>
        let (result, left) ← step.run.run entered
        return (result, left.release document.id)

def willSave (aligner : Aligner m) (document : Document m) : Action m Outcome :=
  aligner.guarded document (aligner.align document)

def alignAndSave (aligner : Aligner m) (document : Document m) : Action m Outcome := do
  let outcome ← aligner.align document
  if outcome = .edited then document.save
  return outcome

/-- After the document has been written. What this saves again fires no more than skipped events. -/
def didSave (aligner : Aligner m) (document : Document m) : Action m Outcome :=
  aligner.guarded document (aligner.alignAndSave document)

def call (aligner : Aligner m) (document : Document m) : Hook → Action m Outcome
  | .align => aligner.align document
  | .willSave => aligner.willSave document
  | .didSave => aligner.didSave document

end Aligner
end ImportBlock
