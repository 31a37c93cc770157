import ImportBlock.Aligner.InFlight
import ImportBlock.Failure
import ImportBlock.Language
import ImportBlock.Text.Offset

namespace ImportBlock

/-- A step that may fail. What it has done by then stays done. -/
abbrev Action (m : Type → Type) := ExceptT Failure (StateT InFlight m)

namespace Action

variable {m : Type → Type} [Monad m] {α : Type}

def failingAs (wrap : Failure → Failure) (action : Action m α) : Action m α :=
  ExceptT.mk do
    match ← action.run with
    | .ok value => pure (.ok value)
    | .error failure => pure (.error (wrap failure))

end Action

/-- Offsets of a range count bytes. -/
structure Document (m : Type → Type) where
  id : String
  language : Option Language
  text : Action m Text
  replaceRange : Nat → Nat → Text → Action m Unit
  save : Action m Unit

end ImportBlock
