namespace ImportBlock

structure InFlight where
  ids : List String
  deriving DecidableEq, Repr

namespace InFlight

def none : InFlight := ⟨[]⟩

/-- A document is entered once at a time. -/
def acquire? (inFlight : InFlight) (id : String) : Option InFlight :=
  if inFlight.ids.contains id then Option.none else some ⟨id :: inFlight.ids⟩

def release (inFlight : InFlight) (id : String) : InFlight := ⟨inFlight.ids.erase id⟩

theorem release_acquire {inFlight entered : InFlight} {id : String}
    (h : inFlight.acquire? id = some entered) : entered.release id = inFlight := by
  rw [acquire?] at h
  split at h
  · simp at h
  · cases h
    simp [release]

end InFlight
end ImportBlock
