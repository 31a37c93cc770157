import ImportBlock.Aligner.Basic

/-! Documents that fire hooks while they are changed or written, and the calls that come of it. -/

namespace ImportBlock

/-- What a document does when it is to be changed or written. It looks at the world and changes it,
fires hooks and hears how they end, until it is done or fails. -/
inductive Script (σ ι : Type) where
  | done
  | fail (failure : Failure)
  | act (change : σ → σ) (next : σ → Script σ ι)
  | fire (hook : Hook) (target : ι) (next : Except Failure Outcome → Script σ ι)

structure Moment (σ : Type) where
  inFlight : InFlight
  world : σ

namespace Moment

variable {σ : Type}

def enter (moment : Moment σ) (id : String) : Moment σ :=
  { moment with inFlight := ⟨id :: moment.inFlight.ids⟩ }

def leave (moment : Moment σ) (id : String) : Moment σ :=
  { moment with inFlight := moment.inFlight.release id }

end Moment

/-- What a call asks of its own document, or of the provider about it. -/
inductive Operation (σ : Type) where
  | read (world : σ) (result : Except Failure Text)
  | provide (before after : σ) (answer : Except ProviderFault (List Text))
  | replace (world : σ) (start stop : Nat) (new : Text) (result : Except Failure Unit)
  | save (world : σ) (result : Except Failure Unit)

/-- A call that has ended. Each of its own operations stands beside the calls fired by it. -/
structure Call (σ ι : Type) where
  hook : Hook
  target : ι
  entered : Moment σ
  deeds : List (Operation σ × List (Call σ ι))
  result : Except Failure Outcome
  left : Moment σ

abbrev Deed (σ ι : Type) := Operation σ × List (Call σ ι)

/-- How each call ends, if it is known to. -/
abbrev Follow (σ ι : Type) := Hook → ι → Moment σ → Option (Call σ ι)

/-- A script that has been played, and the calls fired by it. -/
structure Played (σ ι : Type) where
  result : Except Failure Unit
  calls : List (Call σ ι)
  left : Moment σ

namespace Follow

variable {σ ι : Type}

structure Keeps (follow : Follow σ ι) : Prop where
  asked : ∀ {hook target moment call}, follow hook target moment = some call →
    call.hook = hook ∧ call.target = target ∧ call.entered = moment
  restored : ∀ {hook target moment call}, follow hook target moment = some call →
    call.left.inFlight = moment.inFlight

/-- All calls known to the one end alike for the other. -/
def Within (follow wider : Follow σ ι) : Prop :=
  ∀ {hook target moment call}, follow hook target moment = some call →
    wider hook target moment = some call

end Follow

namespace Script

variable {σ ι : Type}

def play (follow : Follow σ ι) : Script σ ι → Moment σ → Option (Played σ ι)
  | done, moment => some ⟨.ok (), [], moment⟩
  | fail failure, moment => some ⟨.error failure, [], moment⟩
  | act change next, moment =>
    (next (change moment.world)).play follow { moment with world := change moment.world }
  | fire hook target next, moment => do
    let call ← follow hook target moment
    let played ← (next call.result).play follow call.left
    return { played with calls := call :: played.calls }

def FiresSaves : Script σ ι → Prop
  | done => True
  | fail _ => True
  | act _ next => ∀ world, (next world).FiresSaves
  | fire hook _ next => hook ≠ .align ∧ ∀ result, (next result).FiresSaves

variable {follow : Follow σ ι} {moment : Moment σ} {played : Played σ ι}

theorem play_fire_eq_some {hook : Hook} {target : ι} {next : Except Failure Outcome → Script σ ι} :
    (fire hook target next).play follow moment = some played ↔
      ∃ call rest, follow hook target moment = some call ∧
        (next call.result).play follow call.left = some rest ∧
        played = { rest with calls := call :: rest.calls } := by
  simp only [play, Option.bind_eq_bind, Option.bind_eq_some_iff, Option.pure_def, Option.some.injEq]
  constructor
  · rintro ⟨call, hcall, rest, hrest, rfl⟩
    exact ⟨call, rest, hcall, hrest, rfl⟩
  · rintro ⟨call, rest, hcall, hrest, rfl⟩
    exact ⟨call, hcall, rest, hrest, rfl⟩

theorem play_within {wider : Follow σ ι} (within : follow.Within wider) {script : Script σ ι}
    (ended : script.play follow moment = some played) :
    script.play wider moment = some played := by
  induction script generalizing moment played with
  | done => exact ended
  | fail failure => exact ended
  | act change next ih => exact ih _ ended
  | fire hook target next ih =>
    obtain ⟨call, rest, hcall, hrest, rfl⟩ := play_fire_eq_some.mp ended
    exact play_fire_eq_some.mpr ⟨call, rest, within hcall, ih _ hrest, rfl⟩

/-- A script leaves entered what was, and so do the calls fired by it, each in its turn. -/
theorem restored_play (keeps : follow.Keeps) {script : Script σ ι}
    (ended : script.play follow moment = some played) :
    played.left.inFlight = moment.inFlight ∧ ∀ call ∈ played.calls,
      follow call.hook call.target call.entered = some call ∧
        call.entered.inFlight = moment.inFlight := by
  induction script generalizing moment played with
  | done =>
    cases ended
    exact ⟨rfl, by simp⟩
  | fail failure =>
    cases ended
    exact ⟨rfl, by simp⟩
  | act change next ih =>
    obtain ⟨hleft, hcalls⟩ := ih _ ended
    exact ⟨hleft, hcalls⟩
  | fire hook target next ih =>
    obtain ⟨call, rest, hcall, hrest, rfl⟩ := play_fire_eq_some.mp ended
    obtain ⟨hleft, hcalls⟩ := ih _ hrest
    obtain ⟨rfl, rfl, rfl⟩ := keeps.asked hcall
    rw [keeps.restored hcall] at hleft hcalls
    exact ⟨hleft, List.forall_mem_cons.mpr ⟨⟨hcall, rfl⟩, hcalls⟩⟩

theorem FiresSaves.hook_ne_align (keeps : follow.Keeps) {script : Script σ ι}
    (saves : script.FiresSaves) (ended : script.play follow moment = some played) :
    ∀ call ∈ played.calls, call.hook ≠ .align := by
  induction script generalizing moment played with
  | done =>
    cases ended
    simp
  | fail failure =>
    cases ended
    simp
  | act change next ih => exact ih _ (saves _) ended
  | fire hook target next ih =>
    obtain ⟨call, rest, hcall, hrest, rfl⟩ := play_fire_eq_some.mp ended
    obtain ⟨rfl, -⟩ := keeps.asked hcall
    exact List.forall_mem_cons.mpr ⟨saves.1, ih _ (saves.2 _) hrest⟩

theorem FiresSaves.exists_play (keeps : follow.Keeps) {script : Script σ ι}
    (saves : script.FiresSaves) (ends : ∀ hook ≠ Hook.align, ∀ target world,
      ∃ call, follow hook target ⟨moment.inFlight, world⟩ = some call) :
    ∃ played, script.play follow moment = some played := by
  induction script generalizing moment with
  | done => exact ⟨_, rfl⟩
  | fail failure => exact ⟨_, rfl⟩
  | act change next ih => exact ih (change moment.world) (saves _) ends
  | fire hook target next ih =>
    obtain ⟨call, hcall⟩ := ends hook saves.1 target moment.world
    have hleft := keeps.restored hcall
    obtain ⟨rest, hrest⟩ := ih call.result (saves.2 _) (by rw [hleft]; exact ends)
    exact ⟨_, play_fire_eq_some.mpr ⟨call, rest, hcall, hrest, rfl⟩⟩

end Script
end ImportBlock
