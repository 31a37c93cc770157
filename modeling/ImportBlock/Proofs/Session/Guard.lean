import ImportBlock.Proofs.Session.Course
import ImportBlock.Proofs.Layout.Groups

/-! What every call keeps, whatever is fired while it runs and however it ends. -/

namespace ImportBlock

namespace Operation

variable {σ : Type}

def isSave : Operation σ → Bool
  | save .. => true
  | _ => false

def isReplace : Operation σ → Bool
  | replace .. => true
  | _ => false

@[simp] theorem isSave_save (world : σ) (result : Except Failure Unit) :
    (save world result).isSave = true := rfl

@[simp] theorem isSave_replace (world : σ) (start stop : Nat) (new : Text)
    (result : Except Failure Unit) : (replace world start stop new result).isSave = false := rfl

/-- Neither changes the document nor saves it. -/
def Looks : Operation σ → Prop
  | read .. => True
  | provide .. => True
  | _ => False

theorem Looks.isSave_eq_false {operation : Operation σ} (looks : operation.Looks) :
    operation.isSave = false := by
  cases operation <;> first | rfl | exact looks.elim

theorem Looks.isReplace_eq_false {operation : Operation σ} (looks : operation.Looks) :
    operation.isReplace = false := by
  cases operation <;> first | rfl | exact looks.elim

end Operation

namespace Moment

variable {σ : Type}

theorem inFlight_leave {moment left : Moment σ} {id : String}
    (same : left.inFlight = (moment.enter id).inFlight) :
    (left.leave id).inFlight = moment.inFlight := by
  rw [leave, same]
  simp [enter, InFlight.release]

end Moment

namespace Call

variable {σ ι : Type}

/-- What the call asks of its own document, or of the provider, in turn. -/
def operations (call : Call σ ι) : List (Operation σ) := call.deeds.map fun deed => deed.1

def saves (call : Call σ ι) : Nat := call.operations.countP Operation.isSave

def nested (call : Call σ ι) : List (Call σ ι) := call.deeds.flatMap fun deed => deed.2

/-- The first call is the second, or is fired somewhere within it. -/
inductive Within : Call σ ι → Call σ ι → Prop
  | self (call : Call σ ι) : Within call call
  | fired {call inner outer : Call σ ι} (nested : inner ∈ outer.nested)
      (within : Within call inner) : Within call outer

end Call

namespace Session

variable {σ ι : Type} {session : Session σ ι} {follow : Follow σ ι} {target : ι}
  {entered left : Moment σ} {deeds preparing : List (Deed σ ι)} {region : Region}
  {result : Except Failure Outcome} {call inner : Call σ ι} {depth : Nat}

theorem Asks.looks {before after : σ} {asking : List (Deed σ ι)} {unused : List Text}
    (asks : session.Asks target before asking unused after) :
    ∀ deed ∈ asking, deed.1.Looks ∧ deed.2 = [] := by
  cases asks with
  | nobody => simp
  | somebody => simp [Operation.Looks]

theorem Prepares.looks {fetched : Except Failure (Option (List Text))} {after : σ}
    (prepares : session.Prepares target entered preparing region fetched after) :
    ∀ deed ∈ preparing, deed.1.Looks ∧ deed.2 = [] := by
  obtain ⟨-, -, fetches⟩ := prepares
  cases fetches with
  | nothing => simp [Operation.Looks]
  | unused removes asks reads =>
    have hasking := asks.looks
    simp only [List.forall_mem_cons, List.forall_mem_append, Operation.Looks]
    exact ⟨⟨trivial, trivial⟩, hasking, ⟨trivial, trivial⟩, by simp⟩

/-- Only a replacement comes after looking, and only what follows it can have edited. -/
theorem Aligns.looks_or_replaces (aligns : session.Aligns follow target entered deeds result left) :
    ∃ preparing, (∀ deed ∈ preparing, deed.1.Looks ∧ deed.2 = []) ∧
      (deeds = preparing ∧ left.inFlight = entered.inFlight ∧ result ≠ .ok .edited ∨
        ∃ world start stop new played,
          ((session.document target).replace start stop new).play follow ⟨entered.inFlight, world⟩ =
            some played ∧
          deeds = preparing ++ [(.replace world start stop new played.result, played.calls)] ∧
          left = played.left) := by
  cases aligns with
  | unreadable => exact ⟨_, by simp [Operation.Looks], .inl ⟨rfl, rfl, by simp⟩⟩
  | noImports => exact ⟨_, by simp [Operation.Looks], .inl ⟨rfl, rfl, by simp⟩⟩
  | unfetched prepares => exact ⟨_, prepares.looks, .inl ⟨rfl, rfl, by simp⟩⟩
  | cancelled prepares => exact ⟨_, prepares.looks, .inl ⟨rfl, rfl, by simp⟩⟩
  | unchanged prepares => exact ⟨_, prepares.looks, .inl ⟨rfl, rfl, by simp⟩⟩
  | replaced prepares edits plays =>
    exact ⟨_, prepares.looks, .inr ⟨_, _, _, _, _, plays, rfl, rfl⟩⟩

/-- What the document does when it is changed or saved. -/
inductive IsScript (session : Session σ ι) (target : ι) : Script σ ι → Prop
  | replace (start stop : Nat) (new : Text) :
    IsScript session target ((session.document target).replace start stop new)
  | save : IsScript session target (session.document target).save

def Fired (session : Session σ ι) (follow : Follow σ ι) (target : ι) (inFlight : InFlight)
    (call : Call σ ι) : Prop :=
  ∃ script world played, session.IsScript target script ∧
    script.play follow ⟨inFlight, world⟩ = some played ∧ call ∈ played.calls

theorem Fired.followed {inFlight : InFlight} (keeps : follow.Keeps)
    (fired : session.Fired follow target inFlight call) :
    follow call.hook call.target call.entered = some call ∧ call.entered.inFlight = inFlight := by
  obtain ⟨script, world, played, -, plays, hcall⟩ := fired
  exact (Script.restored_play keeps plays).2 call hcall

theorem Aligns.restored (keeps : follow.Keeps)
    (aligns : session.Aligns follow target entered deeds result left) :
    left.inFlight = entered.inFlight ∧ ∀ call ∈ deeds.flatMap fun deed => deed.2,
      session.Fired follow target entered.inFlight call := by
  have hnone : ∀ preparing : List (Deed σ ι), (∀ deed ∈ preparing, deed.1.Looks ∧ deed.2 = []) →
      (preparing.flatMap fun deed => deed.2) = [] :=
    fun preparing looks => List.flatMap_eq_nil_iff.mpr fun deed hdeed => (looks deed hdeed).2
  obtain ⟨preparing, looks, ⟨rfl, hleft, -⟩ | ⟨world, start, stop, new, played, plays, rfl, rfl⟩⟩ :=
    aligns.looks_or_replaces
  · exact ⟨hleft, by simp [hnone _ looks]⟩
  · refine ⟨(Script.restored_play keeps plays).1, fun call hcall => ?_⟩
    simp only [List.flatMap_append, hnone _ looks, List.flatMap_cons, List.flatMap_nil,
      List.append_nil, List.nil_append] at hcall
    exact ⟨_, world, played, .replace start stop new, plays, hcall⟩

theorem countP_isSave_of_looks (looks : ∀ deed ∈ deeds, deed.1.Looks ∧ deed.2 = []) :
    (deeds.map fun deed => deed.1).countP Operation.isSave = 0 := by
  refine List.countP_eq_zero.mpr fun operation hoperation => ?_
  obtain ⟨deed, hdeed, rfl⟩ := List.mem_map.mp hoperation
  simp [(looks deed hdeed).1.isSave_eq_false]

theorem Aligns.countP_isSave (aligns : session.Aligns follow target entered deeds result left) :
    (deeds.map fun deed => deed.1).countP Operation.isSave = 0 := by
  obtain ⟨preparing, looks, ⟨rfl, -, -⟩ | ⟨world, start, stop, new, played, plays, rfl, rfl⟩⟩ :=
    aligns.looks_or_replaces
  · exact countP_isSave_of_looks looks
  · simp [List.countP_append, countP_isSave_of_looks looks]

/-- What is in flight while a call runs that is not skipped. -/
def inside (session : Session σ ι) (hook : Hook) (target : ι) (inFlight : InFlight) : InFlight :=
  if hook = .align then inFlight else ⟨(session.document target).id :: inFlight.ids⟩

theorem Goes.restored (keeps : follow.Keeps) (goes : session.Goes follow call) :
    call.left.inFlight = call.entered.inFlight ∧ ∀ inner ∈ call.nested,
      session.Fired follow call.target
        (session.inside call.hook call.target call.entered.inFlight) inner := by
  cases goes with
  | skipped => exact ⟨rfl, by simp [Call.nested]⟩
  | aligned aligns => exact aligns.restored keeps
  | beforeSave free aligns =>
    obtain ⟨hleft, hnested⟩ := aligns.restored keeps
    exact ⟨Moment.inFlight_leave hleft, hnested⟩
  | unsaved free aligns =>
    obtain ⟨hleft, hnested⟩ := aligns.restored keeps
    exact ⟨Moment.inFlight_leave hleft, hnested⟩
  | @saved target moment left deeds played free aligns plays =>
    obtain ⟨haligned, hnested⟩ := aligns.restored keeps
    rcases left with ⟨inFlight, world⟩
    obtain rfl : inFlight = _ := haligned
    refine ⟨Moment.inFlight_leave (Script.restored_play keeps plays).1, fun inner hinner => ?_⟩
    simp only [Call.nested, List.flatMap_append, List.mem_append, List.flatMap_cons,
      List.flatMap_nil, List.append_nil] at hinner
    exact hinner.elim (hnested inner) fun hfired => ⟨_, world, played, .save, plays, hfired⟩

theorem keeps_record (session : Session σ ι) (depth : Nat) : (session.record depth).Keeps := by
  induction depth with
  | zero => exact ⟨nofun, nofun⟩
  | succ depth ih =>
    refine ⟨fun ended => (attempt_iff.mp ended).2, fun ended => ?_⟩
    obtain ⟨goes, -, -, rfl⟩ := attempt_iff.mp ended
    exact (goes.restored ih).1

theorem Ends.exists_goes (ends : session.Ends call) :
    ∃ depth, session.Goes (session.record depth) call := by
  obtain ⟨_ | depth, ended⟩ := ends
  · cases ended
  · exact ⟨depth, (attempt_iff.mp ended).1⟩

theorem Ends.of_goes (goes : session.Goes (session.record depth) call) : session.Ends call :=
  ⟨depth + 1, attempt_iff.mpr ⟨goes, rfl, rfl, rfl⟩⟩

theorem Ends.nested (ends : session.Ends call) (fired : inner ∈ call.nested) :
    session.Ends inner ∧
      inner.entered.inFlight = session.inside call.hook call.target call.entered.inFlight := by
  obtain ⟨depth, goes⟩ := ends.exists_goes
  have keeps := session.keeps_record depth
  obtain ⟨ended, same⟩ := ((goes.restored keeps).2 inner fired).followed keeps
  exact ⟨⟨depth, ended⟩, same⟩

theorem Ends.within (ends : session.Ends call) (within : inner.Within call) :
    session.Ends inner := by
  induction within with
  | self => exact ends
  | fired nested _ ih => exact ih (ends.nested nested).1

theorem attempt_of_barred {hook : Hook} {moment : Moment σ} (saves : hook ≠ .align)
    (barred : session.Barred target moment) :
    session.attempt follow hook target moment =
      some ⟨hook, target, moment, [], .ok .skipped, moment⟩ :=
  attempt_iff.mpr ⟨.skipped saves barred, rfl, rfl, rfl⟩

/-- What holds of a call, whatever it fires and however it ends. -/
structure Guarded (session : Session σ ι) (call : Call σ ι) : Prop where
  restored : call.left.inFlight = call.entered.inFlight
  skipped : call.hook ≠ .align → session.Barred call.target call.entered →
    call.result = .ok .skipped ∧ call.deeds = [] ∧ call.left = call.entered
  saved : call.hook = .didSave → ¬ session.Barred call.target call.entered →
    ∃ aligned, session.Ends aligned ∧ aligned.hook = .align ∧ aligned.target = call.target ∧
      aligned.entered = call.entered.enter (session.document call.target).id ∧
      aligned.deeds <+: call.deeds ∧ call.saves ≤ 1 ∧
      (call.saves = 1 ↔ aligned.result = .ok .edited)
  unsaved : call.hook ≠ .didSave → call.saves = 0

theorem Goes.skipped_of_barred (goes : session.Goes follow call) (saves : call.hook ≠ .align)
    (barred : session.Barred call.target call.entered) :
    call.result = .ok .skipped ∧ call.deeds = [] ∧ call.left = call.entered := by
  have ended := attempt_iff.mpr ⟨goes, rfl, rfl, rfl⟩
  rw [attempt_of_barred saves barred] at ended
  have same := Option.some.inj ended
  exact ⟨(congrArg Call.result same).symm, (congrArg Call.deeds same).symm,
    (congrArg Call.left same).symm⟩

theorem Goes.exists_aligned (goes : session.Goes (session.record depth) call)
    (saves : call.hook = .didSave) (free : ¬ session.Barred call.target call.entered) :
    ∃ aligned, session.Ends aligned ∧ aligned.hook = .align ∧ aligned.target = call.target ∧
      aligned.entered = call.entered.enter (session.document call.target).id ∧
      aligned.deeds <+: call.deeds ∧ call.saves ≤ 1 ∧
      (call.saves = 1 ↔ aligned.result = .ok .edited) := by
  cases goes with
  | skipped _ barred => exact absurd barred free
  | aligned => cases saves
  | beforeSave => cases saves
  | unsaved _ aligns unedited =>
    refine ⟨_, .of_goes (.aligned aligns), rfl, rfl, rfl, List.prefix_rfl, ?_⟩
    simp only [Call.saves, Call.operations, aligns.countP_isSave]
    simp [unedited]
  | saved _ aligns plays =>
    refine ⟨_, .of_goes (.aligned aligns), rfl, rfl, rfl, List.prefix_append _ _, ?_⟩
    simp only [Call.saves, Call.operations, List.map_append, List.countP_append,
      aligns.countP_isSave]
    simp

theorem Goes.saves_eq_zero (goes : session.Goes follow call) (other : call.hook ≠ .didSave) :
    call.saves = 0 := by
  cases goes with
  | skipped => rfl
  | aligned aligns => exact aligns.countP_isSave
  | beforeSave _ aligns => exact aligns.countP_isSave
  | unsaved => exact absurd rfl other
  | saved => exact absurd rfl other

theorem Ends.guarded (ends : session.Ends call) : session.Guarded call := by
  obtain ⟨depth, goes⟩ := ends.exists_goes
  exact ⟨(goes.restored (session.keeps_record depth)).1, goes.skipped_of_barred,
    goes.exists_aligned, goes.saves_eq_zero⟩

end Session

/-- A hook called from outside, after whatever happens to the world by then. -/
structure Step (σ ι : Type) where
  meanwhile : σ → σ
  hook : Hook
  target : ι

namespace Session

variable {σ ι : Type} {session : Session σ ι}

def calls (session : Session σ ι) (depth : Nat) :
    List (Step σ ι) → Moment σ → Option (List (Call σ ι))
  | [], _ => some []
  | step :: steps, moment => do
    let call ← session.record depth step.hook step.target
      { moment with world := step.meanwhile moment.world }
    return call :: (← session.calls depth steps call.left)

theorem inFlight_calls {depth : Nat} {steps : List (Step σ ι)} {moment : Moment σ}
    {calls : List (Call σ ι)} (ended : session.calls depth steps moment = some calls) :
    ∀ call ∈ calls, session.Ends call ∧ call.entered.inFlight = moment.inFlight := by
  induction steps generalizing moment calls with
  | nil =>
    cases ended
    simp
  | cons step steps ih =>
    simp only [Session.calls, Option.bind_eq_bind, Option.bind_eq_some_iff, Option.pure_def,
      Option.some.injEq] at ended
    obtain ⟨call, hcall, rest, hrest, rfl⟩ := ended
    have keeps := session.keeps_record depth
    have hleft := keeps.restored hcall
    obtain ⟨hhook, htarget, hentered⟩ := keeps.asked hcall
    refine List.forall_mem_cons.mpr ⟨⟨⟨depth, ?_⟩, by rw [hentered]⟩, fun later hlater => ?_⟩
    · rw [hhook, htarget, hentered]
      exact hcall
    · obtain ⟨hends, hsame⟩ := ih hrest later hlater
      exact ⟨hends, hsame.trans hleft⟩

/-- A call enters its document and leaves it again on every way out. Whoever finds it entered does
nothing, and only what has been edited after a save is saved again. -/
theorem guarded_calls (session : Session σ ι) :
    (∀ follow hook target moment, hook ≠ .align → session.Barred target moment →
      session.attempt follow hook target moment =
        some ⟨hook, target, moment, [], .ok .skipped, moment⟩) ∧
      (∀ call, session.Ends call → session.Guarded call) ∧
      ∀ depth steps world calls, session.calls depth steps ⟨.none, world⟩ = some calls →
        ∀ top ∈ calls, top.entered.inFlight = .none ∧ top.left.inFlight = .none ∧
          ∀ call, call.Within top → session.Ends call ∧ session.Guarded call := by
  refine ⟨fun follow hook target moment saves barred => attempt_of_barred saves barred,
    fun call ends => ends.guarded, fun depth steps world calls ended top htop => ?_⟩
  obtain ⟨ends, hentered⟩ := inFlight_calls ended top htop
  refine ⟨hentered, ends.guarded.restored.trans hentered, fun call within => ?_⟩
  exact ⟨ends.within within, (ends.within within).guarded⟩

def resaving (meanwhile : Text → Text) : Session Text Unit where
  document _ :=
    { id := "a.ts"
      language := Language.ofPath? "a.ts"
      read := fun text => (.ok text, text)
      replace := fun start stop new =>
        .act (fun text => (Text.replaceRange? start stop new text).getD text) fun _ =>
          .fire .willSave () fun _ => .done
      save := .fire .didSave () fun _ => .done }
  settings := { removeUnused := true }
  provider := some fun _ text => (.ok [], meanwhile text)

def swapped : Region where
  before := []
  block := "import b from \"b\";\nimport a from \"a\";".toList
  after := ['\n']

theorem edit?_swapped : (Format.replacement { removeUnused := true } [] swapped).edit? =
    some ⟨0, 37, "import a from \"a\";\nimport b from \"b\";".toList⟩ := by
  rw [Format.replacement, Format.rendered, Format.keptGroup_eq, Format.group_eq_insertionSort]
  decide +kernel

theorem exists_record_resaving : ∃ call,
    (resaving id).record 2 .didSave () ⟨.none, swapped.text⟩ = some call ∧
      call.operations = [.read swapped.text (.ok swapped.text),
        .provide swapped.text swapped.text (.ok []), .read swapped.text (.ok swapped.text),
        .replace swapped.text 0 37 "import a from \"a\";\nimport b from \"b\";".toList (.ok ()),
        .save "import a from \"a\";\nimport b from \"b\";\n".toList (.ok ())] ∧
      call.nested.map (fun call => call.result) = [.ok .skipped, .ok .skipped] := by
  have fires : ∀ hook ≠ Hook.align, ∀ text, (Script.fire hook () fun _ => .done).play
      ((resaving id).record 1) ⟨⟨["a.ts"]⟩, text⟩ = some ⟨.ok (),
        [⟨hook, (), ⟨⟨["a.ts"]⟩, text⟩, [], .ok .skipped, ⟨⟨["a.ts"]⟩, text⟩⟩],
        ⟨⟨["a.ts"]⟩, text⟩⟩ :=
    fun hook saves text => Script.play_fire_eq_some.mpr
      ⟨_, _, attempt_of_barred saves (.inr (List.mem_singleton.mpr rfl)), rfl, rfl⟩
  have fetches : (resaving id).Fetches () swapped.text swapped.text
      [(.provide swapped.text swapped.text (.ok []), []),
        (.read swapped.text (.ok swapped.text), [])]
      ((Except.ok swapped.text).map fun now => if now = swapped.text then some [] else none)
      swapped.text := .unused rfl (.somebody rfl rfl) rfl
  rw [Except.map, if_pos rfl] at fetches
  have found : Region.find? swapped.text = some swapped := by decide +kernel
  have prepares : (resaving id).Prepares () ⟨⟨["a.ts"]⟩, swapped.text⟩ _ _ _ _ :=
    .read rfl found fetches
  have free : ¬ (resaving id).Barred () ⟨.none, swapped.text⟩ := by
    rintro (unknown | entered)
    · exact absurd unknown (by decide)
    · exact absurd entered (by decide)
  exact ⟨_, attempt_iff.mpr ⟨.saved free (.replaced prepares edit?_swapped
    (fires .willSave (by simp) _)) (fires .didSave (by simp) _), rfl, rfl, rfl⟩, rfl, rfl⟩

theorem guarded_calls_resaving : ∃ call,
    (resaving id).calls 2 [⟨id, .didSave, ()⟩] ⟨.none, swapped.text⟩ = some [call] ∧
      call.saves = 1 ∧ call.nested.map (fun call => call.result) = [.ok .skipped, .ok .skipped] ∧
      call.left.inFlight = .none ∧ (resaving id).Guarded call ∧
      (∀ inner ∈ call.nested, (resaving id).Guarded inner) ∧
      (resaving id).attempt (fun _ _ _ => none) .willSave () ⟨⟨["a.ts"]⟩, []⟩ =
        some ⟨.willSave, (), ⟨⟨["a.ts"]⟩, []⟩, [], .ok .skipped, ⟨⟨["a.ts"]⟩, []⟩⟩ := by
  obtain ⟨call, ended, operations, results⟩ := exists_record_resaving
  have calls : (resaving id).calls 2 [⟨id, .didSave, ()⟩] ⟨.none, swapped.text⟩ = some [call] := by
    simp [Session.calls, ended]
  obtain ⟨barred, guarded, between⟩ := guarded_calls (resaving id)
  obtain ⟨-, hleft, within⟩ := between 2 _ _ _ calls call (List.mem_singleton.mpr rfl)
  have saves : call.saves = 1 := by rw [Call.saves, operations]; rfl
  exact ⟨call, calls, saves, results, hleft, guarded call (within call (.self call)).1,
    fun inner fired => (within inner (.fired fired (.self inner))).2,
    barred _ _ _ _ (by simp) (.inr (List.mem_singleton.mpr rfl))⟩

end Session
end ImportBlock
