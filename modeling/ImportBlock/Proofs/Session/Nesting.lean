import ImportBlock.Proofs.Session.Editor
import ImportBlock.Proofs.Session.Guard
import Mathlib.Data.Set.Card
import Mathlib.Data.Set.Finite.Range

/-! Save hooks come to an end, in whatever circles they are fired. -/

namespace ImportBlock

def Call.isSkipped {σ ι : Type} (call : Call σ ι) : Bool :=
  match call.result with
  | .ok .skipped => true
  | _ => false

namespace Session

variable {σ ι : Type} {session : Session σ ι} {follow wider : Follow σ ι} {hook : Hook} {target : ι}
  {entered left moment : Moment σ} {deeds : List (Deed σ ι)} {result : Except Failure Outcome}
  {call inner : Call σ ι} {depth : Nat}

/-- The documents fire no hooks but those around a save. -/
def FiresSaves (session : Session σ ι) : Prop :=
  ∀ target script, session.IsScript target script → script.FiresSaves

def ids (session : Session σ ι) : Set String := Set.range fun target => (session.document target).id

/-- The documents that can be entered. -/
def free (session : Session σ ι) (inFlight : InFlight) : Set String :=
  session.ids \ { id | id ∈ inFlight.ids }

section Depth

theorem Aligns.within (within : follow.Within wider)
    (aligns : session.Aligns follow target entered deeds result left) :
    session.Aligns wider target entered deeds result left := by
  cases aligns with
  | unreadable reads => exact .unreadable reads
  | noImports reads none => exact .noImports reads none
  | unfetched prepares => exact .unfetched prepares
  | cancelled prepares => exact .cancelled prepares
  | unchanged prepares same => exact .unchanged prepares same
  | replaced prepares edits plays =>
    exact .replaced prepares edits (Script.play_within within plays)

theorem Goes.within (within : follow.Within wider) (goes : session.Goes follow call) :
    session.Goes wider call := by
  cases goes with
  | skipped saves barred => exact .skipped saves barred
  | aligned aligns => exact .aligned (aligns.within within)
  | beforeSave free aligns => exact .beforeSave free (aligns.within within)
  | unsaved free aligns unedited => exact .unsaved free (aligns.within within) unedited
  | saved free aligns plays =>
    exact .saved free (aligns.within within) (Script.play_within within plays)

theorem record_within (session : Session σ ι) {depth deeper : Nat} (deep : depth ≤ deeper) :
    (session.record depth).Within (session.record deeper) := by
  induction depth generalizing deeper with
  | zero => exact nofun
  | succ depth ih =>
    obtain ⟨deeper, rfl⟩ := Nat.exists_eq_add_of_le' (Nat.zero_lt_of_lt deep)
    intro hook target moment call ended
    obtain ⟨goes, asked⟩ := attempt_iff.mp ended
    exact attempt_iff.mpr ⟨goes.within (ih (Nat.le_of_succ_le_succ deep)), asked⟩

end Depth

section Free

theorem finite_free (finite : session.ids.Finite) (inFlight : InFlight) :
    (session.free inFlight).Finite := finite.subset Set.sdiff_subset

theorem ncard_free_inside (finite : session.ids.Finite) (saves : hook ≠ .align)
    (unbarred : ¬ session.Barred target moment) :
    (session.free (session.inside hook target moment.inFlight)).ncard <
      (session.free moment.inFlight).ncard := by
  have hmem : (session.document target).id ∈ session.free moment.inFlight :=
    ⟨⟨target, rfl⟩, fun entered => unbarred (.inr entered)⟩
  have hfree : session.free (session.inside hook target moment.inFlight) =
      session.free moment.inFlight \ {(session.document target).id} := by
    ext id
    simp only [free, inside, if_neg saves, Set.mem_sdiff, Set.mem_ofPred_eq, List.mem_cons, not_or,
      Set.mem_singleton_iff]
    tauto
  rw [hfree]
  exact Set.ncard_sdiff_singleton_lt_of_mem hmem (finite_free finite _)

end Free

section Exists

variable (keeps : follow.Keeps) (saves : session.FiresSaves)

include keeps saves

theorem exists_aligns (entered : Moment σ) (ends : ∀ hook ≠ Hook.align, ∀ target world,
      ∃ call, follow hook target ⟨entered.inFlight, world⟩ = some call) :
    ∃ deeds result left, session.Aligns follow target entered deeds result left := by
  rcases reads : (session.document target).read entered.world with ⟨failure | text, after⟩
  · exact ⟨_, _, _, .unreadable reads⟩
  rcases found : Region.find? text with _ | region
  · exact ⟨_, _, _, .noImports reads found⟩
  obtain ⟨fetching, fetched, between, fetches⟩ := session.exists_fetches target text after
  have prepares : session.Prepares target entered _ region fetched between :=
    .read reads found fetches
  rcases fetched with failure | _ | unused
  · exact ⟨_, _, _, .unfetched prepares⟩
  · exact ⟨_, _, _, .cancelled prepares⟩
  rcases edits : (Format.replacement session.settings unused region).edit? with _ | edit
  · exact ⟨_, _, _, .unchanged prepares edits⟩
  obtain ⟨played, plays⟩ : ∃ played, ((session.document target).replace edit.start edit.stop
      edit.text).play follow ⟨entered.inFlight, between⟩ = some played :=
    (saves target _ (.replace _ _ _)).exists_play keeps ends
  exact ⟨_, _, _, .replaced prepares edits plays⟩

theorem exists_attempt (hook : Hook) (target : ι) (moment : Moment σ)
    (ends : hook = .align ∨ ¬ session.Barred target moment →
      ∀ other ≠ Hook.align, ∀ target' world, ∃ call,
        follow other target' ⟨session.inside hook target moment.inFlight, world⟩ = some call) :
    ∃ call, session.attempt follow hook target moment = some call := by
  by_cases align : hook = .align
  · subst align
    obtain ⟨deeds, result, left, aligns⟩ := exists_aligns keeps saves moment (ends (.inl rfl))
    exact ⟨_, attempt_iff.mpr ⟨.aligned aligns, rfl, rfl, rfl⟩⟩
  by_cases barred : session.Barred target moment
  · exact ⟨_, attempt_of_barred align barred⟩
  have hends := ends (.inr barred)
  rw [inside, if_neg align] at hends
  obtain ⟨deeds, result, left, aligns⟩ :=
    exists_aligns keeps saves (moment.enter (session.document target).id) hends
  cases hook with
  | align => exact absurd rfl align
  | willSave => exact ⟨_, attempt_iff.mpr ⟨.beforeSave barred aligns, rfl, rfl, rfl⟩⟩
  | didSave =>
    by_cases edited : result = .ok .edited
    · subst edited
      obtain ⟨played, plays⟩ := (saves target _ .save).exists_play keeps
        (by rw [(aligns.restored keeps).1]; exact hends)
      exact ⟨_, attempt_iff.mpr ⟨.saved barred aligns plays, rfl, rfl, rfl⟩⟩
    · exact ⟨_, attempt_iff.mpr ⟨.unsaved barred aligns edited, rfl, rfl, rfl⟩⟩

end Exists

/-- A save hook ends before it could enter a document twice. -/
theorem exists_record_of_free (finite : session.ids.Finite) (saves : session.FiresSaves)
    (hook : Hook) (around : hook ≠ .align) (target : ι) (moment : Moment σ)
    (deep : (session.free moment.inFlight).ncard < depth) :
    ∃ call, session.record depth hook target moment = some call := by
  induction depth generalizing hook target moment with
  | zero => exact absurd deep (Nat.not_lt_zero _)
  | succ depth ih =>
    refine exists_attempt (session.keeps_record depth) saves hook target moment
      fun free other around' target' world => ih other around' target' _ ?_
    have hless := ncard_free_inside finite around (free.resolve_left around)
    exact Nat.lt_of_lt_of_le hless (Nat.le_of_lt_succ deep)

theorem exists_record (finite : session.ids.Finite) (saves : session.FiresSaves) (hook : Hook)
    (target : ι) (moment : Moment σ) :
    ∃ call, session.record (session.ids.ncard + 2) hook target moment = some call := by
  refine exists_attempt (session.keeps_record _) saves hook target moment
    fun _ other around target' world => exists_record_of_free finite saves other around target' _ ?_
  exact Nat.lt_succ_of_le (Set.ncard_le_ncard Set.sdiff_subset finite)

section Active

theorem Ends.hook_ne_align (saves : session.FiresSaves) (ends : session.Ends call)
    (fired : inner ∈ call.nested) : inner.hook ≠ .align := by
  obtain ⟨depth, goes⟩ := ends.exists_goes
  have keeps := session.keeps_record depth
  obtain ⟨script, world, played, hscript, plays, hinner⟩ := (goes.restored keeps).2 inner fired
  exact (saves _ _ hscript).hook_ne_align keeps plays inner hinner

/-- Of the calls in progress within another all but skipped ones have entered a document each. -/
theorem countP_active (finite : session.ids.Finite) (saves : session.FiresSaves)
    {active : List (Call σ ι)} (ends : session.Ends call)
    (chain : (call :: active).IsChain fun outer inner => inner ∈ outer.nested) :
    active.countP (fun call => !call.isSkipped) ≤
      (session.free (session.inside call.hook call.target call.entered.inFlight)).ncard := by
  induction active generalizing call with
  | nil => simp
  | cons inner active ih =>
    obtain ⟨fired, chain⟩ := List.isChain_cons_cons.mp chain
    obtain ⟨hends, hentered⟩ := ends.nested fired
    have around := ends.hook_ne_align saves fired
    by_cases barred : session.Barred inner.target inner.entered
    · obtain ⟨hresult, hdeeds, -⟩ := hends.guarded.skipped around barred
      have hnone : active = [] := by
        rcases active with _ | ⟨innermost, active⟩
        · rfl
        · have fired := (List.isChain_cons_cons.mp chain).1
          simp [Call.nested, hdeeds] at fired
      simp [hnone, Call.isSkipped, hresult]
    · have hcount := ih hends chain
      have hless := ncard_free_inside finite around barred
      rw [hentered] at hcount hless
      rw [List.countP_cons]
      split <;> omega

end Active

/-- Save hooks that fire save hooks come to an end, and no more of them are in progress at a time
than there are documents to enter. -/
theorem nesting_ends (session : Session σ ι) (finite : session.ids.Finite)
    (saves : session.FiresSaves) (hook : Hook) (target : ι) (moment : Moment σ) :
    ∃ call, (∀ depth, session.ids.ncard + 2 ≤ depth →
        session.record depth hook target moment = some call) ∧
      ∀ active, (call :: active).IsChain (fun outer inner => inner ∈ outer.nested) →
        active.countP (fun call => !call.isSkipped) ≤ session.ids.ncard := by
  obtain ⟨call, ended⟩ := exists_record finite saves hook target moment
  refine ⟨call, fun depth deep => session.record_within deep ended, fun active chain => ?_⟩
  have ends : session.Ends call := by
    obtain ⟨rfl, rfl, rfl⟩ := (session.keeps_record _).asked ended
    exact ⟨_, ended⟩
  exact (countP_active finite saves ends chain).trans
    (Set.ncard_le_ncard Set.sdiff_subset finite)

def circular : Session Text Bool where
  document which :=
    { id := if which then "a.ts" else "b.ts"
      language := Language.ofPath? "a.ts"
      read := fun text => (.ok text, text)
      replace := fun start stop new =>
        .act (fun text => (Text.replaceRange? start stop new text).getD text) fun _ =>
          .fire .willSave (!which) fun _ => .done
      save := .fire .didSave (!which) fun _ => .done }
  settings := { }
  provider := none

theorem firesSaves_circular : circular.FiresSaves := by
  rintro which _ (⟨start, stop, new⟩ | -)
  · exact fun _ => ⟨by simp, fun _ => trivial⟩
  · exact ⟨by simp, fun _ => trivial⟩

theorem ids_circular : circular.ids = {"b.ts", "a.ts"} := by
  ext id
  simp [ids, circular]

theorem nesting_ends_circular : circular.ids.ncard = 2 ∧
    ∃ call, (∀ depth, 4 ≤ depth →
        circular.record depth .didSave true ⟨.none, swapped.text⟩ = some call) ∧
      ∀ active, (call :: active).IsChain (fun outer inner => inner ∈ outer.nested) →
        active.countP (fun call => !call.isSkipped) ≤ 2 := by
  have count : circular.ids.ncard = 2 := by
    rw [ids_circular]
    exact Set.ncard_pair (by decide)
  have ends := nesting_ends circular (Set.finite_range _) firesSaves_circular .didSave true
    ⟨.none, swapped.text⟩
  rw [count] at ends
  exact ⟨count, ends⟩

end Session

namespace Editor

variable {settings : Settings} {source : Option Source} {buffers : List Buffer}

theorem firesSaves_fireAll {triggers : List Trigger}
    (saves : ∀ trigger ∈ triggers, trigger.hook ≠ .align) : (fireAll triggers).FiresSaves := by
  induction triggers with
  | nil => trivial
  | cons trigger rest ih =>
    obtain ⟨hfirst, hrest⟩ := List.forall_mem_cons.mp saves
    refine fun editor => ⟨hfirst, fun result editor => ?_⟩
    cases result with
    | ok outcome => exact ih hrest
    | error failure => trivial

theorem firesSaves_session (saves : ∀ buffer ∈ buffers,
      ∀ trigger ∈ buffer.onReplace ++ buffer.onSave, trigger.hook ≠ .align) :
    (session settings source buffers).FiresSaves := by
  intro index script hscript
  have hsaves : ∀ trigger ∈ (buffer ⟨buffers, []⟩ index).onReplace ++
      (buffer ⟨buffers, []⟩ index).onSave, trigger.hook ≠ .align := by
    rcases hbuffer : buffers[index]? with _ | found
    · simp [buffer, hbuffer]
    · simpa [buffer, hbuffer] using saves found (List.mem_of_getElem? hbuffer)
  obtain ⟨hreplace, hsave⟩ := List.forall_mem_append.mp hsaves
  cases hscript with
  | replace start stop new =>
    intro editor logged
    split
    · trivial
    · split
      · trivial
      · exact fun _ => firesSaves_fireAll hreplace
  | save =>
    intro editor logged
    split
    · trivial
    · exact fun _ => firesSaves_fireAll hsave

theorem finite_ids : (session settings source buffers).ids.Finite := by
  refine (insert "" (buffers.map Buffer.id).toFinset).finite_toSet.subset ?_
  rintro _ ⟨index, rfl⟩
  rcases hbuffer : buffers[index]? with _ | found
  · simp [session, scripted, buffer, hbuffer]
  · have hmem : found.id ∈ buffers.map Buffer.id :=
      List.mem_map_of_mem (List.mem_of_getElem? hbuffer)
    simpa [session, scripted, buffer, hbuffer] using Or.inr hmem

theorem exists_run_call (editor : Editor) (same : editor.hooks = hooks ⟨buffers, []⟩)
    (saves : ∀ buffer ∈ buffers, ∀ trigger ∈ buffer.onReplace ++ buffer.onSave,
      trigger.hook ≠ .align) (hook : Hook) (index : Nat) (inFlight : InFlight) :
    ∃ ended, ∀ depth, (session settings source buffers).ids.ncard + 2 ≤ depth →
      run (call (aligner settings source) (buffers.map Buffer.id) depth hook index) inFlight
        editor = ended := by
  have hsaves : (session settings source buffers).FiresSaves := firesSaves_session saves
  obtain ⟨recorded, ended⟩ :=
    Session.exists_record finite_ids hsaves hook index ⟨inFlight, editor⟩
  exact ⟨_, fun depth deep =>
    (follows_record depth same (Session.record_within _ deep ended)).1⟩

end Editor
end ImportBlock
