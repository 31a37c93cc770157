import ImportBlock.Proofs.Host.Contents

/-! What is left of a file document where a replacement or a save fails. -/

namespace ImportBlock

open Text Runs

namespace FileDocument

/-- What is done to a document, or to its file behind its back. -/
inductive Event (σ : Type) where
  | replace (start stop : Nat) (new : Text)
  | save
  | outside (change : σ → σ)

variable {m : Type → Type} [Monad m] {σ : Type} (runs : Runs m σ) (host : Host m) (path : String)
  (trial : Bool)

def Event.perform (event : Event σ) (state : Unsaved × σ) : Except Failure Unit × (Unsaved × σ) :=
  let ended (step : Step m Unit) :=
    let ended := (runs.stateT Unsaved).perform step .none state
    (ended.1.1, ended.2)
  match event with
  | .replace start stop new => ended (replaceRange host path start stop new)
  | .save => ended (FileDocument.save host path trial)
  | .outside change => (.ok (), (state.1, change state.2))

def history (events : List (Event σ)) (start : Unsaved × σ) : Unsaved × σ :=
  events.foldl (fun state event => (event.perform runs host path trial state).2) start

/-- The events that do not fail where they stand. -/
def accepted : List (Event σ) → Unsaved × σ → List (Event σ)
  | [], _ => []
  | event :: rest, state =>
    match event.perform runs host path trial state with
    | (.ok (), after) => event :: accepted rest after
    | (.error _, after) => accepted rest after

/-- No save fails where it stands. -/
def AllSaved : List (Event σ) → Unsaved × σ → Prop
  | [], _ => True
  | event :: rest, state =>
    (event = .save → (event.perform runs host path trial state).1 = .ok ()) ∧
      AllSaved rest (event.perform runs host path trial state).2

variable {runs host path trial} {event : Event σ} {events : List (Event σ)}
  {state start : Unsaved × σ} {failure : Failure}

/-- A failed replacement has changed nothing. A failed save has given up the waiting text. -/
theorem Event.cases_of_fails (still : host.Still runs)
    (fails : (event.perform runs host path trial state).1 = .error failure) :
    (event ≠ .save ∧ (event.perform runs host path trial state).2 = state) ∨
      event = .save ∧ ∃ waiting after, state.1 = ⟨some waiting⟩ ∧
        (event.perform runs host path trial state).2 = (⟨none⟩, after) := by
  cases event with
  | replace start stop new =>
    simp only [perform, perform_replaceRange still] at fails ⊢
    refine .inl ⟨by simp, ?_⟩
    cases hcontents : contents runs host path state with
    | error cause => rfl
    | ok old =>
      simp only [hcontents] at fails ⊢
      cases hreplace : Text.replaceRange? start stop new old with
      | some changed => simp [hreplace] at fails
      | none => rfl
  | save =>
    simp only [perform, perform_save] at fails ⊢
    refine .inr ⟨trivial, ?_⟩
    split at fails
    · cases fails
    · cases fails
    · next waiting hwaiting =>
      exact ⟨waiting, _, congrArg Unsaved.mk hwaiting, rfl⟩
  | outside change => cases fails

theorem history_append (front back : List (Event σ)) (start : Unsaved × σ) :
    history runs host path trial (front ++ back) start =
      history runs host path trial back (history runs host path trial front start) :=
  List.foldl_append

theorem history_accepted (still : host.Still runs)
    (saved : AllSaved runs host path trial events start) :
    history runs host path trial (accepted runs host path trial events start) start =
      history runs host path trial events start := by
  induction events generalizing start with
  | nil => rfl
  | cons event rest ih =>
    have hrest := ih saved.2
    have hcons : history runs host path trial (event :: rest) start =
        history runs host path trial rest (event.perform runs host path trial start).2 := rfl
    rw [accepted, hcons]
    split
    · next after performed =>
      have hafter : (event.perform runs host path trial start).2 = after :=
        congrArg Prod.snd performed
      rw [hafter] at hrest ⊢
      rw [← hrest]
      exact congrArg (history runs host path trial _) hafter
    · next failure after performed =>
      have hfails : (event.perform runs host path trial start).1 = .error failure :=
        congrArg Prod.fst performed
      have hafter : (event.perform runs host path trial start).2 = after :=
        congrArg Prod.snd performed
      rcases event.cases_of_fails still hfails with ⟨-, hsame⟩ | ⟨hsave, -⟩
      · rw [hsame] at hrest ⊢
        rw [← hafter, hsame]
        exact hrest
      · rw [saved.1 hsave] at hfails
        cases hfails

/-- The text after a failure is the one before it, unless it was a save and the file does not hold
what was to be written. A failed replacement might as well not have been tried, and after a failed
save nothing is left to write. -/
theorem contents_after_failure (still : host.Still runs)
    (fails : (event.perform runs host path trial
      (history runs host path trial events start)).1 = .error failure) :
    let before := history runs host path trial events start
    let after := history runs host path trial (events ++ [event]) start
    (contents runs host path after = contents runs host path before ↔
        ∀ waiting, event = .save → before.1.text = some waiting →
          stored runs host path after.2 = .ok waiting) ∧
      (event ≠ .save → ∀ later, history runs host path trial (events ++ event :: later) start =
        history runs host path trial (events ++ later) start) ∧
      (event = .save → event.perform runs host path trial after = (.ok (), after)) := by
  intro before after
  have hafter : after = (event.perform runs host path trial before).2 :=
    history_append events [event] start
  rcases event.cases_of_fails still fails with
    ⟨hother, hsame⟩ | ⟨rfl, waiting, final, hbefore, hsave⟩
  · rw [hafter, hsame]
    refine ⟨iff_of_true rfl fun _ save => absurd save hother, fun _ later => ?_,
      fun save => absurd save hother⟩
    rw [history_append, history_append]
    exact congrArg (history runs host path trial later) hsame
  · have hheld : contents runs host path before = .ok waiting := by rw [contents, hbefore]
    have hleft : contents runs host path (⟨none⟩, final) =
        (stored runs host path final).mapError (.unreadableFile path) := rfl
    have hnothing : Event.perform runs host path trial .save (⟨none⟩, final) =
        (.ok (), (⟨none⟩, final)) := by
      simp only [Event.perform, perform_save]
      cases trial <;> rfl
    rw [hafter, hsave]
    refine ⟨?_, fun other => absurd rfl other, fun _ => hnothing⟩
    rw [hheld, hleft, hbefore]
    cases stored runs host path final <;> simp [Except.mapError]

def sheet : Workspace where
  tree := ⟨[(["a.ts".toList], .file (encode ['x']))]⟩
  folder := []

def blocked (workspace : Workspace) : Workspace :=
  { workspace with tree :=
      (workspace.tree.remove ["a.ts".toList]).put ["a.ts".toList] .folder }

def idle : Command → StateM Workspace (Except SystemFault Finished) :=
  fun _ => pure (.error .notFound)

theorem contents_after_failure_reversed :
    let host := Workspace.host idle
    let events : List (Event Workspace) := [.replace 0 1 ['y']]
    let before := history (stateM Workspace) host "a.ts" false events (⟨none⟩, sheet)
    let after := history (stateM Workspace) host "a.ts" false
      (events ++ [.replace 5 2 ['z']]) (⟨none⟩, sheet)
    (Event.perform (stateM Workspace) host "a.ts" false (.replace 5 2 ['z']) before).1 =
        .error (.invalidRange 5 2 "a.ts") ∧
      contents (stateM Workspace) host "a.ts" before = .ok ['y'] ∧
      contents (stateM Workspace) host "a.ts" after =
        contents (stateM Workspace) host "a.ts" before := by
  intro host events before after
  have hfails : (Event.perform (stateM Workspace) host "a.ts" false (.replace 5 2 ['z']) before).1 =
      .error (.invalidRange 5 2 "a.ts") := by decide +kernel
  refine ⟨hfails, by decide +kernel, (contents_after_failure Workspace.still hfails).1.mpr ?_⟩
  intro waiting save
  cases save

/-- The text to be saved is lost with a save that fails. -/
theorem lost_blocked :
    let host := Workspace.host idle
    let events : List (Event Workspace) := [.replace 0 1 ['y'], .outside blocked]
    let before := history (stateM Workspace) host "a.ts" false events (⟨none⟩, sheet)
    let after := history (stateM Workspace) host "a.ts" false (events ++ [.save]) (⟨none⟩, sheet)
    (Event.perform (stateM Workspace) host "a.ts" false .save before).1 =
        .error (.unwritableFile "a.ts" .isFolder) ∧
      contents (stateM Workspace) host "a.ts" before = .ok ['y'] ∧
      contents (stateM Workspace) host "a.ts" after =
        .error (.unreadableFile "a.ts" .isFolder) := by
  decide +kernel

end FileDocument
end ImportBlock
