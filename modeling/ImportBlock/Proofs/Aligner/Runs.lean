import ImportBlock.Aligner.Document

/-! Steps in a monad whose actions run on states, and what holds where they end. -/

namespace ImportBlock

/-- The actions of a monad as functions of a state. -/
structure Runs (m : Type → Type) [Monad m] (σ : Type) where
  run {α : Type} : m α → σ → α × σ
  run_pure {α : Type} (value : α) (state : σ) : run (pure value) state = (value, state)
  run_bind {α β : Type} (action : m α) (next : α → m β) (state : σ) :
    run (action >>= next) state = run (next (run action state).1) (run action state).2

namespace Runs

def stateM (σ : Type) : Runs (StateM σ) σ where
  run action state := action.run state
  run_pure _ _ := rfl
  run_bind _ _ _ := rfl

variable {m : Type → Type} [Monad m] {σ τ α β : Type} (runs : Runs m σ)

def stateT (τ : Type) : Runs (StateT τ m) (τ × σ) where
  run action state :=
    let ended := runs.run (action.run state.1) state.2
    (ended.1.1, ended.1.2, ended.2)
  run_pure value state := by
    change (fun ended : (_ × τ) × σ => (ended.1.1, ended.1.2, ended.2))
      (runs.run (pure (value, state.1)) state.2) = _
    rw [runs.run_pure]
  run_bind action next state := by
    change (fun ended : (_ × τ) × σ => (ended.1.1, ended.1.2, ended.2))
      (runs.run (action.run state.1 >>= fun ended => (next ended.1).run ended.2) state.2) = _
    rw [runs.run_bind]

def perform (action : Action m α) (inFlight : InFlight) (state : σ) :
    (Except Failure α × InFlight) × σ :=
  runs.run (action.run.run inFlight) state

variable {inFlight : InFlight} {state : σ}

theorem perform_pure (value : α) :
    runs.perform (pure value) inFlight state = ((.ok value, inFlight), state) :=
  runs.run_pure _ _

theorem perform_throw (failure : Failure) :
    runs.perform (throw failure : Action m α) inFlight state =
      ((.error failure, inFlight), state) :=
  runs.run_pure _ _

theorem perform_bind (action : Action m α) (next : α → Action m β) :
    runs.perform (action >>= next) inFlight state =
      match runs.perform action inFlight state with
      | ((.ok value, inFlight), state) => runs.perform (next value) inFlight state
      | ((.error failure, inFlight), state) => ((.error failure, inFlight), state) := by
  change runs.run (action.run.run inFlight >>= fun ended =>
    (ExceptT.bindCont next ended.1).run ended.2) state = _
  rw [runs.run_bind, perform]
  rcases runs.run (action.run.run inFlight) state with ⟨⟨failure | value, left⟩, after⟩
  · exact runs.run_pure _ _
  · rfl

theorem perform_liftM (action : m α) :
    runs.perform (liftM action) inFlight state =
      ((.ok (runs.run action state).1, inFlight), (runs.run action state).2) := by
  change runs.run ((action >>= fun value => pure (value, inFlight)) >>= fun ended =>
    pure (Except.ok ended.1, ended.2)) state = _
  rw [runs.run_bind, runs.run_bind, runs.run_pure, runs.run_pure]

theorem perform_failingAs (wrap : Failure → Failure) (action : Action m α) :
    runs.perform (action.failingAs wrap) inFlight state =
      (((runs.perform action inFlight state).1.1.mapError wrap,
        (runs.perform action inFlight state).1.2), (runs.perform action inFlight state).2) := by
  refine (runs.run_bind (action.run.run inFlight) _ state).trans ?_
  rw [perform]
  rcases runs.run (action.run.run inFlight) state with ⟨⟨failure | value, left⟩, after⟩
  · exact runs.run_pure _ _
  · exact runs.run_pure _ _

section StateT

variable {both : τ × σ}

theorem perform_getThe : (runs.stateT τ).perform (getThe τ : Action (StateT τ m) τ) inFlight both =
    ((.ok both.1, inFlight), both) := by
  have hget : (runs.stateT τ).run (get : StateT τ m τ) both = (both.1, both) :=
    (runs.stateT τ).run_pure both.1 both
  change (runs.stateT τ).perform (liftM (get : StateT τ m τ)) _ _ = _
  rw [perform_liftM, hget]

theorem perform_modifyThe (change : τ → τ) :
    (runs.stateT τ).perform (modifyThe τ change : Action (StateT τ m) PUnit) inFlight both =
      ((.ok (), inFlight), (change both.1, both.2)) := by
  have hmodify : (runs.stateT τ).run (modify change : StateT τ m PUnit) both =
      ((), change both.1, both.2) :=
    (runs.stateT τ).run_pure () (change both.1, both.2)
  change (runs.stateT τ).perform (liftM (modify change : StateT τ m PUnit)) _ _ = _
  rw [perform_liftM, hmodify]

theorem run_stateT_liftM (action : m α) : (runs.stateT τ).run (liftM action) both =
    ((runs.run action both.2).1, both.1, (runs.run action both.2).2) := by
  change (fun ended : (α × τ) × σ => (ended.1.1, ended.1.2, ended.2))
    (runs.run (action >>= fun value => pure (value, both.1)) both.2) = _
  rw [runs.run_bind, runs.run_pure]

theorem perform_stateT_liftM (action : m α) :
    (runs.stateT τ).perform (liftM action : Action (StateT τ m) α) inFlight both =
      ((.ok (runs.run action both.2).1, inFlight), (both.1, (runs.run action both.2).2)) := by
  change (runs.stateT τ).perform (liftM (liftM action : StateT τ m α)) _ _ = _
  rw [perform_liftM, run_stateT_liftM]

end StateT

/-- From a state of `pre` the step ends with a value and in a state as `post` says, or with a
failure as `fails` says. -/
def Meets (pre : σ → Prop) (action : Action m α) (post : α → σ → Prop)
    (fails : Failure → σ → Prop) : Prop :=
  ∀ inFlight state, pre state →
    match runs.perform action inFlight state with
    | ((.ok value, _), after) => post value after
    | ((.error failure, _), after) => fails failure after

def Yields (pre : σ → Prop) (action : Action m α) (value : α) (post : σ → Prop) : Prop :=
  runs.Meets pre action (fun result state => result = value ∧ post state) fun _ _ => False

/-- What the state shows stays as it is. -/
def Keeps {γ : Type} (shown : σ → γ) (action : m α) : Prop :=
  ∀ state, shown (runs.run action state).2 = shown state

variable {runs} {pre pre' mid : σ → Prop} {action : Action m α} {next : α → Action m β} {value : α}
  {post post' : α → σ → Prop} {result : β → σ → Prop} {fails fails' : Failure → σ → Prop}

theorem meets_pure (holds : ∀ state, pre state → post value state) :
    runs.Meets pre (pure value) post fails := by
  intro inFlight state hpre
  rw [perform_pure]
  exact holds state hpre

theorem meets_liftM {action : m α} (holds : ∀ state, pre state →
    post (runs.run action state).1 (runs.run action state).2) :
    runs.Meets pre (liftM action) post fails := by
  intro inFlight state hpre
  rw [perform_liftM]
  exact holds state hpre

theorem Meets.imp (meets : runs.Meets pre action post fails)
    (before : ∀ state, pre' state → pre state)
    (after : ∀ value state, post value state → post' value state)
    (failed : ∀ failure state, fails failure state → fails' failure state) :
    runs.Meets pre' action post' fails' := by
  intro inFlight state hpre
  have hmeets := meets inFlight state (before state hpre)
  generalize runs.perform action inFlight state = ended at hmeets ⊢
  rcases ended with ⟨⟨failure | value, left⟩, final⟩
  · exact failed failure final hmeets
  · exact after value final hmeets

theorem Meets.bind (first : runs.Meets pre action post fails)
    (rest : ∀ value, runs.Meets (post value) (next value) result fails) :
    runs.Meets pre (action >>= next) result fails := by
  intro inFlight state hpre
  have hfirst := first inFlight state hpre
  rw [perform_bind]
  generalize runs.perform action inFlight state = ended at hfirst ⊢
  rcases ended with ⟨⟨failure | value, left⟩, after⟩
  · exact hfirst
  · exact rest value left after hfirst

theorem Meets.failingAs {wrap : Failure → Failure}
    (meets : runs.Meets pre action post fun failure => fails (wrap failure)) :
    runs.Meets pre (action.failingAs wrap) post fails := by
  intro inFlight state hpre
  have hmeets := meets inFlight state hpre
  rw [perform_failingAs]
  generalize runs.perform action inFlight state = ended at hmeets ⊢
  rcases ended with ⟨⟨failure | value, left⟩, after⟩
  · exact hmeets
  · exact hmeets

theorem yields_pure (value : α) : runs.Yields pre (pure value) value pre :=
  meets_pure fun _ holds => ⟨rfl, holds⟩

theorem Yields.ends (yields : runs.Yields pre action value mid) (holds : pre state) :
    (runs.perform action inFlight state).1.1 = .ok value ∧
      mid (runs.perform action inFlight state).2 := by
  have hyields := yields inFlight state holds
  generalize runs.perform action inFlight state = ended at hyields ⊢
  rcases ended with ⟨⟨failure | other, left⟩, after⟩
  · exact hyields.elim
  · exact ⟨congrArg _ hyields.1, hyields.2⟩

theorem yields_of_ends (ends : ∀ inFlight state, pre state →
    (runs.perform action inFlight state).1.1 = .ok value ∧
      mid (runs.perform action inFlight state).2) : runs.Yields pre action value mid := by
  intro inFlight state holds
  have hends := ends inFlight state holds
  generalize runs.perform action inFlight state = ended at hends ⊢
  rcases ended with ⟨⟨failure | other, left⟩, after⟩
  · cases hends.1
  · exact ⟨Except.ok.inj hends.1, hends.2⟩

theorem Yields.bind (first : runs.Yields pre action value mid)
    (rest : runs.Meets mid (next value) result fails) :
    runs.Meets pre (action >>= next) result fails := by
  refine (first.imp (fun _ => id) (fun _ _ => id) fun _ _ => False.elim).bind
    fun other inFlight state ends => ?_
  obtain ⟨rfl, hmid⟩ := ends
  exact rest inFlight state hmid

theorem Yields.failingAs (yields : runs.Yields pre action value mid) (wrap : Failure → Failure) :
    runs.Yields pre (action.failingAs wrap) value mid :=
  Meets.failingAs yields

end Runs
end ImportBlock
