import ElementCatalog.Store.Basic

/-!
# Running store operations

Store operations are actions of a monad. An `Execution` runs them, each on a state, to a result or
an error and a new state. What matters of the state is what can be seen of it, such as the contents
of stores: `Execution.Does` says what an action does to that whenever it succeeds, and
`Execution.Leaves` what it leaves of it whenever it fails.
-/

namespace ElementCatalog

/-- A way to run actions that can fail. -/
structure Execution (m : Type → Type) [Monad m] (σ : Type) where
  /-- The outcome of an action on a state, and the state after it. -/
  run {β : Type} : m β → σ → Except IndexError β × σ
  /-- An action that just returns something succeeds and leaves the state as it is. -/
  run_pure {β : Type} (value : β) (s : σ) : run (pure value) s = (.ok value, s)
  /-- An action that is followed by another one is run first. The other one is run if it
  succeeds. -/
  run_bind {β γ : Type} (action : m β) (next : β → m γ) (s : σ) :
    run (action >>= next) s =
      match run action s with
      | (.ok value, after) => run (next value) after
      | (.error error, after) => (.error error, after)

namespace Execution

/-- Runs actions on a state that is kept in memory. -/
def inMemory (σ : Type) : Execution (ExceptT IndexError (StateT σ Id)) σ where
  run action s := (action.run.run s).run
  run_pure _ _ := rfl
  run_bind action next s := by
    simp only [ExceptT.run_bind, StateT.run_bind, Id.run_bind]
    rcases (action.run.run s).run with ⟨outcome, after⟩
    cases outcome <;> rfl

/-- Runs actions on two states, the second of which is below the first. -/
def layered (κ φ : Type) : Execution (ExceptT IndexError (StateT κ (StateM φ))) (κ × φ) where
  run action s :=
    let ((outcome, upper), lower) := (action.run.run s.1).run s.2
    (outcome, upper, lower)
  run_pure _ _ := rfl
  run_bind action next s := by
    simp only [ExceptT.run_bind, StateT.run_bind]
    rcases (action.run.run s.1).run s.2 with ⟨⟨outcome, upper⟩, lower⟩
    cases outcome <;> rfl

variable {m : Type → Type} [Monad m] {σ τ β γ : Type} (execution : Execution m σ) (view : σ → τ)

/-- Every successful run of the action has the given effect on what is seen of the state. -/
def Does (action : m β) (effect : τ → β × τ) : Prop :=
  ∀ ⦃s after : σ⦄ ⦃result : β⦄, execution.run action s = (.ok result, after) →
    effect (view s) = (result, view after)

variable {execution view}

/-- A sequence of actions succeeds by one after the other succeeding. -/
theorem run_bind_eq_ok_iff {action : m β} {next : β → m γ} {s after : σ} {result : γ} :
    execution.run (action >>= next) s = (.ok result, after) ↔
      ∃ value middle, execution.run action s = (.ok value, middle) ∧
        execution.run (next value) middle = (.ok result, after) := by
  rw [execution.run_bind]
  constructor
  · intro h
    split at h
    · next value middle heq => exact ⟨value, middle, heq, h⟩
    · cases h
  · rintro ⟨value, middle, hvalue, hresult⟩
    rw [hvalue]
    exact hresult

/-- An action that just returns something leaves everything as it is. -/
theorem does_pure (value : β) : execution.Does view (pure value) fun t => (value, t) := by
  intro s after result h
  rw [execution.run_pure] at h
  cases h
  rfl

/-- A sequence of actions has the effects of them one after another. -/
theorem Does.bind {action : m β} {next : β → m γ} {first : τ → β × τ} {second : β → τ → γ × τ}
    (haction : execution.Does view action first)
    (hnext : ∀ value, execution.Does view (next value) (second value)) :
    execution.Does view (action >>= next) fun t => second (first t).1 (first t).2 := by
  intro s after result h
  obtain ⟨value, middle, hvalue, hresult⟩ := run_bind_eq_ok_iff.1 h
  simp only [haction hvalue]
  exact hnext value hresult

/-! ## Actions that fail -/

variable (execution view) in
/-- Every failed run of the action relates what is seen of the state before it and after it. -/
def Leaves (action : m β) (remains : τ → τ → Prop) : Prop :=
  ∀ ⦃s after : σ⦄ ⦃error : IndexError⦄, execution.run action s = (.error error, after) →
    remains (view s) (view after)

/-- An action that just returns something never fails. -/
theorem leaves_pure (value : β) (remains : τ → τ → Prop) :
    execution.Leaves view (pure value : m β) remains := by
  intro s after error h
  rw [execution.run_pure] at h
  cases h

/-- A relation that follows from what a failed action leaves. -/
theorem Leaves.mono {action : m β} {remains remains' : τ → τ → Prop}
    (h : execution.Leaves view action remains)
    (himp : ∀ ⦃t t' : τ⦄, remains t t' → remains' t t') :
    execution.Leaves view action remains' :=
  fun _ _ _ hrun => himp (h hrun)

/-- A sequence of actions fails in the first one, or after it, in the other one. -/
theorem Leaves.bind {action : m β} {next : β → m γ} {effect : τ → β × τ}
    {first : τ → τ → Prop} {second : β → τ → τ → Prop}
    (hfirst : execution.Leaves view action first) (heffect : execution.Does view action effect)
    (hsecond : ∀ value, execution.Leaves view (next value) (second value)) :
    execution.Leaves view (action >>= next) fun t t' =>
      first t t' ∨ second (effect t).1 (effect t).2 t' := by
  intro s after error h
  rw [execution.run_bind] at h
  split at h
  · next value middle hvalue =>
    rw [heffect hvalue]
    exact .inr (hsecond value h)
  · next error' middle hfailed =>
    cases h
    exact .inl (hfirst hfailed)

/-! ## All runs of an action -/

variable (execution view) in
/-- Every run of the action relates what is seen of the state before it, its outcome, and what is
seen of the state after it. -/
def Obeys (action : m β) (relation : τ → Except IndexError β → τ → Prop) : Prop :=
  ∀ s, relation (view s) (execution.run action s).1 (view (execution.run action s).2)

/-- An action that just returns something. -/
theorem obeys_pure (value : β) :
    execution.Obeys view (pure value) fun t outcome t' => outcome = .ok value ∧ t' = t := by
  intro s
  rw [execution.run_pure]
  exact ⟨rfl, rfl⟩

/-- A relation that follows from what every run of an action does. -/
theorem Obeys.mono {action : m β} {relation relation' : τ → Except IndexError β → τ → Prop}
    (h : execution.Obeys view action relation)
    (himp : ∀ ⦃t outcome t'⦄, relation t outcome t' → relation' t outcome t') :
    execution.Obeys view action relation' :=
  fun s => himp (h s)

/-- A sequence of actions goes on behind the first one if that succeeds, and else fails with it. -/
theorem Obeys.bind {action : m β} {next : β → m γ} {first : τ → Except IndexError β → τ → Prop}
    {second : β → τ → Except IndexError γ → τ → Prop} (haction : execution.Obeys view action first)
    (hnext : ∀ value, execution.Obeys view (next value) (second value)) :
    execution.Obeys view (action >>= next) fun t outcome t' =>
      (∃ value middle, first t (.ok value) middle ∧ second value middle outcome t') ∨
        ∃ error, first t (.error error) t' ∧ outcome = .error error := by
  intro s
  have hfirst := haction s
  rw [execution.run_bind]
  rcases hrun : execution.run action s with ⟨error | value, middle⟩
  · rw [hrun] at hfirst
    exact .inr ⟨error, hfirst, rfl⟩
  · rw [hrun] at hfirst
    exact .inl ⟨value, view middle, hfirst, hnext value middle⟩

/-! ## Actions that always succeed -/

variable (execution) in
/-- The action succeeds on every state. -/
def Succeeds (action : m β) : Prop :=
  ∀ s, ∃ result after, execution.run action s = (.ok result, after)

/-- An action that just returns something succeeds. -/
theorem succeeds_pure (value : β) : execution.Succeeds (pure value) :=
  fun s => ⟨value, s, execution.run_pure value s⟩

/-- A sequence of actions that succeed succeeds. -/
theorem Succeeds.bind {action : m β} {next : β → m γ} (haction : execution.Succeeds action)
    (hnext : ∀ value, execution.Succeeds (next value)) : execution.Succeeds (action >>= next) := by
  intro s
  obtain ⟨value, middle, hvalue⟩ := haction s
  obtain ⟨result, after, hresult⟩ := hnext value middle
  exact ⟨result, after, run_bind_eq_ok_iff.2 ⟨value, middle, hvalue, hresult⟩⟩

/-! ## Where actions end -/

variable (execution) in
/-- The action ends from a state in a result and a state with a property, or it fails. It cannot fail
if it is sure to succeed. -/
def Ends (sure : Prop) (action : m β) (s : σ) (post : β → σ → Prop) : Prop :=
  (∃ value after, execution.run action s = (.ok value, after) ∧ post value after) ∨
    ¬ sure ∧ ∃ error after, execution.run action s = (.error error, after)

variable {sure : Prop} {s after : σ} {value : β} {action : m β} {post : β → σ → Prop}

/-- An action that just returns something ends where it starts. -/
theorem ends_pure (h : post value s) : execution.Ends sure (pure value) s post :=
  .inl ⟨value, s, execution.run_pure value s, h⟩

/-- A property that follows from where an action ends. -/
theorem Ends.mono {post' : β → σ → Prop} (h : execution.Ends sure action s post)
    (himp : ∀ value after, post value after → post' value after) :
    execution.Ends sure action s post' :=
  h.imp_left fun ⟨value, after, hrun, hpost⟩ => ⟨value, after, hrun, himp value after hpost⟩

/-- A sequence of actions ends where the second one ends from where the first one does. -/
theorem Ends.bind {next : β → m γ} {last : γ → σ → Prop} (h : execution.Ends sure action s post)
    (hnext : ∀ value after, post value after → execution.Ends sure (next value) after last) :
    execution.Ends sure (action >>= next) s last := by
  rw [Ends, execution.run_bind]
  rcases h with ⟨value, middle, hrun, hpost⟩ | ⟨hsure, error, middle, hrun⟩
  · rw [hrun]
    exact hnext value middle hpost
  · rw [hrun]
    exact .inr ⟨hsure, error, middle, rfl⟩

/-- An action that succeeds has ended. -/
theorem Ends.of_run (h : execution.Ends sure action s post)
    (hrun : execution.run action s = (.ok value, after)) : post value after := by
  rcases h with ⟨value', after', hrun', hpost⟩ | ⟨-, error, after', hrun'⟩
  · obtain ⟨hvalue, rfl⟩ := Prod.mk.inj (hrun.symm.trans hrun')
    exact Except.ok.inj hvalue ▸ hpost
  · cases hrun.symm.trans hrun'

/-- An action that is sure to succeed succeeds. -/
theorem Ends.exists_run (h : execution.Ends True action s post) :
    ∃ value after, execution.run action s = (.ok value, after) ∧ post value after :=
  h.resolve_right fun hfails => hfails.1 trivial

end Execution

end ElementCatalog
