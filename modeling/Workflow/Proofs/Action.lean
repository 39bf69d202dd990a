import Workflow.Site

/-!
# Actions at a state

What the building blocks of actions do at a given state, so that an action can be followed step by
step without opening the monad.
-/

namespace Workflow.Action

variable {σ τ α β : Type}

theorem bind_of_ok {action : Action σ α} {state after : σ} {value : α}
    (h : action state = .ok value after) (next : α → Action σ β) :
    (action >>= next) state = next value after := by
  change EStateM.bind action next state = _
  unfold EStateM.bind
  rw [h]

theorem bind_of_error {action : Action σ α} {state after : σ} {error : ExecutorError}
    (h : action state = .error error after) (next : α → Action σ β) :
    (action >>= next) state = .error error after := by
  change EStateM.bind action next state = _
  unfold EStateM.bind
  rw [h]

@[simp]
theorem pure_apply (value : α) (state : σ) : (pure value : Action σ α) state = .ok value state :=
  rfl

@[simp]
theorem get_apply (state : σ) : (get : Action σ σ) state = .ok state state :=
  rfl

@[simp]
theorem set_apply (state after : σ) : (set after : Action σ PUnit) state = .ok ⟨⟩ after :=
  rfl

@[simp]
theorem modify_apply (f : σ → σ) (state : σ) :
    (modify f : Action σ PUnit) state = .ok ⟨⟩ (f state) :=
  rfl

theorem ofContext_bind (value : α) (next : α → Action σ β) :
    (ofContext (.ok value) >>= next) = next value :=
  rfl

theorem onPart_of_ok {get : τ → σ} {put : τ → σ → τ} {action : Action σ α} {state : τ} {part : σ}
    {value : α} (h : action (get state) = .ok value part) :
    onPart get put action state = .ok value (put state part) := by
  rw [onPart, h]

theorem onPart_of_error {get : τ → σ} {put : τ → σ → τ} {action : Action σ α} {state : τ} {part : σ}
    {error : ExecutorError} (h : action (get state) = .error error part) :
    onPart get put action state = .error error (put state part) := by
  rw [onPart, h]

/-- The state that an action leaves, whether it fails or not. -/
def stateAfter : EStateM.Result ExecutorError σ α → σ
  | .ok _ state => state
  | .error _ state => state

theorem stateAfter_bind_pure (action : Action σ α) (f : α → β) (state : σ) :
    stateAfter ((action >>= fun value => pure (f value)) state) = stateAfter (action state) := by
  cases haction : action state with
  | error error after =>
      rw [bind_of_error haction]
      rfl
  | ok value after =>
      rw [bind_of_ok haction]
      rfl

end Workflow.Action
