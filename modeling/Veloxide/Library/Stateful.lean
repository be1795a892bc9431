import Mathlib

/-- A computation on a state that outlives its errors: what was done before an error stays done. -/
structure Stateful (σ ε α : Type) where
  run : σ → Except ε α × σ

namespace Stateful

variable {σ ε α β : Type}

instance : Monad (Stateful σ ε) where
  pure value := ⟨fun state => (.ok value, state)⟩
  bind action next := ⟨fun state =>
    match action.run state with
    | (.ok value, after) => (next value).run after
    | (.error failure, after) => (.error failure, after)⟩

def read : Stateful σ ε σ := ⟨fun state => (.ok state, state)⟩

def modify (change : σ → σ) : Stateful σ ε Unit := ⟨fun state => (.ok (), change state)⟩

def fail (failure : ε) : Stateful σ ε α := ⟨fun state => (.error failure, state)⟩

def lift (result : Except ε α) : Stateful σ ε α := ⟨fun state => (result, state)⟩

/-- The outcome of an action as a value, so that the computation goes on after an error. -/
def attempt {δ : Type} (action : Stateful σ δ α) : Stateful σ ε (Except δ α) :=
  ⟨fun state => (.ok (action.run state).1, (action.run state).2)⟩

def mapError {δ : Type} (label : δ → ε) (action : Stateful σ δ α) : Stateful σ ε α :=
  ⟨fun state => ((action.run state).1.mapError label, (action.run state).2)⟩

section

variable {δ : Type} {action : Stateful σ ε α} {next : α → Stateful σ ε β} {state after : σ}

theorem bind_ok {value : α} (ran : action.run state = (.ok value, after)) :
    (action >>= next).run state = (next value).run after := by
  show (match action.run state with
    | (.ok value, after) => (next value).run after
    | (.error err, after) => (.error err, after)) = _
  rw [ran]

theorem bind_error {err : ε} (ran : action.run state = (.error err, after)) :
    (action >>= next).run state = (.error err, after) := by
  show (match action.run state with
    | (.ok value, after) => (next value).run after
    | (.error err, after) => (.error err, after)) = _
  rw [ran]

theorem bind_pure_state (finish : α → β) : ((action >>= fun value => pure (finish value)).run state).2 =
    (action.run state).2 := by
  rcases ran : action.run state with ⟨err | value, after⟩
  · rw [bind_error ran]
  · rw [bind_ok ran]
    rfl

theorem attempt_run {result : Except ε α} (ran : action.run state = (result, after)) :
    (attempt action : Stateful σ δ (Except ε α)).run state = (.ok result, after) := by
  show (Except.ok (action.run state).1, (action.run state).2) = _
  rw [ran]

theorem mapError_ok {value : α} {label : ε → δ} (ran : action.run state = (.ok value, after)) :
    (mapError label action).run state = (.ok value, after) := by
  show ((action.run state).1.mapError label, (action.run state).2) = _
  rw [ran]
  rfl

theorem mapError_error {err : ε} {label : ε → δ} (ran : action.run state = (.error err, after)) :
    (mapError label action).run state = (.error (label err), after) := by
  show ((action.run state).1.mapError label, (action.run state).2) = _
  rw [ran]
  rfl

end

/-- Every run of the action leads from its first to its last state by the relation, also when it fails. -/
def Within (related : σ → σ → Prop) (action : Stateful σ ε α) : Prop := ∀ state, related state (action.run state).2

section

variable {related : σ → σ → Prop}

theorem Within.bind (ht : ∀ first second third, related first second → related second third → related first third)
    {action : Stateful σ ε α} {next : α → Stateful σ ε β} (here : Within related action)
    (hl : ∀ value, Within related (next value)) : Within related (action >>= next) := by
  intro state
  have first := here state
  rcases ran : action.run state with ⟨err | value, after⟩
  · rw [bind_error ran]
    rw [ran] at first
    exact first
  · rw [bind_ok ran]
    rw [ran] at first
    exact ht state after _ first (hl value after)

end

end Stateful
