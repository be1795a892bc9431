import Mathlib

/-- A computation of at most so many steps: it ends with a result, with an error, or cut short. -/
structure Interruptible (σ ε α : Type) where
  run : Nat → σ → Option (Except ε (α × Nat)) × σ

namespace Interruptible

variable {σ ε α β : Type}

instance : Monad (Interruptible σ ε) where
  pure value := ⟨fun steps state => (some (.ok (value, steps)), state)⟩
  bind action next := ⟨fun steps state =>
    match action.run steps state with
    | (some (.ok (value, left)), after) => (next value).run left after
    | (some (.error failure), after) => (some (.error failure), after)
    | (none, after) => (none, after)⟩

def read (view : σ → α) : Interruptible σ ε α := ⟨fun steps state => (some (.ok (view state, steps)), state)⟩

def fail (failure : ε) : Interruptible σ ε α := ⟨fun _ state => (some (.error failure), state)⟩

def atomic (change : σ → Except ε σ) : Interruptible σ ε Unit := ⟨fun steps state =>
  match steps with
  | 0 => (none, state)
  | left + 1 =>
    match change state with
    | .ok after => (some (.ok ((), left)), after)
    | .error failure => (some (.error failure), state)⟩

def torn (change half : σ → σ) : Interruptible σ ε Unit := ⟨fun steps state =>
  match steps with
  | 0 => (none, half state)
  | left + 1 => (some (.ok ((), left)), change state)⟩

def result (outcome : Option (Except ε (α × Nat)) × σ) : Option (Except ε α) := outcome.1.map fun ended => ended.map Prod.fst

/-- From every state of `pre` the action ends in `post`, or it stops, with an error or cut short, in `stop`. -/
def Triple (pre : σ → Prop) (action : Interruptible σ ε α) (post : α → σ → Prop) (stop : σ → Prop) : Prop :=
  ∀ steps state, pre state → match action.run steps state with
    | (some (.ok (value, _)), after) => post value after
    | (some (.error _), after) => stop after
    | (none, after) => stop after

section

variable {pre : σ → Prop} {post : α → σ → Prop} {stop : σ → Prop} {action : Interruptible σ ε α}

theorem Triple.pure {value : α} (done : ∀ state, pre state → post value state) :
    Triple pre (pure value : Interruptible σ ε α) post stop :=
  fun _ state hh => done state hh

theorem Triple.bind {middle : α → σ → Prop} {next : α → Interruptible σ ε β} {last : β → σ → Prop}
    (hf : Triple pre action middle stop) (rest : ∀ value, Triple (middle value) (next value) last stop) :
    Triple pre (action >>= next) last stop := by
  intro steps state hh
  have here := hf steps state hh
  show match (match action.run steps state with
    | (some (.ok (value, left)), after) => (next value).run left after
    | (some (.error err), after) => (some (.error err), after)
    | (none, after) => (none, after)) with
    | (some (.ok (value, _)), after) => last value after
    | (some (.error _), after) => stop after
    | (none, after) => stop after
  rcases ran : action.run steps state with ⟨_ | (err | ⟨value, left⟩), after⟩
  · rw [ran] at here
    exact here
  · rw [ran] at here
    exact here
  · rw [ran] at here
    exact rest value left after here

theorem Triple.read {view : σ → β} : Triple pre (read view : Interruptible σ ε β)
    (fun value state => pre state ∧ view state = value) stop :=
  fun _ _ hh => ⟨hh, rfl⟩

theorem Triple.fail {err : ε} (hs : ∀ state, pre state → stop state) :
    Triple pre (fail err : Interruptible σ ε α) post stop :=
  fun _ state hh => hs state hh

theorem Triple.atomic {change : σ → Except ε σ} {last : Unit → σ → Prop} (hs : ∀ state, pre state → stop state)
    (made : ∀ state after, pre state → change state = .ok after → last () after) :
    Triple pre (atomic change) last stop := by
  intro steps state hh
  cases steps with
  | zero => exact hs state hh
  | succ left =>
    simp only [Interruptible.atomic]
    cases hc : change state with
    | error err => exact hs state hh
    | ok after => exact made state after hh hc

theorem Triple.torn {change half : σ → σ} {last : Unit → σ → Prop} (hb : ∀ state, pre state → stop (half state))
    (made : ∀ state, pre state → last () (change state)) :
    Triple pre (torn change half : Interruptible σ ε Unit) last stop := by
  intro steps state hh
  cases steps with
  | zero => exact hb state hh
  | succ left => exact made state hh

theorem Triple.weaken {weaker : σ → Prop} {stronger : α → σ → Prop} (ht : Triple pre action post stop)
    (hb : ∀ state, weaker state → pre state) (ha : ∀ value state, post value state → stronger value state) :
    Triple weaker action stronger stop := by
  intro steps state hh
  have here := ht steps state (hb state hh)
  rcases ran : action.run steps state with ⟨_ | (err | ⟨value, left⟩), last⟩
  · rw [ran] at here
    exact here
  · rw [ran] at here
    exact here
  · rw [ran] at here
    exact ha value last here

variable {state : σ}

theorem Triple.final {always : σ → Prop} (ht : Triple pre action post stop) (steps : Nat) (hh : pre state)
    (done : ∀ value after, post value after → always after)
    (hs : ∀ after, stop after → always after) : always (action.run steps state).2 := by
  have here := ht steps state hh
  rcases ran : action.run steps state with ⟨_ | (err | ⟨value, left⟩), last⟩
  · rw [ran] at here
    exact hs last here
  · rw [ran] at here
    exact hs last here
  · rw [ran] at here
    exact done value last here

theorem Triple.finished (ht : Triple pre action post stop) {steps : Nat} (hh : pre state)
    {value : α} (he : result (action.run steps state) = some (.ok value)) :
    post value (action.run steps state).2 := by
  have here := ht steps state hh
  rcases ran : action.run steps state with ⟨_ | (err | ⟨other, left⟩), last⟩
  · rw [ran] at he
    cases he
  · rw [ran] at he
    cases he
  · rw [ran] at he here
    cases he
    exact here

end

end Interruptible
