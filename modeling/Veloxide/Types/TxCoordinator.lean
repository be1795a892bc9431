import Veloxide.Library.Execution

namespace Veloxide.TxCoordinator

inductive TransactionState
  | init
  | enrolling
  | preparing
  | prepared
  | committing
  | committed
  | rollingBack
  | rolledBack
  | aborted
  | ambiguous
deriving DecidableEq

inductive CoordinatorDecision
  | commit
  | rollback
deriving DecidableEq

inductive CoordinatorTransition
  | beginEnroll
  | beginPrepare
  | participantPrepared
  | participantRollback
  | allResponded
  | decideCommit
  | decideRollback
  | timeout
  | recover
  | reconcileCommitted
  | reconcileRolledBack
  | reconcileRetry
deriving DecidableEq

inductive CoordinatorTransitionError
  | terminalStateTransition
  | invalidTransition
  | insufficientVotes
deriving DecidableEq

def TransactionState.isTerminal : TransactionState → Bool
  | committed | rolledBack | aborted => true
  | _ => false

def applyCoordinatorTransition (current : TransactionState) (event : CoordinatorTransition) :
    Except CoordinatorTransitionError TransactionState :=
  match current, event with
  | .init, .beginEnroll => .ok .enrolling
  | .enrolling, .beginPrepare => .ok .preparing
  | .preparing, .participantPrepared => .ok .preparing
  | .preparing, .participantRollback => .ok .preparing
  | .preparing, .allResponded => .ok .prepared
  | .preparing, .timeout => .ok .aborted
  | .prepared, .decideCommit => .ok .committing
  | .prepared, .decideRollback => .ok .rollingBack
  | .prepared, .timeout => .ok .aborted
  | .committing, .allResponded => .ok .committed
  | .committing, .timeout => .ok .ambiguous
  | .rollingBack, .allResponded => .ok .rolledBack
  | .rollingBack, .timeout => .ok .ambiguous
  | .committed, _ => .error .terminalStateTransition
  | .rolledBack, _ => .error .terminalStateTransition
  | .aborted, _ => .error .terminalStateTransition
  | .ambiguous, .reconcileCommitted => .ok .committed
  | .ambiguous, .reconcileRolledBack => .ok .rolledBack
  | .ambiguous, .reconcileRetry => .ok .ambiguous
  | state, .recover => if !state.isTerminal then .ok .ambiguous else .error .invalidTransition
  | _, _ => .error .invalidTransition

variable (events : List CoordinatorTransition)

def applyAll (start : TransactionState) (events : List CoordinatorTransition) :
    Except CoordinatorTransitionError TransactionState :=
  events.foldlM applyCoordinatorTransition start

def decisionOf : CoordinatorTransition → Option CoordinatorDecision
  | .decideCommit => some .commit
  | .decideRollback => some .rollback
  | _ => none

def decisions : List CoordinatorDecision := events.filterMap decisionOf

theorem decisions_append_singleton (event : CoordinatorTransition) :
    decisions (events ++ [event]) = decisions events ++ (decisionOf event).toList := by
  cases event <;> simp [decisions, decisionOf]

def Remembers : TransactionState → Prop
  | .init | .enrolling | .preparing | .prepared | .aborted => decisions events = []
  | .committing => decisions events = [.commit]
  | .rollingBack => decisions events = [.rollback]
  | .committed =>
    decisions events = [.commit] ∨ (.reconcileCommitted ∈ events ∧ (decisions events).length ≤ 1)
  | .rolledBack =>
    decisions events = [.rollback] ∨ (.reconcileRolledBack ∈ events ∧ (decisions events).length ≤ 1)
  | .ambiguous => (decisions events).length ≤ 1

variable {state : TransactionState}

theorem Remembers.at_most_one {events : List CoordinatorTransition} (hr : Remembers events state) :
    (decisions events).length ≤ 1 := by
  cases state with
  | committed | rolledBack =>
    rcases hr with ht | ⟨_, hb⟩
    · simp [ht]
    · exact hb
  | ambiguous => exact hr
  | _ =>
    simp only [Remembers] at hr
    simp [hr]

variable {event : CoordinatorTransition} {after : TransactionState}

theorem applyCoordinatorTransition_decision (ha : applyCoordinatorTransition state event = .ok after) :
    decisionOf event = none ∨ (state = .prepared ∧ event = .decideCommit ∧ after = .committing) ∨
      (state = .prepared ∧ event = .decideRollback ∧ after = .rollingBack) := by
  cases event with
  | decideCommit | decideRollback =>
    cases state <;> cases ha
    simp
  | _ => exact .inl rfl

theorem Remembers.step {events : List CoordinatorTransition} (hr : Remembers events state)
    (ha : applyCoordinatorTransition state event = .ok after) : Remembers (events ++ [event]) after := by
  rcases applyCoordinatorTransition_decision ha with hs | ⟨rfl, rfl, rfl⟩ | ⟨rfl, rfl, rfl⟩
  · have same : decisions (events ++ [event]) = decisions events := by
      rw [decisions_append_singleton, hs]
      exact List.append_nil _
    have hb := hr.at_most_one
    cases state <;> cases event <;> cases ha <;> simp_all [Remembers, decisionOf]
  · simp only [Remembers] at hr ⊢
    rw [decisions_append_singleton, hr]
    rfl
  · simp only [Remembers] at hr ⊢
    rw [decisions_append_singleton, hr]
    rfl

theorem applyAll_remembers {events : List CoordinatorTransition} {final : TransactionState}
    (ha : applyAll .init events = .ok final) : Remembers events final :=
  Machine.accepted_invariant Remembers (show Remembers [] .init from rfl)
    (fun _ _ _ _ hr ha => hr.step ha) events final ha

theorem decisions_of_committed {events : List CoordinatorTransition}
    (ha : applyAll .init events = .ok .committed) (hd : .reconcileCommitted ∉ events) :
    decisions events = [.commit] := by
  rcases applyAll_remembers ha with ht | ⟨hr, _⟩
  · exact ht
  · exact absurd hr hd

theorem decisions_of_rolledBack {events : List CoordinatorTransition}
    (ha : applyAll .init events = .ok .rolledBack) (hd : .reconcileRolledBack ∉ events) :
    decisions events = [.rollback] := by
  rcases applyAll_remembers ha with ht | ⟨hr, _⟩
  · exact ht
  · exact absurd hr hd

theorem mem_decisions {decision : CoordinatorDecision} (hd : decisionOf event = some decision)
    (events : List CoordinatorTransition) : decision ∈ decisions events ↔ event ∈ events := by
  rw [decisions, List.mem_filterMap]
  constructor
  · intro hf
    obtain ⟨other, mem, same⟩ := hf
    cases other <;> cases same <;> cases event <;> cases hd <;> exact mem
  · intro mem
    exact ⟨event, mem, hd⟩

/-- A run decides at most once, and an outcome that was not reconciled is the decided one. -/
theorem outcome_agrees_with_decision {events : List CoordinatorTransition} {final : TransactionState}
    (accepted : applyAll .init events = .ok final) :
    (decisions events).length ≤ 1 ∧ (final = .committed → .reconcileCommitted ∉ events →
        .decideCommit ∈ events ∧ .decideRollback ∉ events) ∧
      (final = .rolledBack → .reconcileRolledBack ∉ events → .decideRollback ∈ events ∧ .decideCommit ∉ events) := by
  refine ⟨(applyAll_remembers accepted).at_most_one, ?_, ?_⟩
  · intro he hd
    subst he
    have ht := decisions_of_committed accepted hd
    rw [← mem_decisions (show decisionOf .decideCommit = _ from rfl),
      ← mem_decisions (show decisionOf .decideRollback = _ from rfl), ht]
    decide
  · intro he hd
    subst he
    have ht := decisions_of_rolledBack accepted hd
    rw [← mem_decisions (show decisionOf .decideCommit = _ from rfl),
      ← mem_decisions (show decisionOf .decideRollback = _ from rfl), ht]
    decide

theorem outcome_agrees_with_decision_committed : CoordinatorTransition.decideCommit ∈
    [CoordinatorTransition.beginEnroll, .beginPrepare, .participantPrepared, .allResponded,
      .decideCommit, .allResponded] :=
  ((outcome_agrees_with_decision (show applyAll .init _ = .ok .committed by decide)).2.1 rfl (by decide)).1

/-- Votes are absorbed while preparing, and reconciliation commits without any decision. -/
theorem committed_despite_rollback_vote :
    (∃ events, applyAll .init events = .ok .committed ∧ .participantRollback ∈ events) ∧
      (∃ events, applyAll .init events = .ok .committed ∧ .decideCommit ∉ events) ∧
      (∃ events, applyAll .init events = .ok .committed ∧ .decideRollback ∈ events) ∧
      (∃ events, applyAll .init events = .ok .rolledBack ∧ .decideCommit ∈ events) := by
  refine ⟨⟨[.beginEnroll, .beginPrepare, .participantRollback, .allResponded, .decideCommit,
      .allResponded], by decide, by decide⟩,
    ⟨[.recover, .reconcileCommitted], by decide, by decide⟩,
    ⟨[.beginEnroll, .beginPrepare, .allResponded, .decideRollback, .timeout, .reconcileCommitted], by decide, by decide⟩,
    ⟨[.beginEnroll, .beginPrepare, .allResponded, .decideCommit, .recover, .reconcileRolledBack], by decide, by decide⟩⟩

end Veloxide.TxCoordinator
