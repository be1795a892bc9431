import Mathlib

namespace Veloxide

inductive LifecycleState
  | pending
  | runningDecision
  | stepScheduled
  | stepExecuting
  | waitingForTimer
  | waitingForSignal
  | pendingPublication
  | hibernated
  | compensating
  | reconciling
  | completed
  | failed
  | cancelled
deriving DecidableEq

inductive TransitionEvent
  | assignToNode
  | cancel
  | stepScheduled
  | fail
  | executeStep
  | waitForTimer
  | waitForSignal
  | completeStep
  | yieldWithBlob
  | timerFired
  | timerExpired
  | signalReceived
  | confirmPublication
  | publicationFailed
  | emitOutputRef
  | instanceResumed
  | hibernate
  | wakeFromHibernation
  | beginCompensation
  | compensationCompleted
  | compensationFailed
  | reconciliationCompleted
  | reconciliationFailed
deriving DecidableEq

inductive TransitionError
  | terminalStateTransition
  | invalidTransition

def TransitionError.toText : TransitionError → String
  | terminalStateTransition => "Cannot transition from terminal state"
  | invalidTransition => "Invalid transition for current state"

namespace LifecycleState

def apply (currentState : LifecycleState) (event : TransitionEvent) : Except TransitionError LifecycleState :=
  match currentState, event with
  | .pending, .assignToNode | .failed, .instanceResumed => .ok .runningDecision
  | .runningDecision, .stepScheduled => .ok .stepScheduled
  | .stepScheduled, .executeStep | .waitingForTimer, .timerFired
  | .waitingForSignal, .signalReceived => .ok .stepExecuting
  | .stepExecuting, .waitForTimer => .ok .waitingForTimer
  | .stepExecuting, .waitForSignal => .ok .waitingForSignal
  | .stepExecuting, .completeStep => .ok .completed
  | .waitingForTimer, .timerExpired => .ok .failed
  | .pending, .cancel | .runningDecision, .cancel | .stepScheduled, .cancel | .stepExecuting, .cancel
  | .waitingForTimer, .cancel | .waitingForSignal, .cancel | .pendingPublication, .cancel =>
    .ok .cancelled
  | .runningDecision, .fail | .stepScheduled, .fail | .stepExecuting, .fail | .waitingForTimer, .fail
  | .waitingForSignal, .fail | .pendingPublication, .fail => .ok .failed
  | .stepExecuting, .yieldWithBlob => .ok .pendingPublication
  | .pendingPublication, .confirmPublication => .ok .completed
  | .pendingPublication, .publicationFailed => .ok .failed
  | .completed, .emitOutputRef => .ok .completed
  | .runningDecision, .hibernate | .waitingForTimer, .hibernate => .ok .hibernated
  | .hibernated, .wakeFromHibernation => .ok .runningDecision
  | .stepExecuting, .beginCompensation => .ok .compensating
  | .compensating, .compensationCompleted => .ok .completed
  | .compensating, .compensationFailed => .ok .failed
  | .reconciling, .reconciliationCompleted => .ok .runningDecision
  | .reconciling, .reconciliationFailed => .ok .failed
  | .completed, _ | .failed, _ | .cancelled, _ => .error .terminalStateTransition
  | _, _ => .error .invalidTransition

variable {newState state : LifecycleState} {event : TransitionEvent}

theorem apply_ne_pending (ha : state.apply event = .ok newState) : newState ≠ .pending := by
  intro he
  subst he
  cases state <;> cases event <;> cases ha

theorem apply_pending_ok (ha : apply .pending event = .ok newState) : event = .assignToNode ∨ event = .cancel := by
  cases event <;> cases ha <;> simp

theorem apply_assignToNode_ok (ha : state.apply .assignToNode = .ok newState) : state = .pending := by
  cases state <;> cases ha
  rfl

theorem apply_cancel_ok (ha : state.apply .cancel = .ok newState) : newState = .cancelled := by
  cases state <;> cases ha <;> rfl

def serdeName : LifecycleState → String
  | pending => "pending"
  | runningDecision => "running_decision"
  | stepScheduled => "step_scheduled"
  | stepExecuting => "step_executing"
  | waitingForTimer => "waiting_for_timer"
  | waitingForSignal => "waiting_for_signal"
  | pendingPublication => "pending_publication"
  | hibernated => "hibernated"
  | compensating => "compensating"
  | reconciling => "reconciling"
  | completed => "completed"
  | failed => "failed"
  | cancelled => "cancelled"

def variants : List LifecycleState :=
  [pending, runningDecision, stepScheduled, stepExecuting, waitingForTimer, waitingForSignal,
    pendingPublication, hibernated, compensating, reconciling, completed, failed, cancelled]

end LifecycleState

end Veloxide
