import Veloxide.Types.Envelope
import Veloxide.Types.Lifecycle

namespace Veloxide.Replay

open Events

structure ReplayResult where
  finalState : Option LifecycleState
  eventsApplied : Nat
  latestFence : Option UInt64
deriving DecidableEq

inductive ReplayError
  | instanceMismatch (expected actual : String)
  | sequenceGap (expected actual : UInt64) (atIndex : Nat)
  | sequenceDuplicate (sequence : UInt64) (firstAtIndex secondAtIndex : Nat)
  | payloadDecodeFailed (sequence : UInt64) (source : String)
  | transitionFailed (sequence : UInt64) (state : LifecycleState) (reason : String)
  | unexpectedEventType (payloadType : String) (sequence : UInt64)
  | upcastingFailed (sequence : UInt64) (reason : String)
  | blobPublicationFailed (sequence : UInt64) (stepId blobId : String)
deriving DecidableEq

def ReplayError.toText : ReplayError → String
  | instanceMismatch expected actual => s!"instance mismatch: expected {expected}, actual {actual}"
  | sequenceGap expected actual atIndex =>
    s!"sequence gap at index {atIndex}: expected {expected}, actual {actual}"
  | sequenceDuplicate sequence firstAtIndex secondAtIndex =>
    s!"duplicate sequence {sequence} at indices {firstAtIndex} and {secondAtIndex}"
  | payloadDecodeFailed sequence source => s!"payload decode failed at sequence {sequence}: {source}"
  | transitionFailed sequence _ reason => s!"transition failed at sequence {sequence}: {reason}"
  | unexpectedEventType payloadType sequence =>
    s!"unexpected event type {payloadType} at sequence {sequence}"
  | upcastingFailed sequence reason => s!"upcasting failed at sequence {sequence}: {reason}"
  | blobPublicationFailed sequence stepId blobId =>
    s!"Blob publication failed at sequence {sequence} for step {stepId}: blob {blobId}"

def payloadToTransition (payload : EventPayload) (sequence : UInt64) : Except ReplayError TransitionEvent :=
  match payload with
  | .workflowStarted .. => .ok .assignToNode
  | .stepScheduled .. => .ok .stepScheduled
  | .stepStarted .. => .ok .executeStep
  | .stepCompleted .. => .ok .completeStep
  | .stepFailed .. => .ok .fail
  | .timerSet .. => .ok .waitForTimer
  | .timerScheduled .. => .ok .waitForTimer
  | .timerFired .. => .ok .timerFired
  | .workflowCompleted .. => .ok .completeStep
  | .workflowFailed .. => .ok .fail
  | .workflowQuarantined .. => .ok .fail
  | .workflowCancelled .. => .ok .cancel
  | .cancelRequested .. => .ok .cancel
  | .signalAwaiting .. => .ok .waitForTimer
  | .instanceResumed .. => .ok .instanceResumed
  | .continuedAsNew .. => .error (.unexpectedEventType "ContinuedAsNew" sequence)
  | .effectPrepared .. => .error (.unexpectedEventType "EffectPrepared" sequence)
  | .effectCommitted .. => .error (.unexpectedEventType "EffectCommitted" sequence)

def isSkipped : EventPayload → Bool
  | .continuedAsNew .. | .effectPrepared .. | .effectCommitted .. | .workflowQuarantined .. => true
  | _ => false

def isStop : LifecycleState → Bool
  | .completed | .cancelled => true
  | _ => false

def trackFence (latestFence : Option UInt64) : EventPayload → Option UInt64
  | .stepScheduled _ _ _ fence _ =>
    match latestFence with
    | none => some fence
    | some current => if fence > current then some fence else some current
  | _ => latestFence

def checkInstances (expected : String) : List EventEnvelope → Except ReplayError Unit
  | [] => .ok ()
  | event :: events =>
    if event.instanceId ≠ expected then .error (.instanceMismatch expected event.instanceId)
    else checkInstances expected events

def checkSequences (expectedSeq : UInt64) (index : Nat) : List EventEnvelope → Except ReplayError Unit
  | [] => .ok ()
  | event :: events =>
    if event.sequence = expectedSeq then .error (.sequenceDuplicate event.sequence (index - 1) index)
    else if event.sequence ≠ expectedSeq + 1 then
      .error (.sequenceGap (expectedSeq + 1) event.sequence index)
    else checkSequences event.sequence (index + 1) events

def applyLoop : ReplayResult → List EventEnvelope → Except ReplayError ReplayResult
  | progress, [] => .ok progress
  | progress, event :: events =>
    match EventPayload.tryFromJson event.payload with
    | .error failure => .error (.payloadDecodeFailed event.sequence failure.toText)
    | .ok payload =>
      if isSkipped payload then
        applyLoop { progress with eventsApplied := progress.eventsApplied + 1 } events
      else
        let latestFence := trackFence progress.latestFence payload
        match payloadToTransition payload event.sequence with
        | .error failure => .error failure
        | .ok transition =>
          let stateForApply := progress.finalState.getD .pending
          match stateForApply.apply transition with
          | .error failure => .error (.transitionFailed event.sequence stateForApply failure.toText)
          | .ok newState =>
            let next := ⟨some newState, progress.eventsApplied + 1, latestFence⟩
            if isStop newState then .ok next else applyLoop next events

def replay (events : List EventEnvelope) : Except ReplayError ReplayResult := match events with
  | [] => .ok ⟨none, 0, none⟩
  | first :: rest => do
    checkInstances first.instanceId rest
    checkSequences first.sequence 1 rest
    applyLoop ⟨none, 0, none⟩ (first :: rest)

end Veloxide.Replay
