import Veloxide.Storage.Admission
import Veloxide.Storage.EffectJournal

namespace Veloxide.Writer

open ByteCodec

inductive TransactionError
  | alreadyCommitted
  | emptyTransaction
  | storageCommitFailed (reason : String)
  | occConflict (reason : String)
deriving DecidableEq

def TransactionError.toText : TransactionError → String
  | alreadyCommitted => "transaction already committed"
  | emptyTransaction => "transaction is empty: nothing to commit"
  | storageCommitFailed reason => "storage commit failed: " ++ reason
  | occConflict reason => "optimistic concurrency conflict: " ++ reason

structure SnapshotData where
  sequenceNumber : SequenceNumber
  schemaVersion : UInt16
  stateBytes : Bytes

inductive TimerOp
  | upsert (timerId : TimerId) (fireAt : FireAtMs)
  | delete (timerId : TimerId)

inductive DbWriterMessage [Ulid]
  | appendEvent (instanceId : InstanceId) (sequenceNumber : SequenceNumber) (idempotencyKey : IdempotencyKey)
  | recordInstanceStatus (instanceId : InstanceId) (statusByte : UInt8)
  | acquireLease (instanceId : InstanceId) (stepId : StepId) (fence : FenceToken)
  | releaseLease (instanceId : InstanceId) (stepId : StepId)
  | upsertTimer (instanceId : InstanceId) (timerId : TimerId) (fireAt : FireAtMs)
  | deleteTimer (instanceId : InstanceId) (timerId : TimerId)
  | recordEffect (effect : EffectJournal.EffectRecord)
  | takeSnapshot (instanceId : InstanceId) (sequenceNumber : SequenceNumber) (snapshotData : SnapshotData)
  | atomicTransition (stepId : Option StepId) (instanceStatus : Option InstanceStatus) (timerOps : List TimerOp)
      (snapshot : Option SnapshotData) (event : EventEnvelope)

/-- A committer that stores a batch as a whole, after what it stored before, or not at all. -/
structure TransactionCommitter [Ulid] where
  State : Type
  stored : State → List DbWriterMessage
  commitBatch : State → List DbWriterMessage → Except TransactionError Unit × State
  all : ∀ state messages, (commitBatch state messages).1 = .ok () →
    stored (commitBatch state messages).2 = stored state ++ messages
  nothing : ∀ state messages failure, (commitBatch state messages).1 = .error failure →
    stored (commitBatch state messages).2 = stored state

end Veloxide.Writer
