import Veloxide.Types.Ids

namespace Veloxide

open ByteCodec

def maxSupportedVersion : UInt8 := 1

namespace Events

inductive Error
  | invalidInput
  | invalidEnvelopeFormat
  | missingEnvelopeField (field : String)
  | invalidEnvelopeField (reason : String)
  | unsupportedEnvelopeVersion (version : UInt8)
  | missingSchemaVersion
  | invalidSchemaVersionFormat
  | unsupportedSchemaVersion (version : UInt16)
  | invalidPayloadFormat
  | missingPayloadField (field : String)
  | invalidPayloadField (reason : String)
  | unsupportedPayloadVersion (version : UInt8)
  | unknownPayloadType (name : String)
  | envelopeDecodeFailed (source : Error)
  | payloadDecodeSkipped
  | payloadDecodeFailed (source : Error)
  | serializationError (reason : String)
  | invalidCommandMetadata
  | invalidIssuer (name : String)
  | upcasterNotFound (fromVersion toVersion : UInt8)
  | upcastFailed (reason : String)
deriving DecidableEq

def Error.toText : Error → String
  | invalidInput => "Input bytes are not valid UTF-8"
  | invalidEnvelopeFormat => "Envelope JSON is malformed"
  | missingEnvelopeField field => s!"Missing envelope field: {field}"
  | invalidEnvelopeField reason => s!"Invalid envelope field: {reason}"
  | unsupportedEnvelopeVersion version => s!"Unsupported envelope version: {version}"
  | missingSchemaVersion => "Missing schema version"
  | invalidSchemaVersionFormat => "Invalid schema version format"
  | unsupportedSchemaVersion version => s!"Unsupported schema version: {version}"
  | invalidPayloadFormat => "Payload JSON is malformed"
  | missingPayloadField field => s!"Missing payload field: {field}"
  | invalidPayloadField reason => s!"Invalid payload field: {reason}"
  | unsupportedPayloadVersion version => s!"Unsupported payload version: {version}"
  | unknownPayloadType name => s!"Unknown payload type: {name}"
  | envelopeDecodeFailed source => "Envelope decode failed: " ++ source.toText
  | payloadDecodeSkipped => "Payload decode skipped due to unsupported envelope version"
  | payloadDecodeFailed source => "Payload decode failed: " ++ source.toText
  | serializationError reason => s!"Serialization error: {reason}"
  | invalidCommandMetadata => "Invalid command metadata"
  | invalidIssuer name => s!"Invalid issuer: {name}"
  | upcasterNotFound fromVersion toVersion =>
    s!"No upcaster registered for version transition: {fromVersion} → {toVersion}"
  | upcastFailed reason => s!"Upcast failed: {reason}"

section

variable (obj : List (String × Json)) (field : String)

def requireStringField : Except Error String := do
  let value ← (Json.lookup obj field).okOr (.invalidPayloadField s!"{field} is required")
  value.asStr.okOr (.invalidPayloadField s!"{field} must be a string")

def requireString : Except Error String := do
  let value ← (Json.lookup obj field).okOr (.missingPayloadField field)
  value.asStr.okOr (.invalidPayloadField s!"{field} must be a string")

def requireU64 : Except Error UInt64 := do
  let value ← (Json.lookup obj field).okOr (.missingPayloadField field)
  value.asU64.okOr (.invalidPayloadField s!"{field} must be an integer")

def optionalU64 (default : UInt64) : UInt64 := ((Json.lookup obj field).bind Json.asU64).getD default

def optionalString : Option String := (Json.lookup obj field).bind Json.asStr

def valueOrNull : Json := (Json.lookup obj field).getD .null

end

inductive SinkKind
  | blobWrite
  | timerWrite
  | signalWrite

def SinkKind.fromStr : String → Except Error SinkKind
  | "BlobWrite" => .ok blobWrite
  | "TimerWrite" => .ok timerWrite
  | "SignalWrite" => .ok signalWrite
  | other => .error (.invalidPayloadField s!"unknown sink kind: {other}")

inductive StepOutput
  | null
  | inline (value : Json)
  | ref (refType uri : String)

def StepOutput.fromValue (value : Json) : StepOutput := if value.isNull then .null else .inline value

inductive EventPayload
  | workflowStarted (id : String) (dagTopology : Json) (binaryHash : String)
      (workflowVersionHash : WorkflowVersionHash) (dedupeKeyHash : Option String)
  | workflowCompleted (id : String) (completionTimeMs : UInt64)
  | workflowFailed (id failureReason : String)
  | workflowCancelled (id cancelledBy : String)
  | stepScheduled (id stepId : String) (attempt : UInt32) (fence : UInt64) (executionId : String)
  | stepStarted (id stepId : String) (startedAtMs : UInt64)
  | stepCompleted (id stepId : String) (completedAtMs : UInt64) (attempt : UInt32) (fence : UInt64)
      (routingProjection : Json) (outputRef outputHash : Option String) (output : StepOutput)
  | stepFailed (id stepId failureReason : String) (attempt : UInt32) (fence : UInt64)
  | effectPrepared (id stepId effectId : String) (sinkKind : SinkKind) (payloadHash : String)
      (fence : UInt64)
  | effectCommitted (id stepId effectId : String) (externalReceipt : Json) (fence : UInt64)
  | timerSet (id timerId : String) (fireAtMs : UInt64)
  | timerScheduled (id timerId : String) (fireAtMs : UInt64) (instanceId : String)
  | timerFired (id timerId : String) (firedAtMs : UInt64)
  | cancelRequested (id requestedBy : String)
  | signalAwaiting (id signalName instanceId : String) (awaitedAtMs : UInt64)
  | instanceResumed (id : String) (resumedAtMs : UInt64)
  | continuedAsNew (id lineageId : String) (oldEpoch newEpoch : UInt64)
  | workflowQuarantined (id : String) (failureCount : UInt8) (failureWindowSeconds : UInt64)

namespace EventPayload

def fromFields (obj : List (String × Json)) : String → Except Error EventPayload
  | "WorkflowStarted" => do
    let id ← requireStringField obj "workflow_id"
    let dagTopology := valueOrNull obj "dag_topology"
    let binaryHash ← requireString obj "binary_hash"
    let hash ← requireString obj "workflow_version_hash"
    let workflowVersionHash ← (Text.parse WorkflowVersionHash.validate hash).mapError fun failure =>
      .invalidPayloadField failure.toText
    return workflowStarted id dagTopology binaryHash workflowVersionHash
      (optionalString obj "dedupe_key_hash")
  | "WorkflowCompleted" => do
    return workflowCompleted (← requireStringField obj "workflow_id") (← requireU64 obj "completion_time_ms")
  | "WorkflowFailed" => do
    return workflowFailed (← requireStringField obj "workflow_id") (← requireString obj "failure_reason")
  | "WorkflowCancelled" => do
    return workflowCancelled (← requireStringField obj "workflow_id") (← requireString obj "cancelled_by")
  | "StepScheduled" => do
    return stepScheduled (← requireStringField obj "workflow_id") (← requireString obj "step_id")
      (← requireU64 obj "attempt").toUInt32 (← requireU64 obj "fence") (← requireString obj "execution_id")
  | "StepStarted" => do
    return stepStarted (← requireStringField obj "workflow_id") (← requireString obj "step_id")
      (← requireU64 obj "started_at_ms")
  | "StepCompleted" => do
    return stepCompleted (← requireStringField obj "workflow_id") (← requireString obj "step_id")
      (← requireU64 obj "completed_at_ms") (← requireU64 obj "attempt").toUInt32 (← requireU64 obj "fence")
      (valueOrNull obj "routing_projection") (optionalString obj "output_ref")
      (optionalString obj "output_hash") (.fromValue (valueOrNull obj "output"))
  | "StepFailed" => do
    return stepFailed (← requireStringField obj "workflow_id") (← requireString obj "step_id")
      (← requireString obj "failure_reason") (← requireU64 obj "attempt").toUInt32 (← requireU64 obj "fence")
  | "EffectPrepared" => do
    return effectPrepared (← requireStringField obj "workflow_id") (← requireString obj "step_id")
      (← requireString obj "effect_id") (← SinkKind.fromStr (← requireString obj "sink_kind"))
      (← requireString obj "payload_hash") (← requireU64 obj "fence")
  | "EffectCommitted" => do
    return effectCommitted (← requireStringField obj "workflow_id") (← requireString obj "step_id")
      (← requireString obj "effect_id") (valueOrNull obj "external_receipt") (← requireU64 obj "fence")
  | "TimerSet" => do
    return timerSet (← requireStringField obj "workflow_id") (← requireString obj "timer_id")
      (← requireU64 obj "fire_at_ms")
  | "TimerScheduled" => do
    return timerScheduled (← requireStringField obj "workflow_id") (← requireString obj "timer_id")
      (← requireU64 obj "fire_at_ms") (← requireString obj "instance_id")
  | "TimerFired" => do
    return timerFired (← requireStringField obj "workflow_id") (← requireString obj "timer_id")
      (← requireU64 obj "fired_at_ms")
  | "CancelRequested" => do
    return cancelRequested (← requireStringField obj "workflow_id") (← requireString obj "requested_by")
  | "SignalAwaiting" => do
    return signalAwaiting (← requireStringField obj "workflow_id") (← requireString obj "signal_name")
      (← requireString obj "instance_id") (← requireU64 obj "awaited_at_ms")
  | "InstanceResumed" => do
    return instanceResumed (← requireStringField obj "workflow_id") (← requireU64 obj "resumed_at_ms")
  | "ContinuedAsNew" => do
    return continuedAsNew (← requireStringField obj "workflow_id") (← requireString obj "lineage_id")
      (← requireU64 obj "old_epoch") (← requireU64 obj "new_epoch")
  | "WorkflowQuarantined" => do
    return workflowQuarantined (← requireStringField obj "workflow_id")
      (← requireU64 obj "failure_count").toUInt8 (← requireU64 obj "failure_window_seconds")
  | other => .error (.unknownPayloadType other)

def tryFromJson (payloadJson : Json) : Except Error EventPayload := do
  let obj ← payloadJson.asObject.okOr .invalidPayloadFormat
  let payloadType ← requireString obj "type"
  let payloadVersion := optionalU64 obj "version" 0
  if payloadVersion > 255 then
    throw (.invalidPayloadField "version exceeds maximum supported value")
  if payloadVersion.toUInt8 > maxSupportedVersion then
    throw (.unsupportedPayloadVersion payloadVersion.toUInt8)
  fromFields obj payloadType

end EventPayload

end Events

end Veloxide
