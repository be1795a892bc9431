import Veloxide.Library.Keyspace
import Veloxide.Storage.KeyEncoding
import Veloxide.Types.Envelope

namespace Veloxide.EventLog

open ByteCodec OrderedStore KeyEncoding Unsigned Except

def eventKeyVersion : UInt8 := 0

def sequenceFromKey (key : Bytes) : Except StorageError UInt64 := if key.length < 8 then .error .corruptKey
  else
    let sequence := UInt64.ofNat (beNat (key.drop (key.length - 8)))
    if sequence = 0 then .error .invalidArgument else .ok sequence

def nextSequence (partition : Store Bytes Bytes) (start : Bytes) : Except StorageError UInt64 :=
  match (rangeScan partition (sequenceKey start 1) (sequenceKey start (UInt64.ofNat (2 ^ 64 - 1)))).getLast? with
  | some (key, _) => do
    let last ← sequenceFromKey key
    (checkedSucc last).okOr .sequenceGap
  | none => .ok 1

theorem nextSequence_ne_zero {part : Store Bytes Bytes} {start : Bytes} {seq : UInt64}
    (next : nextSequence part start = .ok seq) : seq ≠ 0 := by
  rw [nextSequence] at next
  split at next
  · obtain ⟨last, _, succ⟩ := bind_eq_ok.mp next
    cases ha : checkedSucc last with
    | none =>
      rw [ha] at succ
      cases succ
    | some value =>
      rw [ha] at succ
      cases succ
      intro zero
      have less := checkedSucc_gt ha
      rw [zero] at less
      exact UInt64.not_lt.mpr UInt64.zero_le less
  · cases next
    decide

def valueJson (envelope : EventEnvelope) : Json :=
  .object [("version", Json.u64 envelope.schemaVersion.toUInt64), ("instance_id", .string envelope.instanceId),
    ("sequence", Json.u64 envelope.sequence), ("timestamp_ms", Json.u64 envelope.timestampMs),
    ("payload", envelope.payload), ("metadata", envelope.metadata.toJson)]

section

variable [JsonCodec]

def encodeEventValue (envelope : EventEnvelope) : Except StorageError Bytes :=
  (JsonCodec.toVec (valueJson envelope)).mapError fun _ => .serializationFailed

theorem encodeEventValue_eq (env : EventEnvelope) : encodeEventValue env = .ok (JsonCodec.bytes (valueJson env)) := by
  rw [encodeEventValue, JsonCodec.toVec_eq]
  rfl

end

variable [Ulid]

structure AppendEventRequest where
  namespaceText : String
  instanceId : InstanceId
  timestampMs : UInt64
  payload : Json
  metadata : EventMetadata

def streamPrefix (namespaceText : String) (instanceId : InstanceId) : Bytes :=
  eventKeyVersion :: UInt8.ofNat (utf8 namespaceText).length ::
    (utf8 namespaceText ++ (utf8 "/" ++ instanceId.bytes))

def namespacedStreamPrefix (namespaceText : String) (instanceId : InstanceId) : Except StorageError Bytes :=
  if namespaceText = "" ∨ 0 ∈ utf8 namespaceText ∨ '/' ∈ namespaceText.toList then .error .invalidArgument
  else if (utf8 namespaceText).length > 255 then .error .invalidArgument
  else match instanceId.toBytes with
    | .error _ => .error .invalidArgument
    | .ok instanceBytes =>
      .ok (eventKeyVersion :: UInt8.ofNat (utf8 namespaceText).length ::
        (utf8 namespaceText ++ (utf8 "/" ++ instanceBytes)))

theorem namespacedStreamPrefix_ok {space : String} {instanceId : InstanceId} {stream : Bytes}
    (ok : namespacedStreamPrefix space instanceId = .ok stream) :
    (utf8 space).length ≤ 255 ∧ stream = streamPrefix space instanceId := by
  rw [namespacedStreamPrefix, instanceId.toBytes_eq] at ok
  split_ifs at ok with invalid long
  cases ok
  exact ⟨Nat.not_lt.mp long, rfl⟩

def envelopeFromRequest (request : AppendEventRequest) (sequence : UInt64) : EventEnvelope where
  schemaVersion := 1
  instanceId := request.instanceId.text
  sequence := sequence
  timestampMs := request.timestampMs
  payload := request.payload
  metadata := request.metadata

variable [JsonCodec]

def appendEvent (partition : Store Bytes Bytes) (request : AppendEventRequest) :
    Except StorageError (EventEnvelope × Store Bytes Bytes) := do
  let stream ← namespacedStreamPrefix request.namespaceText request.instanceId
  let sequence ← nextSequence partition stream
  let envelope := envelopeFromRequest request sequence
  let key := sequenceKey stream sequence
  let value ← encodeEventValue envelope
  return (envelope, partition.insert key value)

theorem appendEvent_ok {part after : Store Bytes Bytes} {req : AppendEventRequest}
    {env : EventEnvelope} (ok : appendEvent part req = .ok (env, after)) :
    ∃ seq, seq ≠ 0 ∧ env = envelopeFromRequest req seq ∧ (utf8 req.namespaceText).length ≤ 255 ∧
      after = part.insert (sequenceKey (streamPrefix req.namespaceText req.instanceId) seq)
        (JsonCodec.bytes (valueJson env)) := by
  obtain ⟨stream, hn, rest⟩ := bind_eq_ok.mp ok
  obtain ⟨seq, next, rest⟩ := bind_eq_ok.mp rest
  obtain ⟨hs, same⟩ := namespacedStreamPrefix_ok hn
  obtain ⟨value, he, rest⟩ := bind_eq_ok.mp rest
  rw [encodeEventValue_eq] at he
  cases he
  cases rest
  rw [same]
  exact ⟨seq, nextSequence_ne_zero next, rfl, hs, rfl⟩

end Veloxide.EventLog
