import Veloxide.Types.Ids

namespace Veloxide.KeyEncoding

open ByteCodec

inductive StorageError
  | corruptKey
  | other
  | batchCommitFailed
  | scanFailed
  | instanceRunning
  | invalidInstanceId (failure : ParseError)
  | sequenceGap
  | corruptEventPayload
  | unsupportedVersion
  | storage
  | invalidArgument
  | serializationFailed
  | deserializationFailed
  | fjallError
  | invalidKey
  | checksumMismatch
  | keyNotFound
  | keyDestroyed
deriving DecidableEq

def StorageError.toText : StorageError → String
  | corruptKey => "corrupt key"
  | other => "other error"
  | batchCommitFailed => "batch commit failed"
  | scanFailed => "scan failed"
  | instanceRunning => "instance is running"
  | invalidInstanceId failure => "invalid instance ID: " ++ failure.toText
  | sequenceGap => "sequence gap"
  | corruptEventPayload => "corrupt event payload"
  | unsupportedVersion => "unsupported version"
  | storage => "storage error"
  | invalidArgument => "invalid argument"
  | serializationFailed => "serialization failed"
  | deserializationFailed => "deserialization failed"
  | fjallError => "fjall error"
  | invalidKey => "invalid key"
  | checksumMismatch => "checksum mismatch"
  | keyNotFound => "key not found"
  | keyDestroyed => "key destroyed (crypto-shredded)"

inductive KeyEncodingError
  | instanceId (failure : ParseError)
  | stepId (failure : ParseError)
  | invalidLength (expected actual : Nat)
  | emptyField
  | keyComponentTooLong (max actual : Nat)
deriving DecidableEq

def encodeLengthPrefixed (value : Bytes) : Except KeyEncodingError Bytes :=
  if value.length > 65535 then .error (.keyComponentTooLong 65535 value.length)
  else .ok (beBytes 2 value.length ++ value)

def sequenceKey (start : Bytes) (sequence : UInt64) : Bytes := start ++ beBytes 8 sequence.toNat

theorem sequenceKey_injective {start : Bytes} {left right : UInt64}
    (same : sequenceKey start left = sequenceKey start right) : left = right :=
  beBytes_inj.mp (List.append_cancel_left same)

variable [Ulid] (inst : InstanceId)

theorem idBytes_eq (default : Bytes) : inst.toBytes.toOption.getD default = inst.bytes := by
  rw [inst.toBytes_eq]
  rfl

variable (stepId : StepId)

/-- `[instance_id_bytes(16)][step_id_len_u16_be(2)][step_id_bytes]`; the length is truncated. -/
def encodeLeaseKey : Bytes := inst.toBytes.toOption.getD (List.replicate 16 0) ++
    (beBytes 2 (utf8 stepId.value).length ++ utf8 stepId.value)

theorem encodeLeaseKey_eq : encodeLeaseKey inst stepId =
    inst.bytes ++ (beBytes 2 (utf8 stepId.value).length ++ utf8 stepId.value) := by
  rw [encodeLeaseKey, idBytes_eq]

def encodeEventKey (sequence : UInt64) : Bytes := let iidBytes := inst.toBytes.toOption.getD (List.replicate 16 0)
  beBytes 2 iidBytes.length ++ (iidBytes ++ beBytes 8 sequence.toNat)

theorem encodeEventKey_eq (seq : UInt64) :
    encodeEventKey inst seq = beBytes 2 16 ++ (inst.bytes ++ beBytes 8 seq.toNat) := by
  rw [encodeEventKey, idBytes_eq, inst.length_bytes]

variable (fireAtMs : UInt64)

def encodeTimerKey (inst : InstanceId) : Bytes :=
  let iidBytes := inst.toBytes.toOption.getD (List.replicate 16 0)
  beBytes 8 fireAtMs.toNat ++ (beBytes 2 iidBytes.length ++ iidBytes)

theorem encodeTimerKey_eq (inst : InstanceId) :
    encodeTimerKey fireAtMs inst = beBytes 8 fireAtMs.toNat ++ (beBytes 2 16 ++ inst.bytes) := by
  rw [encodeTimerKey, idBytes_eq, inst.length_bytes]

def getEventKeyPrefix : Bytes := let iidBytes := inst.toBytes.toOption.getD (List.replicate 16 0)
  beBytes 2 iidBytes.length ++ iidBytes

theorem getEventKeyPrefix_eq : getEventKeyPrefix inst = beBytes 2 16 ++ inst.bytes := by
  rw [getEventKeyPrefix, idBytes_eq, inst.length_bytes]

def getTimerKeyPrefixForTime : Bytes := beBytes 8 fireAtMs.toNat

theorem encodeLeaseKey_injective {left right : InstanceId} {leftStep rightStep : StepId}
    (same : encodeLeaseKey left leftStep = encodeLeaseKey right rightStep) : left = right ∧ leftStep = rightStep := by
  rw [encodeLeaseKey_eq, encodeLeaseKey_eq] at same
  obtain ⟨ids, rest⟩ := List.append_inj same (by simp)
  obtain ⟨_, hs⟩ := List.append_inj rest (by simp)
  exact ⟨InstanceId.bytes_injective ids, Text.ext (utf8_injective hs)⟩

end Veloxide.KeyEncoding
