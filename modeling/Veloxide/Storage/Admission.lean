import Veloxide.Storage.Dedupe
import Veloxide.Types.Envelope

namespace Veloxide

open ByteCodec OrderedStore KeyEncoding Unsigned Except

inductive InstanceStatus
  | pending
  | running
  | paused
  | completed
  | failed
  | cancelled
deriving DecidableEq

namespace InstanceStatus

def toByte : InstanceStatus → UInt8
  | pending => 1
  | running => 2
  | paused => 3
  | completed => 4
  | failed => 5
  | cancelled => 6

def fromByte (byte : UInt8) : Option InstanceStatus := if byte = 1 then some pending
  else if byte = 2 then some running
  else if byte = 3 then some paused
  else if byte = 4 then some completed
  else if byte = 5 then some failed
  else if byte = 6 then some cancelled
  else none

end InstanceStatus

structure Database where
  events : Store Bytes Bytes
  instances : Store Bytes Bytes
  dedupe : Store Bytes Bytes
  snapshots : Store Bytes Bytes

def Database.empty : Database := ⟨∅, ∅, ∅, ∅⟩

namespace InstanceIndex

variable [Ulid]

structure InstanceIndexEntry where
  instanceId : InstanceId
  status : InstanceStatus
  createdAt : TimestampMs
deriving DecidableEq

variable (status : InstanceStatus) (createdAt : TimestampMs)

def encodeInstanceIndexKey (instanceId : InstanceId) : Except StorageError Bytes := do
  let idBytes ← instanceId.toBytes.mapError fun _ => .corruptKey
  return status.toByte :: (beBytes 8 createdAt.toNat ++ idBytes)

def indexKey (instanceId : InstanceId) : Bytes := status.toByte :: (beBytes 8 createdAt.toNat ++ instanceId.bytes)

theorem encodeInstanceIndexKey_eq (inst : InstanceId) :
    encodeInstanceIndexKey status createdAt inst = .ok (indexKey status createdAt inst) := by
  rw [encodeInstanceIndexKey, inst.toBytes_eq]
  rfl

def decodeInstanceIndexKey (bytes : Bytes) : Except StorageError InstanceIndexEntry := do
  if bytes.length ≠ 25 then throw .corruptKey
  let status ← (InstanceStatus.fromByte (bytes.headD 0)).okOr .corruptKey
  let createdAt := UInt64.ofNat (beNat ((bytes.drop 1).take 8))
  let instanceId := InstanceId.fromBytes ((bytes.drop 9).take 16)
  return ⟨instanceId, status, createdAt⟩

def scanAllInstances (db : Database) : List (Except StorageError InstanceIndexEntry) :=
  db.instances.toList.map fun entry => decodeInstanceIndexKey entry.1

end InstanceIndex

namespace Admission

inductive AtomicAdmitResult
  | admitted
  | duplicate (instanceId : String)
deriving DecidableEq

inductive AdmissionCommitError
  | dedupe (failure : Dedupe.DedupeStoreError)
  | storage (failure : StorageError)
  | batchCommitFailed
  | serializationFailed
  | invalidDedupeKey (reason : String)
deriving DecidableEq

section

variable [JsonCodec] (envelope : EventEnvelope)

def encodeEventJson : Except AdmissionCommitError Bytes :=
  (JsonCodec.toVec envelope.toJson).mapError fun _ => .serializationFailed

theorem encodeEventJson_eq : encodeEventJson envelope = .ok (JsonCodec.bytes envelope.toJson) := by
  rw [encodeEventJson, JsonCodec.toVec_eq]
  rfl

end

variable [Ulid]

structure AtomicAdmitParams where
  instanceId : InstanceId
  dedupeKeyStr : String
  dedupeTtlMs : UInt64
  timestampMs : UInt64
  eventPayload : Json
  eventMetadata : EventMetadata
  initialStatus : InstanceStatus

def buildEventKey (instanceId : InstanceId) (sequence : UInt64) : Except StorageError Bytes := do
  let idBytes ← instanceId.toBytes.mapError fun _ => .corruptKey
  return sequenceKey idBytes sequence

theorem buildEventKey_eq (inst : InstanceId) (seq : UInt64) :
    buildEventKey inst seq = .ok (sequenceKey inst.bytes seq) := by
  rw [buildEventKey, inst.toBytes_eq]
  rfl

def nextSequence (events : Store Bytes Bytes) (instanceId : InstanceId) : Except StorageError UInt64 := do
  let start ← buildEventKey instanceId 1
  let last ← buildEventKey instanceId (UInt64.ofNat (2 ^ 64 - 1))
  match (rangeScan events start last).getLast? with
  | some (key, _) =>
    let seqBytes := key.drop (key.length - 8)
    if seqBytes.length ≠ 8 then throw .corruptKey
    (checkedSucc (UInt64.ofNat (beNat seqBytes))).okOr .sequenceGap
  | none => return 1

def liveEntry (db : Database) (dedupeKey : DedupeKey) (nowMs : UInt64) :
    Except AdmissionCommitError (Option Dedupe.DedupeEntry) :=
  match db.dedupe[Dedupe.encodeDedupeKey dedupeKey]? with
  | none => .ok none
  | some existing => do
    let entry ← (Dedupe.decodeDedupeEntry existing).mapError .dedupe
    return if entry.isExpired nowMs then none else some entry

def envelopeFromParams (params : AtomicAdmitParams) (sequence : UInt64) : EventEnvelope where
  schemaVersion := 1
  instanceId := params.instanceId.text
  sequence := sequence
  timestampMs := params.timestampMs
  payload := params.eventPayload
  metadata := params.eventMetadata

variable [JsonCodec]

def atomicAdmitWorkflow (db : Database) (params : AtomicAdmitParams) (nowMs : UInt64) :
    Except AdmissionCommitError (AtomicAdmitResult × Database) := do
  let dedupeKey ← (Text.parse DedupeKey.validate params.dedupeKeyStr).mapError fun failure =>
    .invalidDedupeKey failure.toText
  match ← liveEntry db dedupeKey nowMs with
  | some entry => return (.duplicate entry.instanceId, db)
  | none =>
    let sequence ← (nextSequence db.events params.instanceId).mapError .storage
    let envelope := envelopeFromParams params sequence
    let dedupeEntry ← (Dedupe.DedupeEntry.new dedupeKey.value params.instanceId.text
      (saturatingAdd nowMs params.dedupeTtlMs)).mapError .dedupe
    let dedupeValue ← (Dedupe.encodeDedupeEntry dedupeEntry).mapError .dedupe
    let eventKey ← (buildEventKey params.instanceId sequence).mapError .storage
    let eventValue ← encodeEventJson envelope
    let instanceKey ← (InstanceIndex.encodeInstanceIndexKey params.initialStatus params.timestampMs
      params.instanceId).mapError .storage
    return (.admitted, { db with
      dedupe := db.dedupe.insert (Dedupe.encodeDedupeKey dedupeKey) dedupeValue
      events := db.events.insert eventKey eventValue
      instances := db.instances.insert instanceKey [] })

def written (db : Database) (params : AtomicAdmitParams) (nowMs : UInt64) (dedupeKey : DedupeKey)
    (sequence : UInt64) : Database := { db with
  dedupe := db.dedupe.insert (Dedupe.encodeDedupeKey dedupeKey)
    (Dedupe.stored dedupeKey ⟨params.instanceId, params.dedupeTtlMs, nowMs⟩)
  events := db.events.insert (sequenceKey params.instanceId.bytes sequence)
    (JsonCodec.bytes (envelopeFromParams params sequence).toJson)
  instances := db.instances.insert
    (InstanceIndex.indexKey params.initialStatus params.timestampMs params.instanceId) [] }

section

variable {db after : Database} {params : AtomicAdmitParams} {nowMs : UInt64}

theorem atomicAdmitWorkflow_duplicate {owner : String}
    (ok : atomicAdmitWorkflow db params nowMs = .ok (.duplicate owner, after)) : after = db := by
  obtain ⟨dkey, _, rest⟩ := bind_eq_ok.mp ok
  obtain ⟨found, _, rest⟩ := bind_eq_ok.mp rest
  cases found with
  | some entry =>
    cases rest
    rfl
  | none =>
    obtain ⟨seq, _, rest⟩ := bind_eq_ok.mp rest
    obtain ⟨dedupeEntry, _, rest⟩ := bind_eq_ok.mp rest
    obtain ⟨dedupeValue, _, rest⟩ := bind_eq_ok.mp rest
    obtain ⟨eventKey, _, rest⟩ := bind_eq_ok.mp rest
    obtain ⟨eventValue, _, rest⟩ := bind_eq_ok.mp rest
    obtain ⟨instanceKey, _, rest⟩ := bind_eq_ok.mp rest
    cases rest

theorem atomicAdmitWorkflow_admitted (ok : atomicAdmitWorkflow db params nowMs = .ok (.admitted, after)) :
    ∃ dkey sequence, Text.parse DedupeKey.validate params.dedupeKeyStr = .ok dkey ∧
      liveEntry db dkey nowMs = .ok none ∧ nextSequence db.events params.instanceId = .ok sequence ∧
      after = written db params nowMs dkey sequence := by
  obtain ⟨dkey, hp, rest⟩ := bind_eq_ok.mp ok
  obtain ⟨found, live, rest⟩ := bind_eq_ok.mp rest
  cases found with
  | some entry => cases rest
  | none =>
    obtain ⟨sequence, next, rest⟩ := bind_eq_ok.mp rest
    obtain ⟨dedupeEntry, new, rest⟩ := bind_eq_ok.mp rest
    obtain ⟨dedupeValue, hd, rest⟩ := bind_eq_ok.mp rest
    obtain ⟨eventKey, hb, rest⟩ := bind_eq_ok.mp rest
    obtain ⟨eventValue, he, rest⟩ := bind_eq_ok.mp rest
    obtain ⟨instanceKey, hi, rest⟩ := bind_eq_ok.mp rest
    have hv := (Dedupe.encode_new dkey ⟨params.instanceId, params.dedupeTtlMs, nowMs⟩).symm.trans
      (bind_eq_ok.mpr ⟨dedupeEntry, mapError_eq_ok.mp new, mapError_eq_ok.mp hd⟩)
    rw [buildEventKey_eq] at hb
    rw [encodeEventJson_eq] at he
    rw [InstanceIndex.encodeInstanceIndexKey_eq] at hi
    cases hv
    cases hb
    cases he
    cases hi
    cases rest
    exact ⟨dkey, sequence, mapError_eq_ok.mp hp, live, mapError_eq_ok.mp next, rfl⟩

theorem atomicAdmitWorkflow_ok {result : AtomicAdmitResult}
    (ok : atomicAdmitWorkflow db params nowMs = .ok (result, after)) : (result ≠ .admitted ∧ after = db) ∨
      result = .admitted ∧ ∃ seq, nextSequence db.events params.instanceId = .ok seq ∧
        after.events = db.events.insert (sequenceKey params.instanceId.bytes seq)
          (JsonCodec.bytes (envelopeFromParams params seq).toJson) := by
  cases result with
  | duplicate owner => exact .inl ⟨by simp, atomicAdmitWorkflow_duplicate ok⟩
  | admitted =>
    obtain ⟨dkey, seq, _, _, next, same⟩ := atomicAdmitWorkflow_admitted ok
    exact .inr ⟨rfl, seq, next, by rw [same]; rfl⟩

end

end Admission

end Veloxide
