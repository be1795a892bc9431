import Veloxide.Library.JsonText
import Veloxide.Storage.Admission
import Veloxide.Storage.Snapshots
import Veloxide.Storage.TimerIndex

namespace Veloxide

open ByteCodec OrderedStore KeyEncoding Unsigned List Except
open InstanceId (ofUlid)

variable {status : InstanceStatus}

namespace InstanceStatus

theorem fromByte_toByte (status : InstanceStatus) : fromByte status.toByte = some status := by
  cases status <;> rfl

theorem toByte_fromByte {byte : UInt8} (hf : fromByte byte = some status) : status.toByte = byte := by
  rw [fromByte] at hf
  split_ifs at hf with pending running paused completed failed cancelled
  all_goals
    cases hf
    exact Eq.symm ‹_›

end InstanceStatus

namespace InstanceIndex

variable [Ulid]

def InstanceIndexEntry.key (entry : InstanceIndexEntry) : Bytes := indexKey entry.status entry.createdAt entry.instanceId

theorem decode_key (entry : InstanceIndexEntry) : decodeInstanceIndexKey entry.key = .ok entry := by
  have hl : entry.key.length = 25 := by simp [InstanceIndexEntry.key, indexKey]
  have hc : (entry.key.drop 1).take 8 = beBytes 8 entry.createdAt.toNat := take_left' (by simp)
  have id : (entry.key.drop 9).take 16 = entry.instanceId.bytes := by
    have rest : entry.key.drop 9 = entry.instanceId.bytes := drop_left' (by simp)
    rw [rest, take_of_length_le (by simp)]
  have status : InstanceStatus.fromByte (entry.key.headD 0) = some entry.status :=
    InstanceStatus.fromByte_toByte entry.status
  rw [decodeInstanceIndexKey, hl, status, hc, id, ofNat_beNat_beBytes, InstanceId.fromBytes_bytes]
  rfl

theorem key_of_decode {key : Bytes} {entry : InstanceIndexEntry} (hd : decodeInstanceIndexKey key = .ok entry) :
    entry.key = key := by
  by_cases hl : key.length = 25
  case neg =>
    rw [decodeInstanceIndexKey, if_pos hl] at hd
    cases hd
  rw [decodeInstanceIndexKey, if_neg (not_not.mpr hl)] at hd
  obtain ⟨status, hf, rest⟩ := bind_eq_ok.mp hd
  cases rest
  obtain ⟨byte, tail, rfl⟩ := exists_cons_of_length_pos (show 0 < key.length by omega)
  have hw : tail.length = 24 := by
    rw [length_cons] at hl
    omega
  have hi : status.toByte = byte := InstanceStatus.toByte_fromByte (Option.okOr_eq_ok.mp hf)
  have hc : beBytes 8 (UInt64.ofNat (beNat (tail.take 8))).toNat = tail.take 8 := beBytes_ofNat_beNat (by simp [hw])
  have id : (InstanceId.fromBytes ((tail.drop 8).take 16)).bytes = tail.drop 8 := by
    rw [InstanceId.bytes_fromBytes (by simp [hw]), take_of_length_le (by simp [hw])]
  simp only [InstanceIndexEntry.key, indexKey, hi, drop_succ_cons, drop_zero, hc, id, take_append_drop]

theorem key_injective {left right : InstanceIndexEntry} (same : left.key = right.key) : left = right := by
  have hd := congrArg decodeInstanceIndexKey same
  rw [decode_key, decode_key] at hd
  exact Except.ok.inj hd

variable (db : Database)

def entriesOf (instanceId : InstanceId) : List InstanceIndexEntry :=
  ((scanAllInstances db).filterMap Except.toOption).filter fun entry => entry.instanceId = instanceId

theorem mem_entriesOf {db : Database} {instanceId : InstanceId} {entry : InstanceIndexEntry} :
    entry ∈ entriesOf db instanceId ↔ (db.instances[entry.key]?).isSome ∧ entry.instanceId = instanceId := by
  have hs : entry ∈ (scanAllInstances db).filterMap Except.toOption ↔ (db.instances[entry.key]?).isSome := by
    simp only [scanAllInstances, mem_filterMap, mem_map, Option.isSome_iff_exists]
    constructor
    · intro hf
      obtain ⟨_, ⟨⟨key, value⟩, mem, rfl⟩, read⟩ := hf
      rw [key_of_decode (toOption_eq_some.mp read)]
      exact ⟨value, (mem_entries _ _ _).mp mem⟩
    · intro hf
      obtain ⟨value, held⟩ := hf
      exact ⟨.ok entry, ⟨(entry.key, value), (mem_entries _ _ _).mpr held, decode_key entry⟩, rfl⟩
  rw [entriesOf, mem_filter, hs, decide_eq_true_iff]

theorem nodup_entriesOf (inst : InstanceId) : (entriesOf db inst).Nodup := by
  have keys : scanAllInstances db = (db.instances.toList.map Prod.fst).map decodeInstanceIndexKey := by
    rw [map_map]
    rfl
  rw [entriesOf, keys, filterMap_map]
  refine ((nodup_keys db.instances).filterMap ?_).filter _
  intro first second entry left hr
  exact (key_of_decode (toOption_eq_some.mp left)).symm.trans
    (key_of_decode (toOption_eq_some.mp hr))

theorem entriesOf_eq_singleton {db : Database} {inst : InstanceId} {entry : InstanceIndexEntry} :
    entriesOf db inst = [entry] ↔ ∀ other, other ∈ entriesOf db inst ↔ other = entry := by
  constructor
  · intro only other
    rw [only, mem_singleton]
  · intro only
    have same := (perm_ext_iff_of_nodup (nodup_entriesOf db inst) (nodup_singleton entry)).mpr
      fun other => (only other).trans mem_singleton.symm
    exact perm_singleton.mp same

end InstanceIndex

namespace Suspension

open InstanceIndex Snapshots

/-- The keyspaces of a database with timers. Polling reads `timer_index`. -/
structure Keyspaces extends Database where
  timers : Store Bytes Bytes
  timerIndex : Store Bytes Bytes

section

variable [Ulid]

structure SuspendParams where
  instanceId : InstanceId
  timerId : TimerId
  fireAtMs : UInt64
  triggerTimeMs : UInt64
  durationMs : UInt64
  nowMs : UInt64
  sequenceNumber : SequenceNumber
  stateBytes : Bytes

def SuspendParams.new (instanceId : InstanceId) (timerId : TimerId)
    (fireAtMs triggerTimeMs durationMs nowMs : UInt64) (sequenceNumber : SequenceNumber) (stateBytes : Bytes) :
    Except StorageError SuspendParams :=
  if fireAtMs ≤ nowMs then .error .invalidArgument
  else if durationMs = 0 then .error .invalidArgument
  else if fireAtMs ≠ saturatingAdd triggerTimeMs durationMs then .error .invalidArgument
  else if stateBytes = [] then .error .invalidArgument
  else .ok ⟨instanceId, timerId, fireAtMs, triggerTimeMs, durationMs, nowMs, sequenceNumber, stateBytes⟩

variable (params : SuspendParams)

def SuspendParams.createdAt : TimestampMs := saturatingSub params.nowMs 1000

def SuspendParams.stateJson : Json := .array (params.stateBytes.map fun byte => Json.u64 byte.toUInt64)

def timerValue (durationMs : UInt64) : Except StorageError Bytes :=
  if durationMs = 0 then .error .invalidArgument else .ok (beBytes 8 durationMs.toNat)

def previousKeys (earlier : InstanceStatus) : Except StorageError (List Bytes) :=
  if earlier = .paused then .ok []
  else do
    let oldKey ← encodeInstanceIndexKey earlier params.createdAt params.instanceId
    return [oldKey]

variable [Uuid] [JsonCodec] [Crc32]

def atomicSuspendCommit (db : Keyspaces) (params : SuspendParams) (earlier : InstanceStatus) :
    Except StorageError Keyspaces := do
  let _ ← SuspendParams.new params.instanceId params.timerId params.fireAtMs params.triggerTimeMs params.durationMs
    params.nowMs params.sequenceNumber params.stateBytes
  let timerKey ← (TimerIndex.timerKey params.fireAtMs params.instanceId params.timerId).mapError fun _ => .invalidArgument
  let timerValue ← (timerValue params.durationMs).mapError fun _ => .invalidArgument
  let newKey ← encodeInstanceIndexKey .paused params.createdAt params.instanceId
  let oldKeys ← previousKeys params earlier
  let snapshotKey ← encodeSnapshotKey params.instanceId params.sequenceNumber.value
  let stateJson ← (JsonCodec.toVec params.stateJson).mapError fun _ => .serializationFailed
  let value ← snapshotValue params.instanceId params.sequenceNumber.value stateJson
  return { db with
    timers := db.timers.insert timerKey timerValue
    instances := commit db.instances ((newKey, some []) :: oldKeys.map fun oldKey => (oldKey, none))
    snapshots := db.snapshots.insert snapshotKey value }

end

section

variable [Ulid]

def SuspendParams.entry (params : SuspendParams) (status : InstanceStatus) : InstanceIndexEntry :=
  ⟨params.instanceId, status, params.createdAt⟩

def previousEntries (params : SuspendParams) (earlier : InstanceStatus) : List InstanceIndexEntry :=
  if earlier = .paused then [] else [params.entry earlier]

variable (params : SuspendParams) (earlier : InstanceStatus)

theorem paused_not_previous : params.entry .paused ∉ previousEntries params earlier := by
  rw [previousEntries]
  split_ifs with paused
  · exact not_mem_nil
  · intro mem
    exact paused (congrArg InstanceIndexEntry.status (mem_singleton.mp mem)).symm

variable {createdAt : TimestampMs}

theorem mem_previousEntries {params : SuspendParams} {earlier : InstanceStatus} :
    (⟨params.instanceId, status, createdAt⟩ : InstanceIndexEntry) ∈ previousEntries params earlier ↔
      createdAt = params.createdAt ∧ status = earlier ∧ earlier ≠ .paused := by
  rw [previousEntries]
  split_ifs with paused
  · simp [paused]
  · simp [paused, SuspendParams.entry, and_comm]

theorem previousKeys_eq :
    previousKeys params earlier = .ok ((previousEntries params earlier).map InstanceIndexEntry.key) := by
  rw [previousKeys, previousEntries]
  split_ifs with paused
  · rfl
  · rw [encodeInstanceIndexKey_eq]
    rfl

variable [Uuid] [JsonCodec] [Crc32]

def SuspendParams.snapshot (params : SuspendParams) : Bytes :=
  JsonCodec.bytes (SnapshotHeader.new params.instanceId params.sequenceNumber.value
    (Crc32.hash (JsonCodec.bytes params.stateJson))).toJson ++ separator :: JsonCodec.bytes params.stateJson

variable {db after : Keyspaces} {params : SuspendParams} {earlier : InstanceStatus}

theorem atomicSuspendCommit_ok (hc : atomicSuspendCommit db params earlier = .ok after) :
    after.instances = commit (db.instances.insert (params.entry .paused).key [])
        (((previousEntries params earlier).map InstanceIndexEntry.key).map fun key => (key, none)) ∧
      after.snapshots =
        db.snapshots.insert (sequenceKey params.instanceId.bytes params.sequenceNumber.value) params.snapshot ∧
      after.timerIndex = db.timerIndex := by
  obtain ⟨_, _, rest⟩ := bind_eq_ok.mp hc
  obtain ⟨timerKey, _, rest⟩ := bind_eq_ok.mp rest
  obtain ⟨timerValue, _, rest⟩ := bind_eq_ok.mp rest
  obtain ⟨newKey, new, rest⟩ := bind_eq_ok.mp rest
  obtain ⟨oldKeys, old, rest⟩ := bind_eq_ok.mp rest
  obtain ⟨snapshotKey, hk, rest⟩ := bind_eq_ok.mp rest
  obtain ⟨stateJson, hs, rest⟩ := bind_eq_ok.mp rest
  obtain ⟨value, hh, rest⟩ := bind_eq_ok.mp rest
  rw [encodeInstanceIndexKey_eq] at new
  rw [previousKeys_eq] at old
  rw [encodeSnapshotKey_eq] at hk
  rw [JsonCodec.toVec_eq] at hs
  cases new
  cases old
  cases hk
  cases hs
  rw [snapshotValue, JsonCodec.toVec_eq] at hh
  cases hh
  cases rest
  exact ⟨rfl, rfl, rfl⟩

theorem mem_entriesOf_suspended (hc : atomicSuspendCommit db params earlier = .ok after)
    (entry : InstanceIndexEntry) :
    entry ∈ entriesOf after.toDatabase params.instanceId ↔ entry ∉ previousEntries params earlier ∧
        (entry = params.entry .paused ∨ entry ∈ entriesOf db.toDatabase params.instanceId) := by
  have hr : entry.key ∈ (previousEntries params earlier).map InstanceIndexEntry.key ↔
      entry ∈ previousEntries params earlier :=
    mem_map_of_injective fun _ _ same => key_injective same
  rw [mem_entriesOf, mem_entriesOf, (atomicSuspendCommit_ok hc).1, get_commit_removals, get_insert]
  by_cases hl : entry ∈ previousEntries params earlier
  · rw [if_pos (hr.mpr hl)]
    simp [hl]
  rw [if_neg (mt hr.mp hl)]
  by_cases same : entry = params.entry .paused
  · subst same
    rw [if_pos rfl]
    exact iff_of_true ⟨rfl, rfl⟩ ⟨hl, .inl rfl⟩
  · rw [if_neg fun he => same (key_injective he).symm]
    simp [hl, same]

theorem one_paused_entry_iff
    (ha : entriesOf db.toDatabase params.instanceId = [⟨params.instanceId, status, createdAt⟩])
    (hc : atomicSuspendCommit db params earlier = .ok after) :
    (∃ time, entriesOf after.toDatabase params.instanceId = [⟨params.instanceId, .paused, time⟩]) ↔
      createdAt = params.createdAt ∧ (status = .paused ∨ status = earlier) := by
  have hm := mem_entriesOf_suspended hc
  simp only [ha, mem_singleton] at hm
  constructor
  · intro one
    obtain ⟨time, only⟩ := one
    rw [entriesOf_eq_singleton] at only
    have hb := (only _).mp ((hm _).mpr ⟨paused_not_previous params earlier, .inl rfl⟩)
    by_cases hr : ⟨params.instanceId, status, createdAt⟩ ∈ previousEntries params earlier
    · have same := mem_previousEntries.mp hr
      exact ⟨same.1, .inr same.2.1⟩
    · have kept := (only _).mp ((hm _).mpr ⟨hr, .inr rfl⟩)
      have same := kept.trans hb.symm
      exact ⟨congrArg InstanceIndexEntry.createdAt same, .inl (congrArg InstanceIndexEntry.status same)⟩
  · intro ho
    obtain ⟨rfl, hp⟩ := ho
    refine ⟨params.createdAt, entriesOf_eq_singleton.mpr fun other => (hm other).trans ⟨?_, ?_⟩⟩
    · intro hf
      obtain ⟨kept, rfl | rfl⟩ := hf
      · rfl
      · by_cases hb : status = .paused
        · rw [hb]
        · have same := hp.resolve_left hb
          exact absurd (mem_previousEntries.mpr ⟨rfl, same, same ▸ hb⟩) kept
    · intro same
      subst same
      exact ⟨paused_not_previous params earlier, .inl rfl⟩

omit [Uuid] in
theorem snapshot_refused [Ulid.Alphanumeric] [JsonCodec.Structural] :
    deserializeSnapshotValue params.snapshot = .error .deserializationFailed := by
  have hn : params.stateJson = .array ((params.stateBytes.map UInt8.toUInt64).map Json.u64) := by
    rw [map_map]
    rfl
  obtain ⟨msg, hr⟩ := InstanceState.fromSlice_numbers (params.stateBytes.map UInt8.toUInt64)
  rw [← hn] at hr
  exact deserializeSnapshotValue_refused (SnapshotHeader.bar_not_mem _) hr

theorem suspended_not_loaded [Ulid.Alphanumeric] [JsonCodec.Structural]
    (hc : atomicSuspendCommit db params earlier = .ok after) (state : InstanceState) :
    snapshotLoadLatest after.snapshots params.instanceId ≠ .ok (some (params.sequenceNumber.value, state)) := by
  intro hl
  obtain ⟨value, held, read⟩ := snapshotLoadLatest_ok hl
  rw [(atomicSuspendCommit_ok hc).2.1, Std.ExtTreeMap.getElem?_insert_self] at held
  cases held
  rw [snapshot_refused] at read
  cases read

/-- The index entry is right for one creation time only; the snapshot and the timer are never found. -/
theorem suspension_recovery [Ulid.Alphanumeric] [JsonCodec.Structural] {status : InstanceStatus}
    {createdAt : TimestampMs}
    (admitted : entriesOf db.toDatabase params.instanceId = [⟨params.instanceId, status, createdAt⟩])
    (committed : atomicSuspendCommit db params earlier = .ok after) :
    ((∃ time, entriesOf after.toDatabase params.instanceId = [⟨params.instanceId, .paused, time⟩]) ↔
        createdAt = params.createdAt ∧ (status = .paused ∨ status = earlier)) ∧ (∀ state : InstanceState,
        snapshotLoadLatest after.snapshots params.instanceId ≠ .ok (some (params.sequenceNumber.value, state))) ∧
      ∀ (instanceId : InstanceId) (nowMs : UInt64) (maxTimers : Nat),
        (TimerIndex.pollExpiredTimers after.timerIndex instanceId nowMs maxTimers).1 =
          (TimerIndex.pollExpiredTimers db.timerIndex instanceId nowMs maxTimers).1 := by
  refine ⟨one_paused_entry_iff admitted committed, suspended_not_loaded committed, ?_⟩
  intro instanceId nowMs maxTimers
  rw [(atomicSuspendCommit_ok committed).2.2]

end

section Sample

attribute [local instance] Ulid.Crockford.codec Ulid.Crockford.alphanumeric Uuid.Hyphenated.codec Json.Text.codec
  Json.Text.codec_structural Crc32.constant

def sampleAdmission : Admission.AtomicAdmitParams :=
  ⟨ofUlid 1, "order-1", 5000, 1000, .object [], .default, .running⟩

def sampleParams : SuspendParams :=
  ⟨ofUlid 1, TimerId.fromBytes (beBytes 16 7), 20010, 20000, 10, 20000, ⟨42, by decide⟩, utf8 "\x7b\x7d"⟩

def admittedDatabase : Keyspaces := match Admission.atomicAdmitWorkflow .empty sampleAdmission 1000 with
  | .ok (_, db) => ⟨db, ∅, ∅⟩
  | .error _ => ⟨.empty, ∅, ∅⟩

def suspendedDatabase : Keyspaces := match atomicSuspendCommit admittedDatabase sampleParams .running with
  | .ok db => db
  | .error _ => admittedDatabase

theorem suspension_not_recovered :
    entriesOf admittedDatabase.toDatabase (ofUlid 1) = [⟨ofUlid 1, .running, 1000⟩] ∧
      (atomicSuspendCommit admittedDatabase sampleParams .running).toOption.isSome = true ∧
      entriesOf suspendedDatabase.toDatabase (ofUlid 1) =
        [⟨ofUlid 1, .running, 1000⟩, ⟨ofUlid 1, .paused, 19000⟩] ∧
      snapshotLoadLatest suspendedDatabase.snapshots (ofUlid 1) = .error .deserializationFailed ∧
      (TimerIndex.pollExpiredTimers suspendedDatabase.timerIndex (ofUlid 1) 20010 5).1.map
        TimerIndex.TimerRecord.timerId = [] := by
  refine ⟨by decide +kernel, by decide +kernel, by decide +kernel, by decide +kernel, by decide +kernel⟩

theorem suspension_recovery_sample : atomicSuspendCommit admittedDatabase sampleParams .running = .ok suspendedDatabase ∧
    ((∃ time, entriesOf suspendedDatabase.toDatabase (ofUlid 1) = [⟨ofUlid 1, .paused, time⟩]) ↔
      (1000 : TimestampMs) = sampleParams.createdAt ∧
        (InstanceStatus.running = .paused ∨ InstanceStatus.running = .running)) := by
  have ha : entriesOf admittedDatabase.toDatabase sampleParams.instanceId =
      [⟨sampleParams.instanceId, .running, 1000⟩] := by decide +kernel
  have hc : atomicSuspendCommit admittedDatabase sampleParams .running = .ok suspendedDatabase := by
    have hs : (atomicSuspendCommit admittedDatabase sampleParams .running).toOption.isSome = true := by
      decide +kernel
    rw [suspendedDatabase]
    cases hf : atomicSuspendCommit admittedDatabase sampleParams .running with
    | error err =>
      rw [hf] at hs
      cases hs
    | ok db => rfl
  exact ⟨hc, (suspension_recovery ha hc).1⟩

end Sample

end Suspension

end Veloxide
