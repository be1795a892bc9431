import Veloxide.Library.Keyspace
import Veloxide.Storage.KeyEncoding

open List

/-- `crc32fast::hash`. -/
class Crc32 where
  hash : ByteCodec.Bytes → UInt32

@[reducible] def Crc32.constant : Crc32 := ⟨fun _ => 0⟩

namespace Veloxide

open ByteCodec OrderedStore KeyEncoding Serde

structure InstanceState where
  counter : UInt64
  binaryHash : Option String
deriving DecidableEq

namespace InstanceState

def fromJson (value : Json) : Except String InstanceState := do
  let fields ← record "InstanceState" ["counter", "binary_hash"] value
  let counter ← required fields "counter" toU64
  let binaryHash ← present fields "binary_hash" (toOption toStr)
  return ⟨counter, binaryHash.join⟩

def fromSlice [JsonCodec] (bytes : Bytes) : Except String InstanceState := JsonCodec.ofSlice bytes >>= fromJson

variable (numbers : List UInt64)

theorem fromJson_numbers : ∃ message, fromJson (.array (numbers.map Json.u64)) = .error message := by
  match numbers with
  | [] => exact ⟨_, rfl⟩
  | [_] => exact ⟨_, rfl⟩
  | [_, _] => exact ⟨_, rfl⟩
  | _ :: _ :: _ :: rest =>
    have long : ¬ (rest.map Json.u64).length + 1 + 1 + 1 < 2 := by omega
    have hl : 2 < (rest.map Json.u64).length + 1 + 1 + 1 := by omega
    simp only [fromJson, record, map_cons, length_cons, length_nil, Nat.zero_add, Nat.reduceAdd, if_neg long, if_pos hl]
    exact ⟨_, rfl⟩

theorem fromSlice_numbers [JsonCodec] :
    ∃ message, fromSlice (JsonCodec.bytes (.array (numbers.map Json.u64))) = .error message := by
  obtain ⟨other, hp, same⟩ := JsonCodec.ofSlice_bytes (.array (numbers.map Json.u64))
  rw [fromSlice, hp, same.numbers_right]
  exact fromJson_numbers numbers

end InstanceState

section

variable [Ulid]

structure SnapshotHeader where
  version : UInt16
  sequenceNumber : UInt64
  instanceId : InstanceId
  checksum : UInt32

namespace SnapshotHeader

def new (instanceId : InstanceId) (sequenceNumber : UInt64) (checksum : UInt32) : SnapshotHeader where
  version := 1
  sequenceNumber := sequenceNumber
  instanceId := instanceId
  checksum := checksum

variable (header : SnapshotHeader)

def toJson : Json :=
  .object [("version", Json.u64 header.version.toUInt64), ("sequence_number", Json.u64 header.sequenceNumber),
    ("instance_id", .string header.instanceId.text), ("checksum", Json.u64 header.checksum.toUInt64)]

def fromJson (value : Json) : Except String SnapshotHeader := do
  let fields ← record "SnapshotHeader" ["version", "sequence_number", "instance_id", "checksum"] value
  let version ← required fields "version" toU16
  let sequenceNumber ← required fields "sequence_number" toU64
  let instanceId ← required fields "instance_id" InstanceId.fromJson
  let checksum ← required fields "checksum" toU32
  return { version, sequenceNumber, instanceId, checksum }

def fromSlice [JsonCodec] (bytes : Bytes) : Except String SnapshotHeader := JsonCodec.ofSlice bytes >>= fromJson

theorem bar_not_mem [Ulid.Alphanumeric] [JsonCodec] [JsonCodec.Structural] : 124 ∉ JsonCodec.bytes header.toJson := by
  intro mem
  obtain ⟨c, code, hf⟩ := JsonCodec.ascii_of_mem_bytes mem (by decide)
  have bar : c = '|' := Char.toNat_inj.mp code
  subst bar
  rcases hf with hs | mentioned
  · exact absurd hs (by decide)
  cases mentioned with
  | name mem hi =>
    have hn : '|' ∉ ["version", "sequence_number", "instance_id", "checksum"].flatMap String.toList := by decide
    exact hn (mem_flatMap.mpr ⟨_, mem_map_of_mem mem, hi⟩)
  | field mem hi =>
    simp only [mem_cons, not_mem_nil, or_false] at mem
    rcases mem with rfl | rfl | rfl | rfl
    · cases hi
    · cases hi
    · cases hi with
      | string hl =>
        obtain ⟨ulid, text⟩ := header.instanceId.canonical
        rw [text] at hl
        exact absurd (Ulid.Alphanumeric.isAlphanum_toText ulid _ hl) (by decide)
    · cases hi

end SnapshotHeader

end

namespace Snapshots

def separator : UInt8 := 124

variable [Ulid] (instanceId : InstanceId) (sequence : UInt64)

def encodeSnapshotKey : Except StorageError Bytes := do
  let idBytes ← instanceId.toBytes.mapError fun _ => .corruptKey
  return sequenceKey idBytes sequence

theorem encodeSnapshotKey_eq : encodeSnapshotKey instanceId sequence = .ok (sequenceKey instanceId.bytes sequence) := by
  rw [encodeSnapshotKey, instanceId.toBytes_eq]
  rfl

def decodeSnapshotKey (key : Bytes) : Except StorageError (InstanceId × UInt64) :=
  if key.length ≠ 24 then .error .invalidKey
  else .ok (InstanceId.fromBytes (key.take 16), UInt64.ofNat (beNat (key.drop 16)))

theorem decodeSnapshotKey_ok {instanceId other : InstanceId} {key : Bytes} {sequence : UInt64}
    (hs : instanceId.bytes <+: key) (hd : decodeSnapshotKey key = .ok (other, sequence)) :
    key = sequenceKey instanceId.bytes sequence := by
  rw [decodeSnapshotKey] at hd
  split_ifs at hd with length
  cases hd
  obtain ⟨rest, rfl⟩ := hs
  have hw : rest.length = 8 := by
    simp only [length_append, InstanceId.length_bytes] at length
    omega
  rw [drop_left' (by simp), sequenceKey, beBytes_ofNat_beNat hw]

variable [JsonCodec] [Crc32]

def snapshotValue (instanceId : InstanceId) (sequence : UInt64) (stateJson : Bytes) : Except StorageError Bytes := do
  let header := SnapshotHeader.new instanceId sequence (Crc32.hash stateJson)
  let headerBytes ← (JsonCodec.toVec header.toJson).mapError fun _ => .serializationFailed
  return headerBytes ++ separator :: stateJson

def deserializeSnapshotValue (value : Bytes) : Except StorageError InstanceState :=
  match value.findIdx? (· = separator) with
  | some position => do
    let stateJson := (value.drop position).drop 1
    let header ← (SnapshotHeader.fromSlice (value.take position)).mapError fun _ => .deserializationFailed
    if Crc32.hash stateJson ≠ header.checksum then throw .deserializationFailed
    (InstanceState.fromSlice stateJson).mapError fun _ => .deserializationFailed
  | none => (InstanceState.fromSlice value).mapError fun _ => .deserializationFailed

def snapshotLoadLatest (partition : Store Bytes Bytes) (instanceId : InstanceId) :
    Except StorageError (Option (UInt64 × InstanceState)) := do
  let start ← instanceId.toBytes.mapError fun _ => .corruptKey
  match (prefixScan partition start).getLast? with
  | none => return none
  | some (key, value) =>
    let (_, sequence) ← decodeSnapshotKey key
    let state ← deserializeSnapshotValue value
    return some (sequence, state)

theorem snapshotLoadLatest_ok {part : Store Bytes Bytes} {instanceId : InstanceId} {sequence : UInt64}
    {state : InstanceState} (hl : snapshotLoadLatest part instanceId = .ok (some (sequence, state))) :
    ∃ value, part[sequenceKey instanceId.bytes sequence]? = some value ∧
      deserializeSnapshotValue value = .ok state := by
  obtain ⟨start, hb, rest⟩ := Except.bind_eq_ok.mp hl
  rw [instanceId.toBytes_eq] at hb
  cases hb
  cases last : (prefixScan part instanceId.bytes).getLast? with
  | none =>
    rw [last] at rest
    cases rest
  | some entry =>
    obtain ⟨key, value⟩ := entry
    rw [last] at rest
    obtain ⟨⟨other, found⟩, he, rest⟩ := Except.bind_eq_ok.mp rest
    obtain ⟨read, hd, rest⟩ := Except.bind_eq_ok.mp rest
    cases rest
    obtain ⟨held, hs⟩ := (mem_prefixScan part _ key value).mp (mem_of_getLast? last)
    exact ⟨value, decodeSnapshotKey_ok hs he ▸ held, hd⟩

omit [Ulid] [JsonCodec] [Crc32] in
theorem findIdx_separator_eq_none {bytes : Bytes} (hp : separator ∉ bytes) : bytes.findIdx? (· = separator) = none := by
  rw [findIdx?_eq_none_iff]
  intro byte mem
  exact decide_eq_false fun same => hp (same ▸ mem)

variable {header : Bytes}

omit [Ulid] [JsonCodec] [Crc32] in
theorem findIdx_separator (hp : separator ∉ header) (stateJson : Bytes) :
    (header ++ separator :: stateJson).findIdx? (· = separator) = some header.length := by
  rw [findIdx?_append, findIdx_separator_eq_none hp]
  simp [findIdx?_cons]

theorem deserializeSnapshotValue_refused {stateJson : Bytes} {msg : String} (hp : separator ∉ header)
    (hr : InstanceState.fromSlice stateJson = .error msg) :
    deserializeSnapshotValue (header ++ separator :: stateJson) = .error .deserializationFailed := by
  simp only [deserializeSnapshotValue, findIdx_separator hp, take_left, drop_left, drop_one, tail_cons]
  cases read : SnapshotHeader.fromSlice header with
  | error err => rfl
  | ok dec =>
    by_cases hm : Crc32.hash stateJson = dec.checksum
    · simp [hm, hr, Except.mapError, bind, Except.bind]
    · simp [hm, Except.mapError, bind, Except.bind, throw, throwThe, MonadExceptOf.throw]

end Snapshots

end Veloxide
