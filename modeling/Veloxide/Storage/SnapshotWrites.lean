import Veloxide.Library.JsonText
import Veloxide.Storage.SnapshotCompaction

namespace Veloxide

open ByteCodec OrderedStore KeyEncoding Serde List Except

namespace InstanceState

variable (state : InstanceState)

def toJson : Json :=
  .object (("counter", Json.u64 state.counter) :: (state.binaryHash.map fun hash => ("binary_hash", .string hash)).toList)

theorem fromJson_same {state : InstanceState} {other : Json} (same : state.toJson.Same other) :
    fromJson other = .ok state := by
  obtain ⟨right, rfl, hr⟩ := same.object_right
  have counter : required right "counter" toU64 = .ok state.counter :=
    required_related hr (by simp [Json.lookup_cons]) fun _ same => toU64_related _ same
  cases state with
  | mk number hash =>
    cases hash with
    | none =>
      have ha : Json.lookup right "binary_hash" = none := lookup_none_related hr (by simp [Json.lookup_cons])
      exact bind_eq_ok.mpr ⟨right, rfl, bind_eq_ok.mpr ⟨_, counter, by rw [present, ha]; rfl⟩⟩
    | some text =>
      have hash : present right "binary_hash" (toOption toStr) = .ok (some (some text)) :=
        present_related hr (show Json.lookup _ "binary_hash" = some (.string text) by simp [Json.lookup_cons])
          fun _ same => by rw [same.string_right]; rfl
      exact bind_eq_ok.mpr ⟨right, rfl, bind_eq_ok.mpr ⟨_, counter, by rw [hash]; rfl⟩⟩

theorem fromSlice_bytes [JsonCodec] : fromSlice (JsonCodec.bytes state.toJson) = .ok state := by
  obtain ⟨other, hp, same⟩ := JsonCodec.ofSlice_bytes state.toJson
  rw [fromSlice, hp]
  exact fromJson_same same

theorem bar_not_mem [JsonCodec] [JsonCodec.Structural] {state : InstanceState}
    (hp : ∀ hash ∈ state.binaryHash, '|' ∉ hash.toList) : Snapshots.separator ∉ JsonCodec.bytes state.toJson := by
  intro mem
  obtain ⟨c, code, ho⟩ := JsonCodec.ascii_of_mem_bytes mem (by decide)
  have bar : c = '|' := Char.toNat_inj.mp code
  subst bar
  rcases ho with hs | mentioned
  · exact absurd hs (by decide)
  have hf : ∀ field ∈ ("counter", Json.u64 state.counter) ::
      (state.binaryHash.map fun hash => ("binary_hash", Json.string hash)).toList,
      '|' ∉ field.1.toList ∧ ¬ field.2.Mentions '|' := by
    intro field hl
    rcases mem_cons.mp hl with rfl | hashed
    · exact ⟨(by decide : '|' ∉ "counter".toList), fun mentioned => by cases mentioned⟩
    · obtain ⟨hash, ho, rfl⟩ := Option.map_eq_some_iff.mp (Option.mem_toList.mp hashed)
      refine ⟨(by decide : '|' ∉ "binary_hash".toList), fun mentioned => ?_⟩
      cases mentioned with
      | string hi => exact hp hash ho hi
  cases mentioned with
  | name hl hi => exact (hf _ hl).1 hi
  | field hl hi => exact (hf _ hl).2 hi

end InstanceState

namespace SnapshotHeader

variable [Ulid] [JsonCodec]

theorem fromSlice_bytes (header : SnapshotHeader) : fromSlice (JsonCodec.bytes header.toJson) =
    (InstanceId.fromJson (.string header.instanceId.text)).map fun instanceId => { header with instanceId } := by
  obtain ⟨other, hp, same⟩ := JsonCodec.ofSlice_bytes header.toJson
  obtain ⟨right, rfl, hr⟩ := same.object_right
  have version : required right "version" toU16 = .ok header.version := required_related hr
      (show Json.lookup _ "version" = some (Json.u64 header.version.toUInt64) by simp [Json.lookup_cons])
      fun _ same => by
        rw [toU16, toUnsigned_related (by simpa using header.version.toNat_lt) same]
        exact congrArg Except.ok (UInt16.toUInt16_toUInt64 _)
  have hs : required right "sequence_number" toU64 = .ok header.sequenceNumber :=
    required_related hr (by simp [Json.lookup_cons]) fun _ same => toU64_related _ same
  have checksum : required right "checksum" toU32 = .ok header.checksum := required_related hr
      (show Json.lookup _ "checksum" = some (Json.u64 header.checksum.toUInt64) by simp [Json.lookup_cons])
      fun _ same => by
        rw [toU32, toUnsigned_related (by simpa using header.checksum.toNat_lt) same]
        exact congrArg Except.ok (UInt32.toUInt32_toUInt64 _)
  obtain ⟨id, hf, hi⟩ := lookup_related hr
    (show Json.lookup _ "instance_id" = some (.string header.instanceId.text) by simp [Json.lookup_cons])
  rw [hi.string_right] at hf
  have instanceId : required right "instance_id" InstanceId.fromJson =
      InstanceId.fromJson (.string header.instanceId.text) := by
    rw [required, hf]
    rfl
  rw [fromSlice, hp]
  simp only [fromJson, record, version, hs, instanceId, checksum, bind, Except.bind]
  cases InstanceId.fromJson (.string header.instanceId.text) with
  | error msg | ok id => rfl

variable {header : SnapshotHeader}

theorem fromSlice_proper (hp : ¬ header.instanceId.IsNil) : fromSlice (JsonCodec.bytes header.toJson) = .ok header := by
  rw [fromSlice_bytes, InstanceId.fromJson_text hp]
  rfl

theorem fromSlice_nil (nil : header.instanceId.IsNil) :
    ∃ message, fromSlice (JsonCodec.bytes header.toJson) = .error message := by
  obtain ⟨message, refused⟩ := InstanceId.fromJson_nil nil
  exact ⟨message, by rw [fromSlice_bytes, refused]; rfl⟩

end SnapshotHeader

namespace Snapshots

section

variable [Ulid] [JsonCodec] [Crc32]

def writeSnapshot (batch : List (Write Bytes Bytes)) (instanceId : InstanceId) (sequence : UInt64)
    (state : InstanceState) : Except StorageError (List (Write Bytes Bytes)) := do
  let key ← encodeSnapshotKey instanceId sequence
  let stateJson ← (JsonCodec.toVec state.toJson).mapError fun _ => .serializationFailed
  let value ← snapshotValue instanceId sequence stateJson
  return batch ++ [(key, some value)]

variable (partition : Store Bytes Bytes)

def writeSnapshotAtomic (instanceId : InstanceId) (sequence : UInt64) (state : InstanceState) :
    Except StorageError Unit × Store Bytes Bytes :=
  match writeSnapshot [] instanceId sequence state with
  | .error failure => (.error failure, partition)
  | .ok batch => (.ok (), commit partition batch)

def snapshotWrite (instanceId : InstanceId) (sequence : UInt64) (state : InstanceState) :
    Except StorageError Unit × Store Bytes Bytes :=
  match encodeSnapshotKey instanceId sequence with
  | .error failure => (.error failure, partition)
  | .ok key =>
    match JsonCodec.toVec state.toJson with
    | .error _ => (.error .serializationFailed, partition)
    | .ok stateJson => (.ok (), partition.insert key stateJson)

structure SnapshotWrite where
  headed : Bool
  instanceId : InstanceId
  sequence : UInt64
  state : InstanceState

namespace SnapshotWrite

def apply (write : SnapshotWrite) (partition : Store Bytes Bytes) : Except StorageError Unit × Store Bytes Bytes :=
  if write.headed then writeSnapshotAtomic partition write.instanceId write.sequence write.state
  else snapshotWrite partition write.instanceId write.sequence write.state

def run (partition : Store Bytes Bytes) (writes : List SnapshotWrite) : Store Bytes Bytes :=
  writes.foldl (fun partition write => (write.apply partition).2) partition

def IsLatest (writes : List SnapshotWrite) (write : SnapshotWrite) : Prop :=
  ∃ before after, writes = before ++ write :: after ∧
    (∀ other ∈ before, other.instanceId = write.instanceId → other.sequence ≤ write.sequence) ∧
    ∀ other ∈ after, other.instanceId = write.instanceId → other.sequence < write.sequence

def key (write : SnapshotWrite) : Bytes := sequenceKey write.instanceId.bytes write.sequence

def value (write : SnapshotWrite) : Bytes := let stateJson := JsonCodec.bytes write.state.toJson
  if write.headed then
    JsonCodec.bytes (SnapshotHeader.new write.instanceId write.sequence (Crc32.hash stateJson)).toJson ++
      separator :: stateJson
  else stateJson

end SnapshotWrite

end

section

variable [Ulid] [JsonCodec] [Crc32] {writes : List SnapshotWrite}

namespace SnapshotWrite

theorem apply_eq (write : SnapshotWrite) (partition : Store Bytes Bytes) :
    write.apply partition = (.ok (), partition.insert write.key write.value) := by
  rw [apply, value]
  cases write.headed with
  | true =>
    simp only [↓reduceIte, writeSnapshotAtomic, writeSnapshot, encodeSnapshotKey_eq, JsonCodec.toVec_eq, snapshotValue]
    rfl
  | false =>
    simp only [Bool.false_eq_true, ↓reduceIte, snapshotWrite, encodeSnapshotKey_eq, JsonCodec.toVec_eq]
    rfl

theorem run_append (partition : Store Bytes Bytes) (first second : List SnapshotWrite) :
    run partition (first ++ second) = run (run partition first) second := foldl_append

theorem run_cons (partition : Store Bytes Bytes) (write : SnapshotWrite) (rest : List SnapshotWrite) :
    run partition (write :: rest) = run (partition.insert write.key write.value) rest := by
  rw [run, foldl_cons, apply_eq]
  rfl

omit [JsonCodec] [Crc32] in
theorem key_inj {left right : SnapshotWrite} :
    left.key = right.key ↔ left.instanceId = right.instanceId ∧ left.sequence = right.sequence := by
  constructor
  · intro same
    obtain ⟨ids, hs⟩ := append_inj same (by simp)
    exact ⟨InstanceId.bytes_injective ids, beBytes_inj.mp hs⟩
  · rintro ⟨ids, hs⟩
    rw [key, key, ids, hs]

theorem written_of_get {key found : Bytes} (held : (run ∅ writes)[key]? = some found) :
    ∃ write ∈ writes, write.key = key ∧ write.value = found := by
  induction writes using List.reverseRecOn generalizing found with
  | nil => simp [run] at held
  | append_singleton writes write ih =>
    rw [run_append, run_cons, run, foldl_nil, get_insert] at held
    split_ifs at held with same
    · cases held
      exact ⟨write, by simp, same, rfl⟩
    · obtain ⟨other, mem, found⟩ := ih held
      exact ⟨other, mem_append_left _ mem, found⟩

def partition (writes : List SnapshotWrite) : SnapshotPartition where
  entries := run ∅ writes
  keyed := by
    intro key value held
    obtain ⟨write, _, same, _⟩ := written_of_get held
    exact ⟨write.instanceId, write.sequence, same.symm⟩

theorem get_run_of_ne {key : Bytes} (ho : ∀ write ∈ writes, write.key ≠ key) (partition : Store Bytes Bytes) :
    (run partition writes)[key]? = partition[key]? := by
  induction writes generalizing partition with
  | nil => rfl
  | cons write writes ih =>
    rw [run_cons, ih fun other mem => ho other (mem_cons_of_mem _ mem), get_insert_of_ne _ (ho write mem_cons_self)]

end SnapshotWrite

namespace SnapshotWrite

theorem loadLatest_run {write : SnapshotWrite} (hl : IsLatest writes write) :
    snapshotLoadLatest (run ∅ writes) write.instanceId =
      (deserializeSnapshotValue write.value).map fun state => some (write.sequence, state) := by
  obtain ⟨before, after, rfl, he, ha⟩ := hl
  have held : (run ∅ (before ++ write :: after))[write.key]? = some write.value := by
    have ho : ∀ other ∈ after, other.key ≠ write.key := by
      intro other mem same
      obtain ⟨ids, hs⟩ := key_inj.mp same
      exact absurd hs (UInt64.ne_of_lt (ha other mem ids))
    rw [run_append, run_cons, get_run_of_ne ho, get_insert, if_pos rfl]
  have hh : ∀ seq found,
      (run ∅ (before ++ write :: after))[sequenceKey write.instanceId.bytes seq]? = some found →
        seq ≤ write.sequence := by
    intro seq found ht
    obtain ⟨other, mem, same, _⟩ := written_of_get ht
    obtain ⟨ids, rfl⟩ := (@key_inj _ other ⟨true, write.instanceId, seq, write.state⟩).mp same
    rcases mem_append.mp mem with hb | late
    · exact he other hb ids
    · rcases mem_cons.mp late with rfl | late
      · exact UInt64.le_refl _
      · exact UInt64.le_of_lt (ha other late ids)
  have last : (prefixScan (run ∅ (before ++ write :: after)) write.instanceId.bytes).getLast? =
      some (write.key, write.value) := getLast_prefixScan (partition (before ++ write :: after)) held hh
  have hd : decodeSnapshotKey write.key = .ok (write.instanceId, write.sequence) := by
    rw [decodeSnapshotKey, if_neg (by simp [key, sequenceKey]), key, sequence_of_key, sequenceKey,
      take_left' write.instanceId.length_bytes, InstanceId.fromBytes_bytes]
  simp only [snapshotLoadLatest, write.instanceId.toBytes_eq, Except.mapError, bind, Except.bind, last, hd]
  cases deserializeSnapshotValue write.value with
  | error err | ok state => rfl

variable {write : SnapshotWrite}

theorem value_headed (hh : write.headed = true) : ∃ header : SnapshotHeader,
    header.instanceId = write.instanceId ∧ header.checksum = Crc32.hash (JsonCodec.bytes write.state.toJson) ∧
      write.value = JsonCodec.bytes header.toJson ++ separator :: JsonCodec.bytes write.state.toJson := by
  refine ⟨.new write.instanceId write.sequence (Crc32.hash (JsonCodec.bytes write.state.toJson)), rfl, rfl, ?_⟩
  rw [value, if_pos hh]

variable [JsonCodec.Structural]

theorem deserialize_headed [Ulid.Alphanumeric] (hh : write.headed = true) : deserializeSnapshotValue write.value =
    if write.instanceId.IsNil then .error .deserializationFailed else .ok write.state := by
  obtain ⟨header, ho, hc, hv⟩ := value_headed hh
  simp only [hv, deserializeSnapshotValue, findIdx_separator header.bar_not_mem, take_left, drop_left,
    drop_one, tail_cons]
  by_cases nil : write.instanceId.IsNil
  · obtain ⟨msg, hr⟩ := SnapshotHeader.fromSlice_nil (ho ▸ nil)
    rw [hr, if_pos nil]
    rfl
  · rw [SnapshotHeader.fromSlice_proper (ho ▸ nil), if_neg nil, InstanceState.fromSlice_bytes]
    simp only [Except.mapError, bind, Except.bind, hc, ne_eq, not_true_eq_false, ↓reduceIte]

theorem deserialize_plain (hh : write.headed = false) (hp : ∀ hash ∈ write.state.binaryHash, '|' ∉ hash.toList) :
    deserializeSnapshotValue write.value = .ok write.state := by
  have hv : write.value = JsonCodec.bytes write.state.toJson := by
    rw [SnapshotWrite.value, if_neg (by rw [hh]; decide)]
  rw [hv, deserializeSnapshotValue, findIdx_separator_eq_none (InstanceState.bar_not_mem hp)]
  simp only [InstanceState.fromSlice_bytes]
  rfl

end SnapshotWrite

end

open SnapshotWrite

/-- Compaction keeps the newest snapshots, and the latest is loaded if it is not mistaken for the other format. -/
theorem snapshots_retained [Ulid] [Ulid.Alphanumeric] [JsonCodec] [JsonCodec.Structural] [Crc32] :
    (∀ (partition : SnapshotPartition) (instanceId : InstanceId) (keepLastN : UInt64), 1 ≤ keepLastN →
      (snapshotsOf partition.entries instanceId).Pairwise (fun first second => first.1 < second.1) ∧
      snapshotsOf (compactSnapshots partition.entries instanceId keepLastN).2 instanceId =
        (snapshotsOf partition.entries instanceId).drop
          ((snapshotsOf partition.entries instanceId).length - keepLastN.toNat) ∧ (∀ key, ¬ instanceId.bytes <+: key →
        (compactSnapshots partition.entries instanceId keepLastN).2[key]? = partition.entries[key]?) ∧
      snapshotLoadLatest (compactSnapshots partition.entries instanceId keepLastN).2 instanceId =
        snapshotLoadLatest partition.entries instanceId) ∧
    ∀ (writes : List SnapshotWrite) (write : SnapshotWrite), IsLatest writes write → (write.headed = true →
        (snapshotLoadLatest (run ∅ writes) write.instanceId = .ok (some (write.sequence, write.state)) ↔
          ¬ write.instanceId.IsNil)) ∧ (write.headed = false → (∀ hash ∈ write.state.binaryHash, '|' ∉ hash.toList) →
        snapshotLoadLatest (run ∅ writes) write.instanceId = .ok (some (write.sequence, write.state))) := by
  constructor
  · intro partition instanceId keepLastN hp
    exact ⟨snapshotsOf_ordered partition instanceId, snapshotsOf_compacted, fun _ ho => get_compacted_of_other ho,
      loadLatest_compacted hp⟩
  · intro writes write hl
    rw [loadLatest_run hl]
    constructor
    · intro headed
      rw [deserialize_headed headed]
      split_ifs with nil
      · exact iff_of_false (fun hi => by cases hi) (not_not.mpr nil)
      · exact iff_of_true rfl nil
    · intro headed ha
      rw [deserialize_plain headed ha]
      rfl

section Sample

attribute [local instance] Ulid.Crockford.codec Ulid.Crockford.alphanumeric Json.Text.codec
  Json.Text.codec_structural Crc32.constant

def sampleState : InstanceState := ⟨7, some "ab|cd"⟩

/-- A snapshot of the nil instance, and one without a header whose hash has a bar. -/
theorem snapshots_unreadable :
    snapshotLoadLatest (run ∅ [⟨true, .ofUlid 0, 1, sampleState⟩]) (.ofUlid 0) = .error .deserializationFailed ∧
      snapshotLoadLatest (run ∅ [⟨false, .ofUlid 1, 1, sampleState⟩]) (.ofUlid 1) = .error .deserializationFailed := by
  refine ⟨by decide +kernel, by decide +kernel⟩

theorem snapshots_retained_sample :
    (∀ (partition : SnapshotPartition) (instanceId : InstanceId) (keepLastN : UInt64), 1 ≤ keepLastN →
      snapshotLoadLatest (compactSnapshots partition.entries instanceId keepLastN).2 instanceId =
        snapshotLoadLatest partition.entries instanceId) ∧
    snapshotLoadLatest (run ∅ [⟨true, .ofUlid 1, 5, sampleState⟩, ⟨true, .ofUlid 1, 3, sampleState⟩]) (.ofUlid 1) =
      .ok (some (5, sampleState)) := by
  have hr := snapshots_retained
  refine ⟨fun partition instanceId keepLastN hp => (hr.1 partition instanceId keepLastN hp).2.2.2, ?_⟩
  have hl : IsLatest [⟨true, .ofUlid 1, 5, sampleState⟩, ⟨true, .ofUlid 1, 3, sampleState⟩]
      ⟨true, .ofUlid 1, 5, sampleState⟩ := by
    refine ⟨[], _, rfl, ?_, ?_⟩
    · intro other mem
      cases mem
    · intro other mem _
      rw [mem_singleton.mp mem]
      decide
  exact ((hr.2 _ _ hl).1 rfl).mpr (by decide +kernel)

end Sample

end Snapshots

end Veloxide
