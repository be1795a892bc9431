import Veloxide.Storage.SequenceScan
import Veloxide.Storage.Snapshots

namespace Veloxide.Snapshots

open ByteCodec OrderedStore KeyEncoding SequenceScan List

section

variable [Ulid]

def removeSnapshots (inst : InstanceId) (part : Store Bytes Bytes) (deleted : Nat) :
    List UInt64 → Except StorageError Nat × Store Bytes Bytes
  | [] => (.ok deleted, part)
  | sequence :: rest =>
    match encodeSnapshotKey inst sequence with
    | .error failure => (.error failure, part)
    | .ok key => removeSnapshots inst (part.erase key) (deleted + 1) rest

def readSnapshots (entries : List (Bytes × Bytes)) : Except StorageError (List (UInt64 × Bytes)) :=
  entries.mapM fun entry => do
    let (_, sequence) ← (decodeSnapshotKey entry.1).mapError fun _ => StorageError.invalidKey
    return (sequence, entry.2)

def compactSnapshots (part : Store Bytes Bytes) (inst : InstanceId) (keep : UInt64) :
    Except StorageError Nat × Store Bytes Bytes :=
  match inst.toBytes with
  | .error _ => (.error .corruptKey, part)
  | .ok start =>
    match readSnapshots (prefixScan part start) with
    | .error failure => (.error failure, part)
    | .ok snapshots =>
      if snapshots.length ≤ keep.toNat then (.ok 0, part)
      else
        let newestFirst := snapshots.mergeSort fun first second => decide (second.1 ≤ first.1)
        removeSnapshots inst part 0 ((newestFirst.drop keep.toNat).map Prod.fst)

end

section

variable [Ulid]

structure SnapshotPartition where
  entries : Store Bytes Bytes
  keyed : ∀ key value, entries[key]? = some value → ∃ (owner : InstanceId) (sequence : UInt64),
    key = sequenceKey owner.bytes sequence

def snapshotsOf (part : Store Bytes Bytes) (inst : InstanceId) : List (UInt64 × Bytes) :=
  (prefixScan part inst.bytes).map fun entry => (UInt64.ofNat (beNat (entry.1.drop 16)), entry.2)

variable {inst : InstanceId}

theorem sequence_of_key (sequence : UInt64) :
    UInt64.ofNat (beNat ((sequenceKey inst.bytes sequence).drop 16)) = sequence := by
  rw [sequenceKey, drop_left' inst.length_bytes, ofNat_beNat_beBytes]

theorem scanned_key (part : SnapshotPartition) {entry : Bytes × Bytes}
    (hs : entry ∈ prefixScan part.entries inst.bytes) :
    entry.1 = sequenceKey inst.bytes (UInt64.ofNat (beNat (entry.1.drop 16))) := by
  obtain ⟨held, ht⟩ := (mem_prefixScan _ _ entry.1 entry.2).mp hs
  obtain ⟨owner, seq, key⟩ := part.keyed entry.1 entry.2 held
  rw [key, sequenceKey] at ht
  rw [key, ← InstanceId.eq_of_isPrefix ht, sequence_of_key]

theorem readSnapshots_scan (part : SnapshotPartition) (inst : InstanceId) :
    readSnapshots (prefixScan part.entries inst.bytes) = .ok (snapshotsOf part.entries inst) := by
  rw [readSnapshots, Except.mapM_eq_ok, snapshotsOf, forall₂_map_right_iff, forall₂_same]
  intro entry hs
  have hw : entry.1.length = 24 := by
    rw [scanned_key part hs, sequenceKey, length_append, InstanceId.length_bytes, length_beBytes]
  rw [decodeSnapshotKey, if_neg (not_not.mpr hw)]
  rfl

theorem snapshotsOf_ordered (part : SnapshotPartition) (inst : InstanceId) :
    (snapshotsOf part.entries inst).Pairwise fun first second => first.1 < second.1 := by
  rw [snapshotsOf, pairwise_map]
  refine List.Pairwise.imp_of_mem ?_ (prefixScan_ordered part.entries inst.bytes)
  intro first second hf hs less
  rw [scanned_key part hf, scanned_key part hs, compare_sequenceKey, Nat.compare_eq_lt] at less
  exact UInt64.lt_iff_toNat_lt.mpr less

theorem getLast_prefixScan (part : SnapshotPartition) {inst : InstanceId} {seq : UInt64}
    {value : Bytes} (held : part.entries[sequenceKey inst.bytes seq]? = some value)
    (hh : ∀ other found, part.entries[sequenceKey inst.bytes other]? = some found → other ≤ seq) :
    (prefixScan part.entries inst.bytes).getLast? = some (sequenceKey inst.bytes seq, value) := by
  have hi : (sequenceKey inst.bytes seq, value) ∈ prefixScan part.entries inst.bytes :=
    (mem_prefixScan _ _ _ _).mpr ⟨held, isPrefix_sequenceKey _ _⟩
  rcases eq_nil_or_concat (prefixScan part.entries inst.bytes) with hm | ⟨front, last, hs⟩
  · rw [hm] at hi
    cases hi
  · rw [concat_eq_append] at hs
    have ho := prefixScan_ordered part.entries inst.bytes
    have hl : last ∈ prefixScan part.entries inst.bytes := by
      rw [hs]
      exact mem_append_right _ mem_cons_self
    have ha := scanned_key part hl
    rw [hs] at hi ho ⊢
    rw [getLast?_append_cons, getLast?_singleton]
    rcases mem_append.mp hi with he | here
    · have less := (pairwise_append.mp ho).2.2 _ he last mem_cons_self
      have hc := ((mem_prefixScan _ _ last.1 last.2).mp hl).1
      rw [ha] at hc
      have hb := hh _ _ hc
      rw [ha, compare_sequenceKey, Nat.compare_eq_lt] at less
      exact absurd less (Nat.not_lt.mpr (UInt64.le_iff_toNat_le.mp hb))
    · rw [mem_singleton.mp here]

omit [Ulid] in
theorem mergeSort_descending {snaps : List (UInt64 × Bytes)}
    (ho : snaps.Pairwise fun first second => first.1 < second.1) :
    snaps.mergeSort (fun first second => decide (second.1 ≤ first.1)) = snaps.reverse := by
  have hd : (snaps.map Prod.fst).Nodup := pairwise_map.mpr (ho.imp fun less => UInt64.ne_of_lt less)
  have ht : ∀ first second third : UInt64 × Bytes, decide (second.1 ≤ first.1) = true →
      decide (third.1 ≤ second.1) = true → decide (third.1 ≤ first.1) = true := by
    intro first second third left hi
    simp only [decide_eq_true_eq] at left hi ⊢
    exact UInt64.le_trans hi left
  have hc : ∀ first second : UInt64 × Bytes, (decide (second.1 ≤ first.1) || decide (first.1 ≤ second.1)) = true := by
    intro first second
    simp only [Bool.or_eq_true, decide_eq_true_eq]
    exact UInt64.le_total second.1 first.1
  have he := pairwise_mergeSort ht hc snaps
  have hr : snaps.reverse.Pairwise fun first second => decide (second.1 ≤ first.1) = true :=
    pairwise_reverse.mpr (ho.imp fun less => decide_eq_true (UInt64.le_of_lt less))
  refine List.Perm.eq_of_pairwise ?_ he hr
    ((mergeSort_perm _ _).trans (reverse_perm _).symm)
  intro first second hf hs ha hb
  have same : first.1 = second.1 := UInt64.le_antisymm (of_decide_eq_true hb) (of_decide_eq_true ha)
  exact inj_on_of_nodup_map hd (mem_mergeSort.mp hf) (mem_reverse.mp hs) same

theorem removeSnapshots_eq (inst : InstanceId) (part : Store Bytes Bytes) (deleted : Nat)
    (seqs : List UInt64) : removeSnapshots inst part deleted seqs = (.ok (deleted + seqs.length),
        (seqs.map (sequenceKey inst.bytes)).foldl (fun store key => store.erase key) part) := by
  induction seqs generalizing part deleted with
  | nil => rfl
  | cons seq seqs ih =>
    rw [removeSnapshots, encodeSnapshotKey_eq]
    simp only [ih, length_cons, map_cons, foldl_cons]
    rw [Nat.add_assoc, Nat.add_comm 1]

omit [Ulid] in
theorem filter_not_mem_append {α β : Type} [DecidableEq β] (key : α → β) {front back : List α}
    (hd : ((front ++ back).map key).Nodup) :
    ((front ++ back).filter fun item => key item ∉ front.map key) = back := by
  rw [map_append] at hd
  have ha := disjoint_of_nodup_append hd
  have none : (front.filter fun item => key item ∉ front.map key) = [] := by
    rw [filter_eq_nil_iff]
    intro item mem
    simp only [decide_eq_true_eq, not_not]
    exact mem_map_of_mem mem
  have all : (back.filter fun item => key item ∉ front.map key) = back := by
    rw [List.filter_eq_self]
    intro item mem
    exact decide_eq_true fun he => ha he (mem_map_of_mem mem)
  rw [filter_append, none, all, nil_append]

def compactedKeys (part : Store Bytes Bytes) (inst : InstanceId) (keep : UInt64) : List Bytes :=
  (((prefixScan part inst.bytes).take
    ((prefixScan part inst.bytes).length - keep.toNat)).map Prod.fst).reverse

theorem compactSnapshots_eq (part : SnapshotPartition) (inst : InstanceId) (keep : UInt64) :
    compactSnapshots part.entries inst keep =
      (.ok ((snapshotsOf part.entries inst).length - keep.toNat),
        (compactedKeys part.entries inst keep).foldl (fun store key => store.erase key)
          part.entries) := by
  have length : (snapshotsOf part.entries inst).length =
      (prefixScan part.entries inst.bytes).length := length_map _
  rw [compactSnapshots, inst.toBytes_eq]
  simp only [readSnapshots_scan, mergeSort_descending (snapshotsOf_ordered part inst)]
  by_cases few : (snapshotsOf part.entries inst).length ≤ keep.toNat
  · have none : (prefixScan part.entries inst.bytes).length - keep.toNat = 0 := by omega
    rw [if_pos few, compactedKeys, none, Nat.sub_eq_zero_of_le few]
    rfl
  · have keys : (((snapshotsOf part.entries inst).reverse.drop keep.toNat).map Prod.fst).map
        (sequenceKey inst.bytes) = compactedKeys part.entries inst keep := by
      rw [compactedKeys, drop_reverse, length, map_map, map_reverse, snapshotsOf, ← map_take, map_map]
      refine congrArg List.reverse (map_congr_left ?_)
      intro entry hl
      exact (scanned_key part (mem_of_mem_take hl)).symm
    rw [if_neg few, removeSnapshots_eq, keys, length_map, length_drop, length_reverse, Nat.zero_add]

variable {part : SnapshotPartition} {keep : UInt64}

theorem prefixScan_compacted : prefixScan (compactSnapshots part.entries inst keep).2 inst.bytes =
    (prefixScan part.entries inst.bytes).drop
      ((prefixScan part.entries inst.bytes).length - keep.toNat) := by
  rw [compactSnapshots_eq, prefixScan_foldl_erase]
  have hd : ((prefixScan part.entries inst.bytes).map Prod.fst).Nodup := by
    refine pairwise_map.mpr ((prefixScan_ordered _ _).imp ?_)
    intro first second less same
    simp [same] at less
  rw [← take_append_drop ((prefixScan part.entries inst.bytes).length - keep.toNat)
    (prefixScan part.entries inst.bytes)] at hd
  have rest := filter_not_mem_append Prod.fst hd
  rw [take_append_drop] at rest
  refine (filter_congr ?_).trans rest
  intro entry _
  rw [decide_eq_decide, compactedKeys, mem_reverse]

theorem snapshotsOf_compacted : snapshotsOf (compactSnapshots part.entries inst keep).2 inst =
    (snapshotsOf part.entries inst).drop
      ((snapshotsOf part.entries inst).length - keep.toNat) := by
  rw [snapshotsOf, prefixScan_compacted, snapshotsOf, length_map, map_drop]

theorem get_compacted_of_other {key : Bytes} (ho : ¬ inst.bytes <+: key) :
    (compactSnapshots part.entries inst keep).2[key]? = part.entries[key]? := by
  rw [compactSnapshots_eq, get_foldl_erase, if_neg]
  intro hl
  obtain ⟨entry, hs, same⟩ := mem_map.mp (mem_reverse.mp hl)
  have ht := ((mem_prefixScan _ _ entry.1 entry.2).mp (mem_of_mem_take hs)).2
  exact ho (same ▸ ht)

theorem loadLatest_compacted [JsonCodec] [Crc32] (hp : 1 ≤ keep) :
    snapshotLoadLatest (compactSnapshots part.entries inst keep).2 inst =
      snapshotLoadLatest part.entries inst := by
  have one : 1 ≤ keep.toNat := UInt64.le_iff_toNat_le.mp hp
  have last : (prefixScan (compactSnapshots part.entries inst keep).2 inst.bytes).getLast? =
      (prefixScan part.entries inst.bytes).getLast? := by
    rw [prefixScan_compacted, getLast?_drop]
    split_ifs with all
    · have he : prefixScan part.entries inst.bytes = [] := length_eq_zero_iff.mp (by omega)
      rw [he]
      rfl
    · rfl
  simp only [snapshotLoadLatest, inst.toBytes_eq, Except.mapError, bind, Except.bind, last]

end

end Veloxide.Snapshots
