import Veloxide.Library.ByteOrder
import Veloxide.Storage.KeyEncoding

namespace Veloxide.SequenceScan

open ByteCodec OrderedStore KeyEncoding Unsigned List

theorem compare_sequenceKey (start : Bytes) (left right : UInt64) :
    compare (sequenceKey start left) (sequenceKey start right) = compare left.toNat right.toNat := by
  rw [sequenceKey, sequenceKey, compare_append_same, compare_beBytes_of_lt left.toNat_lt right.toNat_lt]

theorem isPrefix_sequenceKey (start : Bytes) (sequence : UInt64) : start <+: sequenceKey start sequence := ⟨_, rfl⟩

theorem drop_sequenceKey (start : Bytes) (seq : UInt64) :
    (sequenceKey start seq).drop ((sequenceKey start seq).length - 8) = beBytes 8 seq.toNat := by
  simp [sequenceKey]

def numberedKeys (start : Bytes) (count : Nat) : List Bytes :=
  (List.range' 1 count).map fun number => sequenceKey start (UInt64.ofNat number)

theorem numberedKeys_succ (start : Bytes) (count : Nat) :
    numberedKeys start (count + 1) = numberedKeys start count ++ [sequenceKey start (UInt64.ofNat (count + 1))] := by
  rw [numberedKeys, range'_concat, map_append, Nat.one_mul, Nat.add_comm 1 count]
  rfl

theorem mem_numberedKeys {start key : Bytes} {count : Nat} : key ∈ numberedKeys start count ↔
    ∃ number, 1 ≤ number ∧ number ≤ count ∧ key = sequenceKey start (UInt64.ofNat number) := by
  simp only [numberedKeys, mem_map, mem_range'_1, Nat.lt_one_add_iff, and_assoc, eq_comm]

theorem numberedKeys_ordered (start : Bytes) {count : Nat} (hb : count < 2 ^ 64) :
    (numberedKeys start count).Pairwise fun left right => compare left right = .lt := by
  rw [numberedKeys, pairwise_map]
  refine List.Pairwise.imp_of_mem ?_ pairwise_lt_range'
  intro left right hl hr less
  rw [mem_range'_1] at hl hr
  rw [compare_sequenceKey, UInt64.toNat_ofNat_of_lt' (show left < 2 ^ 64 by omega),
    UInt64.toNat_ofNat_of_lt' (show right < 2 ^ 64 by omega)]
  exact Nat.compare_eq_lt.mpr less

/-- The partition holds, of the keys with the given start, those of the sequences from one to `count`. -/
structure Numbered (partition : Store Bytes Bytes) (start : Bytes) (count : Nat) : Prop where
  bound : count < 2 ^ 64
  keys : ∀ key, start <+: key → ((partition[key]?).isSome = true ↔ key ∈ numberedKeys start count)

namespace Numbered

variable {partition : Store Bytes Bytes} {start : Bytes} {count : Nat}

theorem empty (start : Bytes) : Numbered ∅ start 0 := by
  refine ⟨by decide, ?_⟩
  intro key _
  simp [numberedKeys]

theorem insert_next (hs : Numbered partition start count) (room : count + 1 < 2 ^ 64) (value : Bytes) :
    Numbered (partition.insert (sequenceKey start (UInt64.ofNat (count + 1))) value) start (count + 1) := by
  refine ⟨room, ?_⟩
  intro key ht
  rw [numberedKeys_succ, mem_append, mem_singleton, get_insert, ← hs.keys key ht]
  split_ifs with same
  · exact iff_of_true rfl (.inr same.symm)
  · exact (or_iff_left (Ne.symm same)).symm

theorem absent_next (hs : Numbered partition start count) (room : count + 1 < 2 ^ 64) :
    partition[sequenceKey start (UInt64.ofNat (count + 1))]? = none := by
  rw [← Option.not_isSome_iff_eq_none, hs.keys _ (isPrefix_sequenceKey start _), mem_numberedKeys]
  intro hl
  obtain ⟨number, _, most, same⟩ := hl
  have hn := congrArg UInt64.toNat (sequenceKey_injective same)
  rw [UInt64.toNat_ofNat_of_lt' room, UInt64.toNat_ofNat_of_lt' (show number < 2 ^ 64 by omega)] at hn
  omega

theorem insert_other (hs : Numbered partition start count) {key : Bytes} (ho : ¬ start <+: key)
    (value : Bytes) : Numbered (partition.insert key value) start count := by
  refine ⟨hs.bound, ?_⟩
  intro other ht
  rw [get_insert_of_ne, hs.keys other ht]
  intro same
  exact ho (same ▸ ht)

theorem scanned_keys (hs : Numbered partition start count) :
    (prefixScan partition start).map Prod.fst = numberedKeys start count := by
  refine ordered_ext id (pairwise_map.mpr (Std.ExtTreeMap.ordered_keys_toList.filter _))
    (numberedKeys_ordered start hs.bound) ?_
  intro key
  rw [mem_prefixScan_keys]
  constructor
  · intro held
    exact (hs.keys key held.2).mp held.1
  · intro hl
    obtain ⟨number, _, _, same⟩ := mem_numberedKeys.mp hl
    have ht : start <+: key := same ▸ isPrefix_sequenceKey start _
    exact ⟨(hs.keys key ht).mpr hl, ht⟩

theorem rangeScan_eq (hs : Numbered partition start count) :
    rangeScan partition (sequenceKey start 1) (sequenceKey start (UInt64.ofNat (2 ^ 64 - 1))) =
      prefixScan partition start := by
  apply filter_congr
  intro entry mem
  have hp : (partition[entry.1]?).isSome = true := by
    rw [(mem_entries partition entry.1 entry.2).mp mem]
    rfl
  rw [Bool.eq_iff_iff, Bool.and_eq_true, isPrefixOf_iff_prefix]
  constructor
  · intro hb
    exact isPrefix_of_between hb.1 hb.2
  · intro ht
    obtain ⟨number, hl, most, same⟩ := mem_numberedKeys.mp ((hs.keys entry.1 ht).mp hp)
    have ho := hs.bound
    rw [same, compare_sequenceKey, compare_sequenceKey, UInt64.toNat_ofNat_of_lt' (show number < 2 ^ 64 by omega)]
    have hg : number ≤ (UInt64.ofNat (2 ^ 64 - 1)).toNat := by
      rw [UInt64.toNat_ofNat_of_lt' (by decide)]
      omega
    exact ⟨Nat.isLE_compare.mpr hl, Nat.isLE_compare.mpr hg⟩

theorem last_key (hs : Numbered partition start (count + 1)) :
    ∃ value, (rangeScan partition (sequenceKey start 1) (sequenceKey start (UInt64.ofNat (2 ^ 64 - 1)))).getLast? =
      some (sequenceKey start (UInt64.ofNat (count + 1)), value) := by
  have last : ((prefixScan partition start).map Prod.fst).getLast? = some (sequenceKey start (UInt64.ofNat (count + 1))) := by
    rw [hs.scanned_keys, numberedKeys_succ, getLast?_concat]
  rw [getLast?_map, Option.map_eq_some_iff] at last
  obtain ⟨entry, hf, same⟩ := last
  rw [hs.rangeScan_eq, hf, ← same]
  exact ⟨entry.2, rfl⟩

theorem no_key (hs : Numbered partition start 0) :
    (rangeScan partition (sequenceKey start 1) (sequenceKey start (UInt64.ofNat (2 ^ 64 - 1)))).getLast? = none := by
  have keys : (prefixScan partition start).map Prod.fst = [] := hs.scanned_keys
  rw [hs.rangeScan_eq, map_eq_nil_iff.mp keys]
  rfl

def following (count : Nat) : Except StorageError UInt64 :=
  if count + 1 < 2 ^ 64 then .ok (UInt64.ofNat (count + 1)) else .error .sequenceGap

theorem checkedSucc_following (hb : count < 2 ^ 64) :
    (checkedSucc (UInt64.ofNat count)).okOr StorageError.sequenceGap = following count := by
  have hn : (UInt64.ofNat count).toNat = count := UInt64.toNat_ofNat_of_lt' hb
  rw [following]
  split_ifs with room
  · rw [checkedSucc_eq (by omega), hn]
    rfl
  · rw [checkedSucc, if_pos (by omega)]
    rfl

end Numbered

end Veloxide.SequenceScan
