import Veloxide.Library.Execution
import Veloxide.Storage.HotSpot
import Veloxide.Storage.SequenceScan
import Veloxide.Types.Envelope

namespace Veloxide.EventStore

open ByteCodec OrderedStore KeyEncoding SequenceScan HotSpot List

inductive EventStoreError
  | occConflict (inst : String) (expectedSequence actualSequence : UInt64)
  | storage (reason : String)
  | invalidArgument (reason : String)
deriving DecidableEq

structure FjallEventStoreOptions where
  hotSpotConfig : Option HotSpotConfig

def FjallEventStoreOptions.default : FjallEventStoreOptions := ⟨none⟩

structure FjallEventStore where
  partition : Store Bytes Bytes
  hotSpot : Option HotSpotDetector

namespace FjallEventStore

def openWithOptions (partition : Store Bytes Bytes) (options : FjallEventStoreOptions) : FjallEventStore :=
  ⟨partition, options.hotSpotConfig.map HotSpotDetector.new⟩

def empty : FjallEventStore := openWithOptions ∅ .default

/-- The sequence in a key of the instance: the scan skips keys that are too short or start otherwise. -/
def keySequence (idBytes key : Bytes) : Option UInt64 := if key.length < 24 then none
  else if !idBytes.isPrefixOf (key.take 16) then none
  else some (UInt64.ofNat (beNat ((key.drop 16).take 8)))

def largerSequence (idBytes : Bytes) (maxSeq : UInt64) (key : Bytes) : UInt64 := match keySequence idBytes key with
  | none => maxSeq
  | some seq => if seq > maxSeq then seq else maxSeq

def firstGap : List EventEnvelope → Option (UInt64 × UInt64)
  | first :: second :: rest =>
    if second.sequence ≠ first.sequence + 1 then some (first.sequence, second.sequence)
    else firstGap (second :: rest)
  | _ => none

variable {key : Bytes}

section

theorem keySequence_sequenceKey {idBytes keyId : Bytes} (hl : idBytes.length = 16)
    (hk : keyId.length = 16) (seq : UInt64) :
    keySequence idBytes (sequenceKey keyId seq) = if keyId = idBytes then some seq else none := by
  have ht : (sequenceKey keyId seq).take 16 = keyId := by
    rw [sequenceKey, ← hk, take_left]
  have tail : ((sequenceKey keyId seq).drop 16).take 8 = beBytes 8 seq.toNat := by
    rw [sequenceKey, ← hk, drop_left]
    exact take_of_length_le (by simp)
  have long : ¬ (sequenceKey keyId seq).length < 24 := by simp [sequenceKey, hk]
  rw [keySequence, if_neg long, ht, tail, ofNat_beNat_beBytes]
  by_cases same : keyId = idBytes
  · simp [same]
  · have hd : idBytes.isPrefixOf keyId = false := by
      rw [Bool.eq_false_iff]
      intro hs
      have he := ( isPrefixOf_iff_prefix.mp hs).eq_of_length (hl.trans hk.symm)
      exact same he.symm
    simp [same, hd]

theorem foldl_largerSequence (idBytes : Bytes) (keys : List Bytes) (start : UInt64) :
    start ≤ keys.foldl (largerSequence idBytes) start ∧
      (∀ key ∈ keys, ∀ seq, keySequence idBytes key = some seq → seq ≤ keys.foldl (largerSequence idBytes) start) ∧
      (keys.foldl (largerSequence idBytes) start = start ∨
        ∃ key ∈ keys, keySequence idBytes key = some (keys.foldl (largerSequence idBytes) start)) := by
  induction keys generalizing start with
  | nil => exact ⟨UInt64.le_refl start, nofun, .inl rfl⟩
  | cons key keys ih =>
    obtain ⟨ha, hb, hf⟩ := ih (largerSequence idBytes start key)
    rw [foldl_cons]
    have hg : start ≤ largerSequence idBytes start key := by
      rw [largerSequence]
      split
      · exact UInt64.le_refl start
      · split_ifs with larger
        · exact UInt64.le_of_lt larger
        · exact UInt64.le_refl start
    refine ⟨UInt64.le_trans hg ha, ?_, ?_⟩
    · intro other mem seq hs
      rcases mem_cons.mp mem with here | later
      · subst here
        apply UInt64.le_trans _ ha
        simp only [largerSequence, hs]
        split_ifs with larger
        · exact UInt64.le_refl seq
        · exact UInt64.not_lt.mp larger
      · exact hb other later seq hs
    · rcases hf with same | ⟨other, mem, hs⟩
      · rw [same, largerSequence]
        cases hs : keySequence idBytes key with
        | none => exact .inl rfl
        | some seq =>
          simp only
          split_ifs with larger
          · exact .inr ⟨key, mem_cons_self, hs⟩
          · exact .inl rfl
      · exact .inr ⟨other, mem_cons_of_mem _ mem, hs⟩

theorem foldl_largerSequence_le {idBytes : Bytes} {partition : Store Bytes Bytes} {bound : UInt64}
    (hb : ∀ key seq, (partition[key]?).isSome → keySequence idBytes key = some seq → seq ≤ bound) :
    (partition.toList.map Prod.fst).foldl (largerSequence idBytes) 0 ≤ bound := by
  obtain ⟨_, _, hf⟩ := foldl_largerSequence idBytes (partition.toList.map Prod.fst) 0
  rcases hf with zero | ⟨key, mem, seq⟩
  · rw [zero]
    exact UInt64.zero_le
  · obtain ⟨entry, hl, here⟩ := mem_map.mp mem
    have hp := (mem_entries partition entry.1 entry.2).mp hl
    rw [here] at hp
    exact hb key _ (by rw [hp]; rfl) seq

def Contiguous (idBytes : Bytes) (partition : Store Bytes Bytes) (last : UInt64) : Prop :=
  ∀ key, (partition[key]?).isSome ↔ ∃ sequence, sequence ≠ 0 ∧ sequence ≤ last ∧ key = sequenceKey idBytes sequence

variable {last : UInt64}

theorem Contiguous.numbered {idBytes : Bytes} {partition : Store Bytes Bytes}
    (hs : Contiguous idBytes partition last) : Numbered partition idBytes last.toNat := by
  refine ⟨last.toNat_lt, ?_⟩
  intro key _
  rw [hs key, mem_numberedKeys]
  constructor
  · intro hf
    obtain ⟨seq, hn, most, same⟩ := hf
    rw [Ne, ← UInt64.toNat_inj, UInt64.toNat_zero] at hn
    exact ⟨seq.toNat, Nat.pos_of_ne_zero hn, most, by rw [same, UInt64.ofNat_toNat]⟩
  · intro hf
    obtain ⟨number, hl, most, same⟩ := hf
    have hv : (UInt64.ofNat number).toNat = number := UInt64.toNat_ofNat_of_lt' (Nat.lt_of_le_of_lt most last.toNat_lt)
    refine ⟨UInt64.ofNat number, ?_, UInt64.le_iff_toNat_le.mpr (hv.symm ▸ most), same⟩
    rw [Ne, ← UInt64.toNat_inj, hv, UInt64.toNat_zero]
    exact Nat.ne_of_gt hl

theorem isPrefix_of_keySequence {idBytes : Bytes} {seq : UInt64}
    (hf : keySequence idBytes key = some seq) : idBytes <+: key := by
  rw [keySequence] at hf
  split_ifs at hf with short other
  rw [Bool.not_eq_true, Bool.not_eq_false', isPrefixOf_iff_prefix] at other
  exact other.trans ( take_prefix 16 key)

section

variable {idBytes : Bytes} {partition : Store Bytes Bytes} {count : Nat}

theorem keySequence_le (hs : Numbered partition idBytes count) (hl : idBytes.length = 16)
    {seq : UInt64} (hp : (partition[key]?).isSome) (hf : keySequence idBytes key = some seq) :
    seq ≤ UInt64.ofNat count := by
  have hb := hs.bound
  obtain ⟨number, _, most, same⟩ := mem_numberedKeys.mp ((hs.keys key (isPrefix_of_keySequence hf)).mp hp)
  rw [same, keySequence_sequenceKey hl hl, if_pos rfl] at hf
  rw [← Option.some.inj hf, UInt64.le_iff_toNat_le, UInt64.toNat_ofNat_of_lt' hb,
    UInt64.toNat_ofNat_of_lt' (show number < 2 ^ 64 by omega)]
  exact most

theorem largest_numbered (hs : Numbered partition idBytes count) (hl : idBytes.length = 16) :
    (partition.toList.map Prod.fst).foldl (largerSequence idBytes) 0 = UInt64.ofNat count := by
  have hb := foldl_largerSequence_le fun _ _ hp hf => keySequence_le hs hl hp hf
  cases count with
  | zero => exact UInt64.le_antisymm hb UInt64.zero_le
  | succ count =>
    apply UInt64.le_antisymm hb
    obtain ⟨_, ho, _⟩ := foldl_largerSequence idBytes (partition.toList.map Prod.fst) 0
    have hi : sequenceKey idBytes (UInt64.ofNat (count + 1)) ∈ numberedKeys idBytes (count + 1) :=
      mem_numberedKeys.mpr ⟨count + 1, Nat.succ_pos count, Nat.le_refl _, rfl⟩
    have hp := (hs.keys _ (isPrefix_sequenceKey idBytes _)).mpr hi
    obtain ⟨value, held⟩ := Option.isSome_iff_exists.mp hp
    have he := (mem_entries partition (sequenceKey idBytes (UInt64.ofNat (count + 1))) value).mpr held
    apply ho _ (mem_map_of_mem he)
    rw [keySequence_sequenceKey hl hl, if_pos rfl]

end

theorem Contiguous.largest {idBytes : Bytes} {partition : Store Bytes Bytes}
    (hs : Contiguous idBytes partition last) (hl : idBytes.length = 16) :
    (partition.toList.map Prod.fst).foldl (largerSequence idBytes) 0 = last := by
  rw [largest_numbered hs.numbered hl, UInt64.ofNat_toNat]

theorem mem_sequences {first : EventEnvelope} {rest : List EventEnvelope}
    (ho : firstGap (first :: rest) = none) (hn : ∀ event ∈ first :: rest, event.sequence ≠ 0) (seq : UInt64) :
    seq ∈ (first :: rest).map EventEnvelope.sequence ↔ first.sequence ≤ seq ∧
      seq ≤ ((first :: rest).getLast (cons_ne_nil first rest)).sequence := by
  induction rest generalizing first seq with
  | nil =>
    simp only [map_cons, map_nil, mem_singleton, getLast_singleton]
    exact ⟨fun same => by simp [same], fun hb => UInt64.le_antisymm hb.2 hb.1⟩
  | cons second rest ih =>
    rw [firstGap] at ho
    split_ifs at ho with consecutive
    have next : second.sequence = first.sequence + 1 := not_not.mp consecutive
    have hr := hn second (by simp)
    have hl := ih ho (fun event mem => hn event (mem_cons_of_mem _ mem))
    have hs := (hl second.sequence).mp (by simp)
    rw [map_cons, mem_cons, hl, getLast_cons (cons_ne_nil second rest)]
    have step : second.sequence.toNat = first.sequence.toNat + 1 := by
      have hu := congrArg UInt64.toNat next
      have ha := first.sequence.toNat_lt
      have one : (1 : UInt64).toNat = 1 := rfl
      rw [UInt64.toNat_add, one] at hu
      have hp : second.sequence.toNat ≠ 0 := fun zero => hr (UInt64.toNat.inj zero)
      omega
    simp only [UInt64.le_iff_toNat_le, ← UInt64.toNat_inj] at hs ⊢
    omega

end

variable [Ulid] (inst : InstanceId)

def getCurrentSequence (partition : Store Bytes Bytes) (inst : InstanceId) : Except EventStoreError UInt64 :=
  match inst.toBytes with
  | .error _ => .error (.storage s!"cannot convert instance_id {inst.text} to bytes")
  | .ok idBytes => .ok ((partition.toList.map Prod.fst).foldl (largerSequence idBytes) 0)

def recordAppend (hotSpot : Option HotSpotDetector) (inst : InstanceId) (reading since : Nat) :
    Bool × Option HotSpotDetector :=
  match hotSpot with
  | some detector => (detector.recordAppend inst reading since).map id some
  | none => (false, none)

def keyBytes (idBytes : Bytes) (isHot : Bool) : Except EventStoreError Bytes :=
  if isHot then (scrambleInstanceId inst).mapError fun failure =>
    .storage ("failed to scramble instance id: " ++ failure.toText)
  else .ok idBytes

def keyId (isHot : Bool) : Bytes := if isHot then scrambleBytes inst.bytes else inst.bytes

theorem length_keyId (isHot : Bool) : (keyId inst isHot).length = 16 := by
  cases isHot
  · exact inst.length_bytes
  · exact length_scrambleBytes inst.length_bytes

theorem keyBytes_eq (isHot : Bool) : keyBytes inst inst.bytes isHot = .ok (keyId inst isHot) := by
  rw [keyBytes, scrambleInstanceId_eq]
  cases isHot <;> rfl

theorem getCurrentSequence_eq (partition : Store Bytes Bytes) (inst : InstanceId) :
    getCurrentSequence partition inst =
      .ok ((partition.toList.map Prod.fst).foldl (largerSequence inst.bytes) 0) := by
  rw [getCurrentSequence, inst.toBytes_eq]

variable [JsonCodec]

def eventWrite (inst : InstanceId) (idBytes : Bytes) (isHot : Bool) (event : EventEnvelope) :
    Except EventStoreError (Write Bytes Bytes) := do
  let keyId ← keyBytes inst idBytes isHot
  let value ← (JsonCodec.toVec event.toJson).mapError fun failure =>
    .storage ("failed to serialize event: " ++ failure)
  return (sequenceKey keyId event.sequence, some value)

variable (store : FjallEventStore)

def append (inst : InstanceId) (events : List EventEnvelope) (reading since : Nat) :
    Except EventStoreError UInt64 × FjallEventStore :=
  match events with
  | [] => (.error (.invalidArgument "events batch cannot be empty"), store)
  | first :: rest =>
    let finalSequence := ((first :: rest).getLast (cons_ne_nil first rest)).sequence
    match firstGap (first :: rest) with
    | some (left, right) =>
      (.error (.invalidArgument s!"events are not sequentially ordered: {left} followed by {right}"), store)
    | none =>
      match inst.toBytes with
      | .error _ => (.error (.storage s!"cannot convert instance_id {inst.text} to bytes"), store)
      | .ok idBytes =>
        match getCurrentSequence store.partition inst with
        | .error failure => (.error failure, store)
        | .ok currentSequence =>
          let expectedSequence := currentSequence + 1
          if first.sequence ≠ expectedSequence then
            (.error (.occConflict inst.text expectedSequence currentSequence), store)
          else
            let (isHot, hotSpot) := recordAppend store.hotSpot inst reading since
            match (first :: rest).mapM (eventWrite inst idBytes isHot) with
            | .error failure => (.error failure, { store with hotSpot })
            | .ok batch => (.ok finalSequence, ⟨commit store.partition batch, hotSpot⟩)

def entry (keyId : Bytes) (event : EventEnvelope) : Write Bytes Bytes :=
  (sequenceKey keyId event.sequence, some (JsonCodec.bytes event.toJson))

theorem eventWrite_eq (isHot : Bool) (event : EventEnvelope) :
    eventWrite inst inst.bytes isHot event = .ok (entry (keyId inst isHot) event) := by
  rw [eventWrite, keyBytes_eq, JsonCodec.toVec_eq]
  rfl

theorem eventWrites_eq (isHot : Bool) (events : List EventEnvelope) :
    events.mapM (eventWrite inst inst.bytes isHot) = .ok (events.map (entry (keyId inst isHot))) := by
  induction events with
  | nil => rfl
  | cons event events ih =>
    rw [mapM_cons, eventWrite_eq, ih]
    rfl

section

omit [Ulid]

variable {idBytes keyId : Bytes} {partition : Store Bytes Bytes} {last final : UInt64} {events : List EventEnvelope}

theorem mem_entry_keys : key ∈ (events.map (entry keyId)).map Prod.fst ↔
    ∃ sequence ∈ events.map EventEnvelope.sequence, key = sequenceKey keyId sequence := by
  simp [entry, eq_comm]

theorem isSome_commit_entries (key : Bytes) :
    ((commit partition (events.map (entry keyId)))[key]?).isSome ↔ (partition[key]?).isSome ∨
      ∃ sequence ∈ events.map EventEnvelope.sequence, key = sequenceKey keyId sequence := by
  rw [isSome_commit, mem_entry_keys]
  intro written mem
  obtain ⟨event, _, same⟩ := mem_map.mp mem
  rw [← same]
  rfl

theorem Contiguous.commit (hs : Contiguous idBytes partition last)
    (hr : ∀ seq, seq ∈ events.map EventEnvelope.sequence ↔ last < seq ∧ seq ≤ final) (hl : last < final) :
    Contiguous idBytes (OrderedStore.commit partition (events.map (entry idBytes))) final := by
  intro key
  rw [isSome_commit_entries, hs key]
  simp only [hr]
  constructor
  · intro hf
    rcases hf with ⟨seq, hn, most, same⟩ | ⟨seq, ⟨ha, most⟩, same⟩
    · exact ⟨seq, hn, UInt64.le_trans most (UInt64.le_of_lt hl), same⟩
    · refine ⟨seq, ?_, most, same⟩
      intro zero
      rw [zero] at ha
      exact UInt64.not_lt.mpr UInt64.zero_le ha
  · intro hf
    obtain ⟨seq, hn, most, same⟩ := hf
    by_cases old : seq ≤ last
    · exact .inl ⟨seq, hn, old, same⟩
    · exact .inr ⟨seq, ⟨UInt64.not_le.mp old, most⟩, same⟩

theorem Contiguous.commit_preserves (hs : Contiguous idBytes partition last)
    (ha : ∀ event ∈ events, last < event.sequence) {value : Bytes} (held : partition[key]? = some value) :
    (OrderedStore.commit partition (events.map (entry idBytes)))[key]? = some value := by
  obtain ⟨seq, _, most, same⟩ := (hs key).mp (by rw [held]; rfl)
  rw [get_commit_of_not_mem, held]
  intro written mem he
  obtain ⟨event, hc, here⟩ := mem_map.mp mem
  rw [← here, same] at he
  rw [← sequenceKey_injective he] at most
  exact UInt64.not_lt.mpr most (ha event hc)

theorem Contiguous.largest_le_of_scrambled (hs : Contiguous idBytes partition last)
    (hl : idBytes.length = 16) (hk : keyId.length = 16) (ho : keyId ≠ idBytes) (events : List EventEnvelope) :
    ((OrderedStore.commit partition (events.map (entry keyId))).toList.map Prod.fst).foldl
      (largerSequence idBytes) 0 ≤ last := by
  apply foldl_largerSequence_le
  intro key seq hp hf
  rcases (isSome_commit_entries key).mp hp with old | ⟨number, _, same⟩
  · have most := keySequence_le hs.numbered hl old hf
    rwa [UInt64.ofNat_toNat] at most
  · rw [same, keySequence_sequenceKey hl hk, if_neg ho] at hf
    contradiction

end

def isHot (inst : InstanceId) (reading since : Nat) : Bool :=
  (recordAppend store.hotSpot inst reading since).1

/-- A batch that is in order and starts right after what is stored, which `append` then accepts. -/
def Next (inst : InstanceId) (events : List EventEnvelope) : Prop :=
  ∃ first rest current, events = first :: rest ∧ firstGap events = none ∧
    getCurrentSequence store.partition inst = .ok current ∧ first.sequence = current + 1

theorem append_cases (inst : InstanceId) (events : List EventEnvelope) (reading since : Nat) :
    (¬ store.Next inst events ∧ ∃ err, (store.append inst events reading since).1 = .error err ∧
        (store.append inst events reading since).2.partition = store.partition) ∨
      ∃ first rest, events = first :: rest ∧ firstGap events = none ∧
        getCurrentSequence store.partition inst = .ok (first.sequence - 1) ∧
        (store.append inst events reading since).1 =
          .ok ((first :: rest).getLast (cons_ne_nil first rest)).sequence ∧
        (store.append inst events reading since).2.partition =
          commit store.partition (events.map (entry (keyId inst (store.isHot inst reading since)))) := by
  cases events with
  | nil => exact .inl ⟨nofun, _, rfl, rfl⟩
  | cons first rest =>
    rw [append]
    cases ho : firstGap (first :: rest) with
    | some gap =>
      refine .inl ⟨?_, _, rfl, rfl⟩
      rintro ⟨_, _, _, _, none, _⟩
      cases ho.symm.trans none
    | none =>
      have hw := eventWrites_eq inst (store.isHot inst reading since) (first :: rest)
      rw [isHot] at hw
      simp only [inst.toBytes_eq, getCurrentSequence_eq, hw]
      split_ifs with expected
      · refine .inl ⟨?_, _, rfl, rfl⟩
        rintro ⟨_, _, current, same, _, stored, next⟩
        cases same
        rw [getCurrentSequence_eq] at stored
        cases stored
        exact expected next
      · right
        refine ⟨first, rest, rfl, trivial, ?_, rfl, rfl⟩
        rw [not_not.mp expected, UInt64.add_sub_cancel]

end FjallEventStore

end Veloxide.EventStore
