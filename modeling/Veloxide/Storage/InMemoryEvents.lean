import Veloxide.Library.JsonText
import Veloxide.Storage.EventStore

namespace Veloxide.EventStore

open ByteCodec OrderedStore KeyEncoding SequenceScan Machine List
open FjallEventStore (firstGap entry)

structure InMemoryEventStore where
  sequences : Store String UInt64
  events : Store String (List EventEnvelope)

def fits (current : UInt64) : List EventEnvelope → Bool
  | [] => false
  | first :: rest => first.sequence = current + 1 ∧ firstGap (first :: rest) = none

def finalSequence (events : List EventEnvelope) : UInt64 := (events.getLast?.map EventEnvelope.sequence).getD 0

theorem sequences_of_firstGap {first : EventEnvelope} {rest : List EventEnvelope}
    (ho : firstGap (first :: rest) = none) (hb : ∀ event ∈ first :: rest, event.sequence.toNat < 2 ^ 64 - 1) :
    (first :: rest).map (fun event => event.sequence.toNat) = List.range' first.sequence.toNat (rest.length + 1) := by
  induction rest generalizing first with
  | nil => rfl
  | cons second rest ih =>
    rw [firstGap] at ho
    split_ifs at ho with consecutive
    have ha := hb first mem_cons_self
    have next : second.sequence.toNat = first.sequence.toNat + 1 := by
      rw [not_not.mp consecutive, UInt64.toNat_add, UInt64.toNat_one]
      omega
    have hl := ih ho fun event mem => hb event (mem_cons_of_mem _ mem)
    rw [map_cons, hl, next]
    rfl

variable {count : Nat}

theorem sequences_of_fits {events : List EventEnvelope} (fit : fits (UInt64.ofNat count) events = true)
    (hb : count < 2 ^ 64 - 1) (he : ∀ event ∈ events, event.sequence.toNat < 2 ^ 64 - 1) :
    events.map (fun event => event.sequence.toNat) = List.range' (count + 1) events.length := by
  cases events with
  | nil => rfl
  | cons first rest =>
    rw [fits, decide_eq_true_iff] at fit
    have hs : first.sequence.toNat = count + 1 := by
      rw [fit.1, UInt64.toNat_add, UInt64.toNat_one, UInt64.toNat_ofNat_of_lt' (show count < 2 ^ 64 by omega)]
      omega
    rw [sequences_of_firstGap fit.2 he, hs, length_cons]

theorem finalSequence_eq {events : List EventEnvelope} (hn : events ≠ [])
    (next : events.map (fun event => event.sequence.toNat) = List.range' (count + 1) events.length) :
    finalSequence events = UInt64.ofNat (count + events.length) := by
  have last : events.getLast?.map (fun event => event.sequence.toNat) = some (count + events.length) := by
    rw [← getLast?_map, next, getLast?_range', if_neg (by simpa using hn)]
    congr 1
    omega
  obtain ⟨event, hf, same⟩ := Option.map_eq_some_iff.mp last
  rw [finalSequence, hf, ← same, Option.map_some, Option.getD_some, UInt64.ofNat_toNat]

section

variable [JsonCodec]

/-- The partition holds the given events of one instance, and no other events of it. -/
structure Holds (partition : Store Bytes Bytes) (idBytes : Bytes) (events : List EventEnvelope) : Prop where
  numbered : Numbered partition idBytes events.length
  sequences : events.map (fun event => event.sequence.toNat) = List.range' 1 events.length
  values : ∀ event ∈ events, partition[sequenceKey idBytes event.sequence]? = some (JsonCodec.bytes event.toJson)

variable {partition : Store Bytes Bytes} {idBytes : Bytes} {events batch : List EventEnvelope}

theorem Holds.empty (idBytes : Bytes) : Holds ∅ idBytes [] := ⟨Numbered.empty idBytes, rfl, nofun⟩

theorem Holds.insert_next (hh : Holds partition idBytes events) {event : EventEnvelope}
    (next : event.sequence.toNat = events.length + 1) :
    Holds (partition.insert (sequenceKey idBytes event.sequence) (JsonCodec.bytes event.toJson)) idBytes
      (events ++ [event]) := by
  have room : events.length + 1 < 2 ^ 64 := next ▸ event.sequence.toNat_lt
  have hn : event.sequence = UInt64.ofNat (events.length + 1) := by rw [← next, UInt64.ofNat_toNat]
  refine ⟨?_, ?_, ?_⟩
  · rw [hn, length_append, length_singleton]
    exact hh.numbered.insert_next room _
  · rw [map_append, hh.sequences, length_append, length_singleton, range'_concat, Nat.one_mul, Nat.add_comm 1, ← next]
    rfl
  · intro other mem
    rcases mem_append.mp mem with he | here
    · rw [get_insert_of_ne, hh.values other he]
      intro same
      have ha := hh.numbered.absent_next room
      rw [← hn, same, hh.values other he] at ha
      cases ha
    · rw [mem_singleton.mp here, Std.ExtTreeMap.getElem?_insert_self]

theorem Holds.insert_other (hh : Holds partition idBytes events) {key : Bytes} (ho : ¬ idBytes <+: key)
    (value : Bytes) : Holds (partition.insert key value) idBytes events := by
  refine ⟨hh.numbered.insert_other ho value, hh.sequences, ?_⟩
  intro event mem
  rw [get_insert_of_ne, hh.values event mem]
  intro same
  exact ho (same ▸ isPrefix_sequenceKey idBytes event.sequence)

theorem Holds.commit (hh : Holds partition idBytes events)
    (next : batch.map (fun event => event.sequence.toNat) = List.range' (events.length + 1) batch.length) :
    Holds (OrderedStore.commit partition (batch.map (entry idBytes))) idBytes (events ++ batch) := by
  induction batch generalizing partition events with
  | nil => rwa [append_nil]
  | cons event batch ih =>
    rw [length_cons, range'_succ, map_cons, List.cons.injEq] at next
    have rest := ih (hh.insert_next next.1) (by rw [length_append]; exact next.2)
    rwa [append_assoc] at rest

theorem Holds.commit_other (hh : Holds partition idBytes events) {otherBytes : Bytes}
    (ho : ∀ seq, ¬ idBytes <+: sequenceKey otherBytes seq) :
    Holds (OrderedStore.commit partition (batch.map (entry otherBytes))) idBytes events := by
  induction batch generalizing partition with
  | nil => exact hh
  | cons event batch ih => exact ih (hh.insert_other (ho event.sequence) _)

theorem Holds.keys (hh : Holds partition idBytes events) :
    events.map (fun event => sequenceKey idBytes event.sequence) = numberedKeys idBytes events.length := by
  rw [numberedKeys, ← hh.sequences, map_map]
  simp only [Function.comp_def, UInt64.ofNat_toNat]

theorem Holds.scanned (hh : Holds partition idBytes events) : prefixScan partition idBytes =
    events.map fun event => (sequenceKey idBytes event.sequence, JsonCodec.bytes event.toJson) := by
  refine ordered_ext Prod.fst (Std.ExtTreeMap.ordered_keys_toList.filter _) ?_ ?_
  · have ho := numberedKeys_ordered idBytes hh.numbered.bound
    rw [← hh.keys, pairwise_map] at ho
    exact pairwise_map.mpr ho
  · intro found
    rw [mem_prefixScan, mem_map]
    constructor
    · intro scanned
      obtain ⟨held, hs⟩ := scanned
      have hl := (hh.numbered.keys found.1 hs).mp (by rw [held]; rfl)
      rw [← hh.keys] at hl
      obtain ⟨event, mem, same⟩ := mem_map.mp hl
      rw [← same, hh.values event mem] at held
      exact ⟨event, mem, Prod.ext same (Option.some.inj held)⟩
    · intro hl
      obtain ⟨event, mem, same⟩ := hl
      rw [← same]
      exact ⟨hh.values event mem, isPrefix_sequenceKey idBytes event.sequence⟩

end

section

variable [Ulid]

namespace InMemoryEventStore

omit [Ulid] in
def new : InMemoryEventStore := ⟨∅, ∅⟩

variable (store : InMemoryEventStore) (inst : InstanceId)

def getSequence : UInt64 := (store.sequences[inst.text]?).getD 0

def eventsOf : List EventEnvelope := (store.events[inst.text]?).getD []

def append (events : List EventEnvelope) : Except EventStoreError UInt64 × InMemoryEventStore := match events with
  | [] => (.error (.invalidArgument "events batch cannot be empty"), store)
  | first :: rest =>
    let expectedSequence := store.getSequence inst
    if first.sequence ≠ expectedSequence + 1 then
      let actualSequence := ((store.eventsOf inst).getLast?.map EventEnvelope.sequence).getD 0
      (.error (.occConflict inst.text (expectedSequence + 1) actualSequence), store)
    else match firstGap (first :: rest) with
      | some (left, right) =>
        (.error (.invalidArgument s!"events are not sequentially ordered: {left} followed by {right}"), store)
      | none =>
        let finalSequence := ((first :: rest).getLast (cons_ne_nil first rest)).sequence
        (.ok finalSequence, ⟨store.sequences.insert inst.text finalSequence,
          store.events.insert inst.text (store.eventsOf inst ++ (first :: rest))⟩)

theorem eventsOf_insert (seqs : Store String UInt64) (inst other : InstanceId)
    (events : List EventEnvelope) : eventsOf ⟨seqs, store.events.insert inst.text events⟩ other =
      if inst = other then events else store.eventsOf other := by
  rw [eventsOf, get_insert]
  by_cases same : inst = other
  · simp [same]
  · rw [if_neg fun ht => same (InstanceId.ext ht), if_neg same]
    rfl

theorem getSequence_insert (events : Store String (List EventEnvelope)) (inst other : InstanceId)
    (seq : UInt64) : getSequence ⟨store.sequences.insert inst.text seq, events⟩ other =
      if inst = other then seq else store.getSequence other := by
  rw [getSequence, get_insert]
  by_cases same : inst = other
  · simp [same]
  · rw [if_neg fun ht => same (InstanceId.ext ht), if_neg same]
    rfl

end InMemoryEventStore

/-- A call of the trait `EventStore`, with the readings that a hot-spot detector would take. -/
inductive StoreCall
  | append (inst : InstanceId) (events : List EventEnvelope) (reading since : Nat)
  | getSequence (inst : InstanceId)

def StoreCall.events : StoreCall → List EventEnvelope
  | append _ events _ _ => events
  | getSequence _ => []

def InMemoryEventStore.serve (store : InMemoryEventStore) : StoreCall → Except EventStoreError UInt64 × InMemoryEventStore
  | .append inst events _ _ => store.append inst events
  | .getSequence inst => (.ok (store.getSequence inst), store)

section

variable (store : InMemoryEventStore) (inst : InstanceId) (events : List EventEnvelope)

theorem InMemoryEventStore.append_fits (fit : fits (store.getSequence inst) events = true) :
    store.append inst events = (.ok (finalSequence events),
      ⟨store.sequences.insert inst.text (finalSequence events),
        store.events.insert inst.text (store.eventsOf inst ++ events)⟩) := by
  cases events with
  | nil => cases fit
  | cons first rest =>
    rw [fits, decide_eq_true_iff] at fit
    simp only [append, fit.1, fit.2, ne_eq, not_true_eq_false, ↓reduceIte, finalSequence,
      getLast?_eq_some_getLast (cons_ne_nil first rest), Option.map_some, Option.getD_some]

theorem InMemoryEventStore.append_refused (hu : fits (store.getSequence inst) events = false) :
    (store.append inst events).1.toOption = none ∧ (store.append inst events).2 = store := by
  cases events with
  | nil => exact ⟨rfl, rfl⟩
  | cons first rest =>
    rw [fits, decide_eq_false_iff_not, not_and] at hu
    rw [append]
    by_cases he : first.sequence = store.getSequence inst + 1
    · cases ho : firstGap (first :: rest) with
      | none => exact absurd ho (hu he)
      | some gap => simp [he, Except.toOption]
    · simp [he, Except.toOption]

end

variable [JsonCodec]

def FjallEventStore.serve (store : FjallEventStore) : StoreCall → Except EventStoreError UInt64 × FjallEventStore
  | .append inst events reading since => store.append inst events reading since
  | .getSequence inst => (FjallEventStore.getCurrentSequence store.partition inst, store)

section

variable {partition : Store Bytes Bytes} {inst : InstanceId} {current : UInt64} {events : List EventEnvelope}

theorem FjallEventStore.append_fits (hf : getCurrentSequence partition inst = .ok current)
    (fit : fits current events = true) (reading since : Nat) :
    append ⟨partition, none⟩ inst events reading since =
      (.ok (finalSequence events), ⟨commit partition (events.map (entry inst.bytes)), none⟩) := by
  cases events with
  | nil => cases fit
  | cons first rest =>
    rw [fits, decide_eq_true_iff] at fit
    have hw := eventWrites_eq inst false (first :: rest)
    simp only [append, fit.1, fit.2, hf, inst.toBytes_eq, recordAppend, hw, ne_eq, not_true_eq_false,
      ↓reduceIte, finalSequence, getLast?_eq_some_getLast (cons_ne_nil first rest), Option.map_some,
      Option.getD_some]
    rfl

theorem FjallEventStore.append_refused (hf : getCurrentSequence partition inst = .ok current)
    (hn : fits current events = false) (reading since : Nat) :
    (append ⟨partition, none⟩ inst events reading since).1.toOption = none ∧
      (append ⟨partition, none⟩ inst events reading since).2 = ⟨partition, none⟩ := by
  cases events with
  | nil => exact ⟨rfl, rfl⟩
  | cons first rest =>
    rw [fits, decide_eq_false_iff_not, not_and] at hn
    rw [append]
    cases ho : firstGap (first :: rest) with
    | some gap => exact ⟨rfl, rfl⟩
    | none =>
      have hu : first.sequence ≠ current + 1 := fun he => hn he ho
      simp [hf, inst.toBytes_eq, hu, Except.toOption]

end

section

/-- The two stores hold the same events of each instance, and the counter is their number. -/
structure Agrees (store : FjallEventStore) (memory : InMemoryEventStore) : Prop where
  cold : store.hotSpot = none
  held : ∀ inst : InstanceId, Holds store.partition inst.bytes (memory.eventsOf inst)
  counted : ∀ inst : InstanceId, memory.getSequence inst = UInt64.ofNat (memory.eventsOf inst).length
  bounded : ∀ inst : InstanceId, (memory.eventsOf inst).length < 2 ^ 64 - 1

variable {store : FjallEventStore} {memory : InMemoryEventStore}

theorem Agrees.empty : Agrees .empty .new :=
  ⟨rfl, fun inst => Holds.empty inst.bytes, fun _ => rfl, fun _ => Nat.succ_pos _⟩

theorem Agrees.getCurrentSequence (ha : Agrees store memory) (inst : InstanceId) :
    FjallEventStore.getCurrentSequence store.partition inst = .ok (memory.getSequence inst) := by
  rw [FjallEventStore.getCurrentSequence_eq,
    FjallEventStore.largest_numbered (ha.held inst).numbered inst.length_bytes, ha.counted]

theorem Agrees.append (ha : Agrees store memory) (inst : InstanceId) {events : List EventEnvelope}
    (fit : fits (memory.getSequence inst) events = true)
    (hb : ∀ event ∈ events, event.sequence.toNat < 2 ^ 64 - 1) :
    Agrees ⟨commit store.partition (events.map (entry inst.bytes)), none⟩
      ⟨memory.sequences.insert inst.text (finalSequence events),
        memory.events.insert inst.text (memory.eventsOf inst ++ events)⟩ := by
  rw [ha.counted] at fit
  have next := sequences_of_fits fit (ha.bounded inst) hb
  have hn : events ≠ [] := by
    intro he
    rw [he] at fit
    cases fit
  have hr : (memory.eventsOf inst).length + events.length < 2 ^ 64 - 1 := by
    have hl := length_pos_iff.mpr hn
    have last : (memory.eventsOf inst).length + events.length ∈ events.map fun event => event.sequence.toNat := by
      rw [next, mem_range'_1]
      omega
    obtain ⟨event, mem, same⟩ := mem_map.mp last
    rw [← same]
    exact hb event mem
  refine ⟨rfl, ?_, ?_, ?_⟩
  · intro other
    rw [InMemoryEventStore.eventsOf_insert]
    split_ifs with same
    · rw [← same]
      exact (ha.held inst).commit next
    · exact (ha.held other).commit_other fun _ hs => same (InstanceId.eq_of_isPrefix hs).symm
  · intro other
    rw [InMemoryEventStore.eventsOf_insert, InMemoryEventStore.getSequence_insert]
    split_ifs with same
    · rw [finalSequence_eq hn next, length_append]
    · exact ha.counted other
  · intro other
    rw [InMemoryEventStore.eventsOf_insert]
    split_ifs with same
    · rw [length_append]
      exact hr
    · exact ha.bounded other

theorem Agrees.serve (ha : Agrees store memory) (call : StoreCall)
    (hb : ∀ event ∈ call.events, event.sequence.toNat < 2 ^ 64 - 1) :
    (store.serve call).1.toOption = (memory.serve call).1.toOption ∧ Agrees (store.serve call).2 (memory.serve call).2 := by
  cases call with
  | getSequence inst =>
    rw [FjallEventStore.serve, InMemoryEventStore.serve, ha.getCurrentSequence]
    exact ⟨rfl, ha⟩
  | append inst events reading since =>
    rw [FjallEventStore.serve, InMemoryEventStore.serve]
    have cold : store = ⟨store.partition, none⟩ := by rw [← ha.cold]
    cases fit : fits (memory.getSequence inst) events with
    | false =>
      have hr := FjallEventStore.append_refused (ha.getCurrentSequence inst) fit reading since
      have ho := memory.append_refused inst events fit
      rw [cold, hr.1, hr.2, ho.1, ho.2, ← cold]
      exact ⟨rfl, ha⟩
    | true =>
      rw [cold, FjallEventStore.append_fits (ha.getCurrentSequence inst) fit reading since,
        memory.append_fits inst events fit]
      exact ⟨rfl, ha.append inst fit hb⟩

/-- The stores answer alike and hold the same events, numbered from one on. -/
theorem event_stores_agree {calls : List StoreCall}
    (below : ∀ call ∈ calls, ∀ event ∈ call.events, event.sequence.toNat < 2 ^ 64 - 1) :
    List.Forall₂ (fun reply answer => reply.toOption = answer.toOption)
        ((trace FjallEventStore.serve .empty calls).map Event.reply)
        ((trace InMemoryEventStore.serve .new calls).map Event.reply) ∧
      ∀ inst : InstanceId, let store := final FjallEventStore.serve .empty calls
        let memory := final InMemoryEventStore.serve .new calls
        FjallEventStore.getCurrentSequence store.partition inst = .ok (memory.getSequence inst) ∧
          prefixScan store.partition inst.bytes = (memory.eventsOf inst).map (fun event =>
            (sequenceKey inst.bytes event.sequence, JsonCodec.bytes event.toJson)) ∧
          (memory.eventsOf inst).map (fun event => event.sequence.toNat) =
            List.range' 1 (memory.getSequence inst).toNat := by
  obtain ⟨hr, ha⟩ := simulation FjallEventStore.serve InMemoryEventStore.serve Agrees
    (fun reply answer => reply.toOption = answer.toOption)
    (fun call => ∀ event ∈ call.events, event.sequence.toNat < 2 ^ 64 - 1)
    (fun _ _ call ha hp => ha.serve call hp) Agrees.empty below
  refine ⟨hr, fun inst => ⟨ha.getCurrentSequence inst, (ha.held inst).scanned, ?_⟩⟩
  have hb := ha.bounded inst
  rw [(ha.held inst).sequences, ha.counted, UInt64.toNat_ofNat_of_lt' (Nat.lt_of_lt_of_le hb (by decide))]

end

end

section Sample

attribute [local instance] Ulid.Crockford.codec Json.Text.codec

def sampleEvent (ulid : BitVec 128) (sequence : UInt64) : EventEnvelope :=
  ⟨1, (InstanceId.ofUlid ulid).text, sequence, 1000, .null, .default⟩

def sampleCalls : List StoreCall := [.append (InstanceId.ofUlid 1) [sampleEvent 1 1, sampleEvent 1 2] 0 0,
    .append (InstanceId.ofUlid 1) [sampleEvent 1 2] 0 0, .append (InstanceId.ofUlid 2) [sampleEvent 2 1] 0 0,
    .getSequence (InstanceId.ofUlid 1)]

theorem event_stores_agree_sample : List.Forall₂ (fun reply answer => reply.toOption = answer.toOption)
      ((trace FjallEventStore.serve .empty sampleCalls).map Event.reply)
      ((trace InMemoryEventStore.serve .new sampleCalls).map Event.reply) ∧
    ((final InMemoryEventStore.serve .new sampleCalls).eventsOf (InstanceId.ofUlid 1)).map
        (fun event => event.sequence.toNat) = [1, 2] := by
  obtain ⟨hr, ht⟩ := @event_stores_agree _ _ sampleCalls (by decide)
  obtain ⟨_, _, hs⟩ := ht (InstanceId.ofUlid 1)
  exact ⟨hr, hs.trans (by decide +kernel)⟩

end Sample

end Veloxide.EventStore
