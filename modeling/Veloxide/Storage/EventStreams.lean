import Veloxide.Library.Execution
import Veloxide.Library.JsonText
import Veloxide.Storage.EventLog
import Veloxide.Storage.SequenceScan

namespace Veloxide.EventLog

open ByteCodec OrderedStore KeyEncoding SequenceScan List
open InstanceId (ofUlid)

variable {count : Nat}

theorem nextSequence_eq {partition : Store Bytes Bytes} {start : Bytes} (hs : Numbered partition start count) :
    nextSequence partition start = Numbered.following count := by
  cases count with
  | zero =>
    rw [nextSequence, hs.no_key]
    rfl
  | succ count =>
    obtain ⟨value, last⟩ := hs.last_key
    have hu : (UInt64.ofNat (count + 1)).toNat = count + 1 := UInt64.toNat_ofNat_of_lt' hs.bound
    have hn : UInt64.ofNat (count + 1) ≠ 0 := by
      rw [Ne, ← UInt64.toNat_inj, hu]
      exact Nat.succ_ne_zero count
    have long : ¬ (sequenceKey start (UInt64.ofNat (count + 1))).length < 8 := by simp [sequenceKey]
    have read : sequenceFromKey (sequenceKey start (UInt64.ofNat (count + 1))) = .ok (UInt64.ofNat (count + 1)) := by
      simp only [sequenceFromKey, long, drop_sequenceKey, ofNat_beNat_beBytes, hn, ↓reduceIte]
    simp only [nextSequence, last, read]
    exact Numbered.checkedSucc_following hs.bound

def changedKeys (before after : Store Bytes Bytes) : List Bytes :=
  (after.toList.map Prod.fst).filter fun key => before[key]? ≠ after[key]?

theorem changedKeys_self (partition : Store Bytes Bytes) : changedKeys partition partition = [] := by
  simp [changedKeys]

theorem changedKeys_insert {partition : Store Bytes Bytes} {key : Bytes} (ha : partition[key]? = none)
    (value : Bytes) : changedKeys partition (partition.insert key value) = [key] := by
  refine ordered_ext id ((pairwise_map.mpr Std.ExtTreeMap.ordered_keys_toList).filter _)
    (pairwise_singleton _ key) ?_
  intro other
  rw [changedKeys, mem_filter, mem_singleton, decide_eq_true_iff, get_insert]
  constructor
  · intro hc
    split_ifs at hc with same
    · exact same.symm
    · exact absurd rfl hc.2
  · intro same
    rw [same, if_pos rfl, ha]
    refine ⟨mem_map.mpr ⟨(key, value), ?_, rfl⟩, Option.some_ne_none value |>.symm⟩
    rw [mem_entries, Std.ExtTreeMap.getElem?_insert_self]

section

variable [Ulid]

theorem streamPrefix_isPrefix {ns other : String} {inst otherId : InstanceId} {rest : Bytes}
    (hh : (utf8 ns).length ≤ 255) (ho : (utf8 other).length ≤ 255)
    (hs : streamPrefix ns inst <+: streamPrefix other otherId ++ rest) :
    ns = other ∧ inst = otherId := by
  simp only [streamPrefix, cons_append, cons_prefix_cons, true_and] at hs
  obtain ⟨tags, tail, same⟩ := hs
  have hw : (utf8 ns).length = (utf8 other).length := by
    have hn := congrArg UInt8.toNat tags
    rwa [UInt8.toNat_ofNat_of_lt' (Nat.lt_succ_of_le hh), UInt8.toNat_ofNat_of_lt' (Nat.lt_succ_of_le ho)]
      at hn
  simp only [append_assoc] at same
  obtain ⟨ha, same⟩ := append_inj same hw
  obtain ⟨ids, _⟩ := append_inj (append_cancel_left same) (by simp)
  exact ⟨utf8_injective ha, InstanceId.bytes_injective ids⟩

def sentTo (ns : String) (inst : InstanceId) (request : AppendEventRequest) : Bool :=
  request.namespaceText = ns ∧ request.instanceId = inst

abbrev Appended := Machine.Event (Store Bytes Bytes) AppendEventRequest (Except StorageError EventEnvelope)

section

variable (ns : String) (inst : InstanceId) (event : Appended)

def assigned : Option UInt64 :=
  if sentTo ns inst event.call then event.reply.toOption.map EventEnvelope.sequence else none

def writtenFor : List Bytes :=
  if sentTo ns inst event.call then changedKeys event.before event.after else []

variable (history : List Appended)

def streamLength : Nat := min (history.countP fun event => sentTo ns inst event.call) (2 ^ 64 - 1)

theorem streamLength_append (event : Appended) : streamLength ns inst (history ++ [event]) =
    if sentTo ns inst event.call then
      min (streamLength ns inst history + 1) (2 ^ 64 - 1)
    else streamLength ns inst history := by
  rw [streamLength, streamLength, countP_append, countP_singleton]
  split_ifs
  · omega
  · rfl

structure Recorded (stream : Bytes) (history : List Appended) (partition : Store Bytes Bytes) : Prop where
  stored : Numbered partition stream (streamLength ns inst history)
  sequences : history.filterMap (assigned ns inst) =
    (List.range' 1 (streamLength ns inst history)).map UInt64.ofNat
  keys : history.flatMap (writtenFor ns inst) =
    numberedKeys stream (streamLength ns inst history)

end

section

variable {ns : String} {inst : InstanceId} {stream : Bytes} {partition after : Store Bytes Bytes}
  {history : List Appended} {event : Appended}

theorem Recorded.skip (hr : Recorded ns inst stream history partition)
    (hl : streamLength ns inst (history ++ [event]) = streamLength ns inst history)
    (hs : Numbered after stream (streamLength ns inst history))
    (hu : assigned ns inst event = none) (hn : writtenFor ns inst event = []) :
    Recorded ns inst stream (history ++ [event]) after := by
  refine ⟨hl ▸ hs, ?_, ?_⟩
  · rw [hl, filterMap_append, filterMap_cons_none hu, hr.sequences]
    exact append_nil _
  · rw [hl, flatMap_append, flatMap_singleton, hn, hr.keys]
    exact append_nil _

theorem Recorded.add (hr : Recorded ns inst stream history partition)
    (hl : streamLength ns inst (history ++ [event]) = streamLength ns inst history + 1)
    (hs : Numbered after stream (streamLength ns inst history + 1))
    (hn : assigned ns inst event =
      some (UInt64.ofNat (streamLength ns inst history + 1)))
    (hw : writtenFor ns inst event =
      [sequenceKey stream (UInt64.ofNat (streamLength ns inst history + 1))]) :
    Recorded ns inst stream (history ++ [event]) after := by
  refine ⟨hl ▸ hs, ?_, ?_⟩
  · rw [hl, filterMap_append, filterMap_cons_some hn, hr.sequences, range'_concat,
      map_append, Nat.one_mul, Nat.add_comm 1]
    rfl
  · rw [hl, flatMap_append, flatMap_singleton, hw, hr.keys, numberedKeys_succ]

end

variable [JsonCodec]

def step (partition : Store Bytes Bytes) (request : AppendEventRequest) :
    Except StorageError EventEnvelope × Store Bytes Bytes :=
  match appendEvent partition request with
  | .error failure => (.error failure, partition)
  | .ok (envelope, after) => (.ok envelope, after)

section

variable {ns : String} {inst : InstanceId} {stream : Bytes} {partition : Store Bytes Bytes}
  {request : AppendEventRequest} {history : List Appended} {err : StorageError}

theorem step_invalid (hi : namespacedStreamPrefix request.namespaceText request.instanceId = .error err) :
    step partition request = (.error err, partition) := by
  rw [step, appendEvent, hi]
  rfl

theorem step_numbered (hs : Numbered partition stream count)
    (hn : namespacedStreamPrefix request.namespaceText request.instanceId = .ok stream) :
    step partition request = if count + 1 < 2 ^ 64 then (.ok (envelopeFromRequest request (UInt64.ofNat (count + 1))),
        partition.insert (sequenceKey stream (UInt64.ofNat (count + 1)))
          (JsonCodec.bytes (valueJson (envelopeFromRequest request (UInt64.ofNat (count + 1))))))
      else (.error .sequenceGap, partition) := by
  rw [step, appendEvent, hn]
  simp only [bind, Except.bind, nextSequence_eq hs, encodeEventValue_eq, Numbered.following]
  split_ifs with room <;> rfl

theorem step_other (hs : Numbered partition stream count)
    (hn : namespacedStreamPrefix ns inst = .ok stream)
    (ht : sentTo ns inst request = false) : Numbered (step partition request).2 stream count := by
  rw [step]
  cases ok : appendEvent partition request with
  | error err => exact hs
  | ok result =>
    obtain ⟨seq, _, _, ho, after⟩ := appendEvent_ok ok
    obtain ⟨hh, same⟩ := namespacedStreamPrefix_ok hn
    simp only [after]
    refine hs.insert_other ?_ _
    rw [same]
    intro ha
    obtain ⟨hb, ids⟩ := streamPrefix_isPrefix hh ho ha
    simp [sentTo, hb, ids] at ht

theorem Recorded.next (hr : Recorded ns inst stream history partition)
    (hn : namespacedStreamPrefix ns inst = .ok stream) (request : AppendEventRequest) :
    Recorded ns inst stream (history ++ [Machine.event step partition request])
      (step partition request).2 := by
  have hb := hr.stored.bound
  have hl := streamLength_append ns inst history (Machine.event step partition request)
  cases sent : sentTo ns inst request with
  | false =>
    simp only [Machine.event, sent] at hl
    apply hr.skip hl (step_other hr.stored hn sent)
    · simp [assigned, sent]
    · simp [writtenFor, sent]
  | true =>
    have pair : request.namespaceText = ns ∧ request.instanceId = inst := by
      simpa [sentTo] using sent
    have next := step_numbered hr.stored (by rw [pair.1, pair.2, hn])
    simp only [Machine.event, sent, ↓reduceIte] at hl
    by_cases room : streamLength ns inst history + 1 < 2 ^ 64
    · rw [if_pos room] at next
      rw [Nat.min_eq_left (by omega)] at hl
      apply hr.add hl
      · rw [next]
        exact hr.stored.insert_next room _
      · simp only [assigned, sent, next]
        rfl
      · simp only [writtenFor, sent, next, ↓reduceIte]
        exact changedKeys_insert (hr.stored.absent_next room) _
    · rw [if_neg room] at next
      rw [Nat.min_eq_right (by omega)] at hl
      apply hr.skip (hl.trans (by omega))
      · rw [next]
        exact hr.stored
      · simp [assigned, next, Except.toOption]
      · simp [writtenFor, next, changedKeys_self]

theorem recorded_run (hn : namespacedStreamPrefix ns inst = .ok stream)
    (calls : List AppendEventRequest) :
    Recorded ns inst stream (Machine.trace step ∅ calls) (Machine.final step ∅ calls) :=
  Machine.history_invariant step (fun _ _ => True) (Recorded ns inst stream) ∅
    ⟨Numbered.empty stream, rfl, rfl⟩ (fun _ _ request hr _ => hr.next hn request) calls
    (Machine.Guarded.trivial step ∅ calls)

theorem refused_of_mem_trace {calls : List AppendEventRequest} {event : Appended}
    (hi : namespacedStreamPrefix ns inst = .error err) (mem : event ∈ Machine.trace step ∅ calls) :
    assigned ns inst event = none ∧ writtenFor ns inst event = [] := by
  rw [assigned, writtenFor]
  by_cases sent : sentTo ns inst event.call = true
  · have pair : event.call.namespaceText = ns ∧ event.call.instanceId = inst := by
      simpa [sentTo] using sent
    rw [← pair.1, ← pair.2] at hi
    rw [Machine.event_of_mem_trace step mem, Machine.event, step_invalid hi]
    simp [Except.toOption, changedKeys_self]
  · simp [sent]

end

/-- Each pair has a stream of its own, numbered from one on in call order and found by its prefix. -/
theorem append_event_streams (calls : List AppendEventRequest) (ns : String) (inst : InstanceId) :
    (∀ stream, namespacedStreamPrefix ns inst = .ok stream →
      (Machine.trace step ∅ calls).filterMap (assigned ns inst) =
          (List.range' 1 (min (calls.countP (sentTo ns inst)) (2 ^ 64 - 1))).map UInt64.ofNat ∧
        (prefixScan (Machine.final step ∅ calls) stream).map Prod.fst =
          (Machine.trace step ∅ calls).flatMap (writtenFor ns inst) ∧
        ∀ other otherId otherStream, namespacedStreamPrefix other otherId = .ok otherStream →
          ¬ (ns = other ∧ inst = otherId) → ∀ rest, ¬ stream <+: otherStream ++ rest) ∧
    ∀ failure, namespacedStreamPrefix ns inst = .error failure →
      (Machine.trace step ∅ calls).filterMap (assigned ns inst) = [] ∧
        (Machine.trace step ∅ calls).flatMap (writtenFor ns inst) = [] := by
  refine ⟨?_, ?_⟩
  · intro stream hn
    have hr := recorded_run hn calls
    have sent : (Machine.trace step ∅ calls).countP (fun event => sentTo ns inst event.call) =
        calls.countP (sentTo ns inst) := by
      conv_rhs => rw [← Machine.trace_calls step ∅ calls, countP_map]
      rfl
    refine ⟨?_, ?_, ?_⟩
    · rw [hr.sequences, streamLength, sent]
    · rw [hr.stored.scanned_keys, hr.keys]
    · intro other otherId otherStream ho hd rest hs
      obtain ⟨hh, same⟩ := namespacedStreamPrefix_ok hn
      obtain ⟨ht, ha⟩ := namespacedStreamPrefix_ok ho
      rw [same, ha] at hs
      exact hd (streamPrefix_isPrefix hh ht hs)
  · intro failure hi
    rw [filterMap_eq_nil_iff, flatMap_eq_nil_iff]
    exact ⟨fun _ mem => (refused_of_mem_trace hi mem).1, fun _ mem => (refused_of_mem_trace hi mem).2⟩

end

section Sample

attribute [local instance] Ulid.Crockford.codec Json.Text.codec

def sampleAppend (ns : String) : AppendEventRequest :=
  ⟨ns, ofUlid 1, 1000, .null, .default⟩

def sampleAppends : List AppendEventRequest := [sampleAppend "n", sampleAppend "no", sampleAppend "n/o", sampleAppend "n"]

theorem append_event_streams_sample :
    (Machine.trace step ∅ sampleAppends).filterMap (assigned "n" (ofUlid 1)) = [1, 2] ∧
      (prefixScan (Machine.final step ∅ sampleAppends) (streamPrefix "n" (ofUlid 1))).map Prod.fst =
        (Machine.trace step ∅ sampleAppends).flatMap (writtenFor "n" (ofUlid 1)) ∧
      ¬ streamPrefix "n" (ofUlid 1) <+: streamPrefix "no" (ofUlid 1) ++ [] ∧
      (Machine.trace step ∅ sampleAppends).flatMap (writtenFor "n/o" (ofUlid 1)) = [] := by
  obtain ⟨hs, keys, hi⟩ := (append_event_streams sampleAppends "n" (ofUlid 1)).1
    (streamPrefix "n" (ofUlid 1)) (by decide +kernel)
  refine ⟨hs.trans (by decide +kernel), keys, ?_, ?_⟩
  · exact hi "no" (ofUlid 1) _ (by decide +kernel) (by decide) []
  · exact ((append_event_streams sampleAppends "n/o" (ofUlid 1)).2 .invalidArgument (by decide +kernel)).2

end Sample

end Veloxide.EventLog
