import Veloxide.Library.Execution
import Veloxide.Storage.TimerIndex

namespace Veloxide.TimerIndex

open ByteCodec OrderedStore KeyEncoding Unsigned Machine List
open InstanceId (ofUlid)

section

variable [Ulid]

structure Timer where
  fireAtMs : UInt64
  instanceId : InstanceId
  timerId : TimerId
  durationMs : UInt64
deriving DecidableEq

def Timer.identity (timer : Timer) : UInt64 × InstanceId × TimerId := (timer.fireAtMs, timer.instanceId, timer.timerId)

def TimerRecord.identity (record : TimerRecord) : UInt64 × InstanceId × TimerId :=
  (record.fireAtMs, record.instanceId, record.timerId)

inductive Call
  | set (instanceId : InstanceId) (timerId : TimerId) (fireAtMs triggerTimeMs durationMs nowMs : UInt64)
  | delete (instanceId : InstanceId) (timerId : TimerId) (fireAtMs : UInt64)
  | poll (instanceId : InstanceId) (nowMs : UInt64) (maxTimers : Nat)

def Call.timerId? : Call → Option TimerId
  | set _ timerId .. => some timerId
  | delete _ timerId _ => some timerId
  | poll .. => none

inductive Reply
  | changed (result : Except StorageError Unit)
  | polled (records : List TimerRecord)

abbrev Schedule := List Timer

inductive Answer
  | changed (result : Except StorageError Unit)
  | polled (timers : List Timer)

def Agree : Reply → Answer → Prop
  | .changed result, .changed expected => result = expected
  | .polled records, .polled timers => records.map TimerRecord.identity = timers.map Timer.identity
  | _, _ => False

variable [Uuid]

def Timer.tail (timer : Timer) : Bytes := timer.instanceId.bytes ++ beBytes 16 (TimerId.uuid timer.timerId).toNat

def Timer.key (timer : Timer) : Bytes := beBytes 8 timer.fireAtMs.toNat ++ timer.tail

def Timer.value (timer : Timer) : Bytes := beBytes 8 timer.durationMs.toNat

def step (index : Store Bytes Bytes) : Call → Reply × Store Bytes Bytes
  | .set instanceId timerId fireAtMs triggerTimeMs durationMs nowMs =>
    match timerSet index instanceId timerId fireAtMs triggerTimeMs durationMs nowMs with
    | .error failure => (.changed (.error failure), index)
    | .ok after => (.changed (.ok ()), after)
  | .delete instanceId timerId fireAtMs =>
    match timerDelete index instanceId timerId fireAtMs with
    | .error failure => (.changed (.error failure), index)
    | .ok after => (.changed (.ok ()), after)
  | .poll instanceId nowMs maxTimers => (pollExpiredTimers index instanceId nowMs maxTimers).map .polled id

namespace Schedule

def remove (schedule : Schedule) (identity : UInt64 × InstanceId × TimerId) : Schedule :=
  schedule.filter fun timer => timer.identity ≠ identity

def due (schedule : Schedule) (instanceId : InstanceId) (nowMs : UInt64) : List Timer :=
  (schedule.filter fun timer => timer.instanceId = instanceId ∧ timer.fireAtMs ≤ nowMs).mergeSort
    (keyLE Timer.key)

def step (schedule : Schedule) : Call → Answer × Schedule
  | .set instanceId timerId fireAtMs triggerTimeMs durationMs nowMs =>
    if fireAtMs ≤ nowMs ∨ durationMs = 0 ∨ fireAtMs ≠ saturatingAdd triggerTimeMs durationMs then
      (.changed (.error .invalidArgument), schedule)
    else (.changed (.ok ()),
      schedule.remove (fireAtMs, instanceId, timerId) ++ [⟨fireAtMs, instanceId, timerId, durationMs⟩])
  | .delete instanceId timerId fireAtMs => (.changed (.ok ()), schedule.remove (fireAtMs, instanceId, timerId))
  | .poll instanceId nowMs maxTimers =>
    let polled := (schedule.due instanceId nowMs).take maxTimers
    (.polled polled, schedule.filter (· ∉ polled))

end Schedule

/-- The id is the text of its bytes, and the key lies below the end of every scan that should find it. -/
def Timer.Returnable (timer : Timer) : Prop :=
  TimerId.fromBytes (beBytes 16 (TimerId.uuid timer.timerId).toNat) = timer.timerId ∧
    (timer.fireAtMs.toNat < 2 ^ 64 - 1 ∨ timer.tail = List.replicate 32 0)

def Returns (schedule : Schedule) : Call → Prop
  | .poll instanceId nowMs maxTimers => ∀ timer ∈ (schedule.due instanceId nowMs).take maxTimers, timer.Returnable
  | _ => True

section

variable (timer : Timer)

theorem Timer.length_tail : timer.tail.length = 32 := by simp [tail]

theorem Timer.length_key : timer.key.length = 40 := by simp [key, length_tail]

theorem timerKey_eq : timerKey timer.fireAtMs timer.instanceId timer.timerId = .ok timer.key := by
  rw [timerKey, timer.instanceId.toBytes_eq]
  rfl

theorem keyFireAtMs_key : keyFireAtMs timer.key = timer.fireAtMs := by
  rw [keyFireAtMs, Timer.key, take_left' (by simp), ofNat_beNat_beBytes]

theorem Timer.drop_key : timer.key.drop 8 = timer.tail := drop_left' (by simp)

theorem keyInstanceId_key : keyInstanceId timer.key = timer.instanceId := by
  rw [keyInstanceId, Timer.drop_key, Timer.tail, take_left' (by simp), InstanceId.fromBytes_bytes]

theorem keyTimerId_key : keyTimerId timer.key = TimerId.fromBytes (beBytes 16 (TimerId.uuid timer.timerId).toNat) := by
  have hd : timer.key.drop 24 = timer.tail.drop 16 := by rw [← timer.drop_key, drop_drop]
  rw [keyTimerId, hd, Timer.tail, drop_left' (by simp), take_of_length_le (by simp)]

theorem record_identity : (record (timer.key, timer.value)).identity =
    (timer.fireAtMs, timer.instanceId, TimerId.fromBytes (beBytes 16 (TimerId.uuid timer.timerId).toNat)) := by
  simp only [TimerRecord.identity, record, keyFireAtMs_key, keyInstanceId_key, keyTimerId_key]

theorem isClaimed_key (instanceId : InstanceId) (nowMs : UInt64) : isClaimed instanceId nowMs (timer.key, timer.value) =
    decide (timer.instanceId = instanceId ∧ timer.fireAtMs ≤ nowMs) := by
  simp [isClaimed, timer.length_key, keyInstanceId_key, keyFireAtMs_key, Timer.value]

theorem isLE_scanEnd {nowMs : UInt64} (due : timer.fireAtMs ≤ nowMs) : (compare timer.key (scanEnd nowMs)).isLE = true ↔
    timer.fireAtMs.toNat < 2 ^ 64 - 1 ∨ timer.tail = List.replicate 32 0 := by
  have hb := timer.fireAtMs.toNat_lt
  rw [UInt64.le_iff_toNat_le] at due
  rw [Timer.key, scanEnd, compare_append (by simp), compare_beBytes_of_lt timer.fireAtMs.toNat_lt (UInt64.toNat_lt _),
    toNat_saturatingAdd, UInt64.toNat_one]
  by_cases he : timer.fireAtMs.toNat < min (nowMs.toNat + 1) (2 ^ 64 - 1)
  · rw [Nat.compare_eq_lt.mpr he]
    exact iff_of_true rfl (.inl (by omega))
  · have hg : timer.fireAtMs.toNat = min (nowMs.toNat + 1) (2 ^ 64 - 1) := by omega
    rw [Nat.compare_eq_eq.mpr hg, or_iff_right (by omega)]
    exact isLE_zeros timer.length_tail

theorem isLE_scanStart : (compare scanStart timer.key).isLE = true := by
  have hl := zeros_isLE timer.key
  rwa [timer.length_key] at hl

end

theorem TimerId.uuid_fromBytes (uuid : BitVec 128) : TimerId.uuid (TimerId.fromBytes (beBytes 16 uuid.toNat)) = uuid := by
  have hn : beNat (beBytes 16 uuid.toNat) = uuid.toNat := beNat_beBytes_of_lt (Nat.lt_of_lt_of_le uuid.isLt (by decide))
  simp [TimerId.uuid, TimerId.fromBytes, hn, Uuid.ofText_toText]

section

variable (instanceId : InstanceId) (nowMs : UInt64)

theorem claim_eq (left : Nat) (index : Store Bytes Bytes) (entries : List (Bytes × Bytes)) :
    claim instanceId nowMs left index entries = (((entries.filter (isClaimed instanceId nowMs)).take left).map record,
        commit index (((entries.filter (isClaimed instanceId nowMs)).take left).map fun entry => (entry.1, none))) := by
  induction entries generalizing left index with
  | nil =>
    rw [filter_nil, take_nil]
    cases left <;> rfl
  | cons entry entries ih =>
    cases left with
    | zero => rfl
    | succ left =>
      rw [claim, filter_cons]
      split
      · rw [ih]
        rfl
      · exact ih (left + 1) index

end

def Separate (timerIds : List TimerId) : Prop :=
  ∀ first ∈ timerIds, ∀ second ∈ timerIds, TimerId.uuid first = TimerId.uuid second → first = second

/-- The index holds the entries of the timers that are set, which have some of the given ids. -/
structure Represents (timerIds : List TimerId) (index : Store Bytes Bytes) (schedule : Schedule) : Prop where
  stored : ∀ key value, index[key]? = some value ↔ ∃ timer ∈ schedule, timer.key = key ∧ timer.value = value
  distinct : (schedule.map Timer.key).Nodup
  known : ∀ timer ∈ schedule, timer.timerId ∈ timerIds

def reached (schedule : Schedule) (instanceId : InstanceId) (nowMs : UInt64) : List Timer :=
  (schedule.due instanceId nowMs).filter fun timer => (compare timer.key (scanEnd nowMs)).isLE

namespace Represents

variable {timerIds : List TimerId} {index : Store Bytes Bytes} {schedule : Schedule}

theorem empty (timerIds : List TimerId) : Represents timerIds ∅ [] :=
  ⟨fun _ _ => by simp, nodup_nil, fun _ mem => (by cases mem)⟩

theorem due_mem {instanceId : InstanceId} {nowMs : UInt64} {timer : Timer} : timer ∈ schedule.due instanceId nowMs ↔
    timer ∈ schedule ∧ timer.instanceId = instanceId ∧ timer.fireAtMs ≤ nowMs := by
  rw [Schedule.due, mem_mergeSort, mem_filter, decide_eq_true_iff]

theorem due_ordered (hr : Represents timerIds index schedule) (instanceId : InstanceId) (nowMs : UInt64) :
    (schedule.due instanceId nowMs).Pairwise fun first second => compare first.key second.key = .lt :=
  mergeSort_ordered Timer.key (hr.distinct.sublist (filter_sublist.map Timer.key))

theorem claimed_eq (hr : Represents timerIds index schedule) (instanceId : InstanceId) (nowMs : UInt64) :
    (rangeScan index scanStart (scanEnd nowMs)).filter (isClaimed instanceId nowMs) =
      (reached schedule instanceId nowMs).map fun timer => (timer.key, timer.value) := by
  refine ordered_ext Prod.fst ((rangeScan_ordered index _ _).filter _)
    (pairwise_map.mpr ((hr.due_ordered instanceId nowMs).filter _)) ?_
  intro entry
  rw [mem_filter, mem_rangeScan, hr.stored, mem_map]
  constructor
  · intro hc
    obtain ⟨⟨⟨timer, set, key, hv⟩, _, hb⟩, hc⟩ := hc
    have same : (timer.key, timer.value) = entry := Prod.ext key hv
    rw [← same, isClaimed_key, decide_eq_true_iff] at hc
    rw [← key] at hb
    exact ⟨timer, mem_filter.mpr ⟨due_mem.mpr ⟨set, hc⟩, hb⟩, same⟩
  · intro hl
    obtain ⟨timer, mem, same⟩ := hl
    obtain ⟨due, hb⟩ := mem_filter.mp mem
    obtain ⟨set, hc⟩ := due_mem.mp due
    rw [← same, isClaimed_key, decide_eq_true_iff]
    exact ⟨⟨⟨timer, set, rfl, rfl⟩, isLE_scanStart timer, hb⟩, hc⟩

theorem poll_eq (hr : Represents timerIds index schedule) (instanceId : InstanceId) (nowMs : UInt64) (most : Nat) :
    pollExpiredTimers index instanceId nowMs most =
      (((reached schedule instanceId nowMs).take most).map fun timer => record (timer.key, timer.value),
        commit index (((reached schedule instanceId nowMs).take most).map fun timer => (timer.key, none))) := by
  rw [pollExpiredTimers, claim_eq, hr.claimed_eq, ← map_take, map_map, map_map]
  rfl

theorem key_eq_iff (he : Separate timerIds) {first second : Timer} (hf : first.timerId ∈ timerIds)
    (hs : second.timerId ∈ timerIds) : first.key = second.key ↔ first.identity = second.identity := by
  constructor
  · intro same
    have ht : first.fireAtMs = second.fireAtMs := by rw [← keyFireAtMs_key, same, keyFireAtMs_key]
    have ho : first.instanceId = second.instanceId := by rw [← keyInstanceId_key, same, keyInstanceId_key]
    have hu : TimerId.uuid first.timerId = TimerId.uuid second.timerId := by
      rw [← TimerId.uuid_fromBytes (TimerId.uuid first.timerId), ← keyTimerId_key, same, keyTimerId_key,
        TimerId.uuid_fromBytes]
    rw [Timer.identity, Timer.identity, ht, ho, he _ hf _ hs hu]
  · intro same
    obtain ⟨ht, rest⟩ := Prod.mk.inj same
    obtain ⟨ho, ids⟩ := Prod.mk.inj rest
    rw [Timer.key, Timer.key, Timer.tail, Timer.tail, ht, ho, ids]

theorem remove (hr : Represents timerIds index schedule) (hs : Separate timerIds) {timer : Timer}
    (hk : timer.timerId ∈ timerIds) :
    Represents timerIds (index.erase timer.key) (schedule.remove timer.identity) := by
  refine ⟨?_, hr.distinct.sublist (filter_sublist.map Timer.key), ?_⟩
  · intro key value
    rw [get_erase]
    constructor
    · intro held
      split_ifs at held with same
      obtain ⟨other, set, here, ht⟩ := (hr.stored key value).mp held
      refine ⟨other, mem_filter.mpr ⟨set, decide_eq_true fun he => same ?_⟩, here, ht⟩
      rw [← here, (key_eq_iff hs (hr.known other set) hk).mpr he]
    · intro hf
      obtain ⟨other, mem, here, ht⟩ := hf
      obtain ⟨set, hd⟩ := mem_filter.mp mem
      rw [if_neg, hr.stored]
      · exact ⟨other, set, here, ht⟩
      · intro same
        rw [← here] at same
        exact of_decide_eq_true hd
          ((key_eq_iff hs (hr.known other set) hk).mp same.symm)
  · intro other mem
    exact hr.known other (mem_filter.mp mem).1

theorem add (hr : Represents timerIds index schedule) (hs : Separate timerIds) {timer : Timer}
    (hk : timer.timerId ∈ timerIds) :
    Represents timerIds (index.insert timer.key timer.value) (schedule.remove timer.identity ++ [timer]) := by
  have hb := hr.remove hs hk
  have ha : ∀ other ∈ schedule.remove timer.identity, other.key ≠ timer.key := by
    intro other mem same
    have held := (hb.stored other.key other.value).mpr ⟨other, mem, rfl, rfl⟩
    rw [get_erase, if_pos same.symm] at held
    cases held
  refine ⟨?_, ?_, ?_⟩
  · intro key value
    have kept := hb.stored key value
    rw [get_erase] at kept
    rw [get_insert]
    split_ifs at kept ⊢ with here
    · constructor
      · intro held
        exact ⟨timer, by simp, here, Option.some.inj held⟩
      · intro hf
        obtain ⟨other, mem, same, ht⟩ := hf
        rcases mem_append.mp mem with he | last
        · exact absurd (same.trans here.symm) (ha other he)
        · rw [← mem_singleton.mp last, ht]
    · rw [kept]
      constructor
      · intro hf
        obtain ⟨other, mem, same⟩ := hf
        exact ⟨other, mem_append_left _ mem, same⟩
      · intro hf
        obtain ⟨other, mem, same, ht⟩ := hf
        rcases mem_append.mp mem with he | last
        · exact ⟨other, he, same, ht⟩
        · exact absurd (mem_singleton.mp last ▸ same) here
  · rw [map_append, nodup_append]
    refine ⟨hb.distinct, by simp, ?_⟩
    intro first he second last
    obtain ⟨other, mem, same⟩ := mem_map.mp he
    rw [← same, mem_singleton.mp last]
    exact ha other mem
  · intro other mem
    rcases mem_append.mp mem with he | last
    · exact hb.known other he
    · rw [mem_singleton.mp last]
      exact hk

theorem removeAll (hr : Represents timerIds index schedule) {taken : List Timer}
    (hi : ∀ timer ∈ taken, timer ∈ schedule) :
    Represents timerIds (commit index (taken.map fun timer => (timer.key, none))) (schedule.filter (· ∉ taken)) := by
  refine ⟨?_, hr.distinct.sublist (filter_sublist.map Timer.key), ?_⟩
  · intro key value
    have ha := get_commit_removals index (taken.map Timer.key) key
    rw [map_map] at ha
    rw [show (taken.map fun timer => (timer.key, none)) =
      taken.map ((fun removed => (removed, (none : Option Bytes))) ∘ Timer.key) from rfl, ha]
    constructor
    · intro held
      split_ifs at held with gone
      obtain ⟨timer, set, here, hs⟩ := (hr.stored key value).mp held
      refine ⟨timer, mem_filter.mpr ⟨set, decide_eq_true fun mem => gone ?_⟩, here, hs⟩
      rw [← here]
      exact mem_map_of_mem mem
    · intro hf
      obtain ⟨timer, mem, here, hs⟩ := hf
      obtain ⟨set, kept⟩ := mem_filter.mp mem
      rw [if_neg, hr.stored]
      · exact ⟨timer, set, here, hs⟩
      · intro gone
        obtain ⟨other, hc, same⟩ := mem_map.mp gone
        have he := inj_on_of_nodup_map hr.distinct (hi other hc) set (same.trans here.symm)
        rw [← he] at kept
        exact of_decide_eq_true kept hc
  · intro timer mem
    exact hr.known timer (mem_filter.mp mem).1

omit [Ulid] [Uuid] in
theorem take_filter {α : Type} (keep : α → Bool) {items : List α} {count : Nat}
    (all : ∀ item ∈ items.take count, keep item = true) : (items.filter keep).take count = items.take count := by
  induction items generalizing count with
  | nil => rfl
  | cons item items ih =>
    cases count with
    | zero => rfl
    | succ count =>
      have rest := @ih count fun other mem => all other (mem_cons_of_mem _ mem)
      rw [filter_cons_of_pos (all item mem_cons_self), take_succ_cons, take_succ_cons, rest]

theorem take_reached {instanceId : InstanceId} {nowMs : UInt64} {maxTimers : Nat}
    (hr : ∀ timer ∈ (schedule.due instanceId nowMs).take maxTimers, timer.Returnable) :
    (reached schedule instanceId nowMs).take maxTimers = (schedule.due instanceId nowMs).take maxTimers := by
  apply take_filter
  intro timer mem
  have due := due_mem.mp (mem_of_mem_take mem)
  exact (isLE_scanEnd timer due.2.2).mpr (hr timer mem).2

theorem poll_agrees_iff (hr : Represents timerIds index schedule) (instanceId : InstanceId) (nowMs : UInt64)
    (most : Nat) : (pollExpiredTimers index instanceId nowMs most).1.map TimerRecord.identity =
        ((schedule.due instanceId nowMs).take most).map Timer.identity ↔
      ∀ timer ∈ (schedule.due instanceId nowMs).take most, timer.Returnable := by
  simp only [hr.poll_eq, map_map, Function.comp_def, record_identity]
  constructor
  · intro same timer mem
    have hl : timer.identity ∈ ((schedule.due instanceId nowMs).take most).map Timer.identity := mem_map_of_mem mem
    rw [← same] at hl
    obtain ⟨found, hc, he⟩ := mem_map.mp hl
    obtain ⟨_, hb⟩ := mem_filter.mp (mem_of_mem_take hc)
    have set := due_mem.mp (mem_of_mem_take mem)
    obtain ⟨ht, rest⟩ := Prod.mk.inj he
    obtain ⟨ho, ids⟩ := Prod.mk.inj rest
    have hu : TimerId.uuid found.timerId = TimerId.uuid timer.timerId := by
      rw [← ids, TimerId.uuid_fromBytes]
    have keys : found.key = timer.key := by
      rw [Timer.key, Timer.key, Timer.tail, Timer.tail, ht, ho, hu]
    rw [keys] at hb
    exact ⟨by rw [← hu]; exact ids, (isLE_scanEnd timer set.2.2).mp hb⟩
  · intro ha
    rw [take_reached ha]
    apply map_congr_left
    intro timer mem
    rw [(ha timer mem).1, Timer.identity]

theorem step (hr : Represents timerIds index schedule) (hs : Separate timerIds) (call : Call)
    (hp : ∀ timerId ∈ call.timerId?, timerId ∈ timerIds) :
    (Agree (TimerIndex.step index call).1 (schedule.step call).1 ↔ Returns schedule call) ∧
      (Returns schedule call → Represents timerIds (TimerIndex.step index call).2 (schedule.step call).2) := by
  cases call with
  | set instanceId timerId fire triggerTimeMs durationMs nowMs =>
    have hk := timerKey_eq ⟨fire, instanceId, timerId, durationMs⟩
    have ha := @add _ _ timerIds index schedule hr hs
      ⟨fire, instanceId, timerId, durationMs⟩ (hp timerId rfl)
    simp only [TimerIndex.step, timerSet, Schedule.step, hk]
    by_cases past : fire ≤ nowMs
    · rw [if_pos past, if_pos (.inl past)]
      exact ⟨iff_of_true rfl trivial, fun _ => hr⟩
    by_cases zero : durationMs = 0
    · rw [if_neg past, if_pos zero, if_pos (.inr (.inl zero))]
      exact ⟨iff_of_true rfl trivial, fun _ => hr⟩
    by_cases ho : fire ≠ saturatingAdd triggerTimeMs durationMs
    · rw [if_neg past, if_neg zero, if_pos ho, if_pos (.inr (.inr ho))]
      exact ⟨iff_of_true rfl trivial, fun _ => hr⟩
    · rw [if_neg past, if_neg zero, if_neg ho, if_neg (by simp [past, zero, ho])]
      exact ⟨iff_of_true rfl trivial, fun _ => ha⟩
  | delete instanceId timerId fire =>
    have hk := timerKey_eq ⟨fire, instanceId, timerId, 0⟩
    have he := @remove _ _ timerIds index schedule hr hs
      ⟨fire, instanceId, timerId, 0⟩ (hp timerId rfl)
    simp only [TimerIndex.step, timerDelete, Schedule.step, hk]
    exact ⟨iff_of_true rfl trivial, fun _ => he⟩
  | poll instanceId nowMs most =>
    refine ⟨hr.poll_agrees_iff instanceId nowMs most, ?_⟩
    intro ht
    have hi : ∀ timer ∈ (schedule.due instanceId nowMs).take most, timer ∈ schedule :=
      fun timer mem => (due_mem.mp (mem_of_mem_take mem)).1
    simp only [TimerIndex.step, hr.poll_eq, take_reached ht, Schedule.step]
    exact hr.removeAll hi

end Represents

/-- Polls are exact as long as the timers that are due have the text of their bytes as id. -/
theorem timer_polling_exact_iff {calls : List Call} (separate : Separate (calls.filterMap Call.timerId?)) :
    (List.Forall₂ Agree ((trace step ∅ calls).map Event.reply) ((trace Schedule.step [] calls).map Event.reply) ↔
      Guarded Schedule.step Returns [] calls) ∧ (Guarded Schedule.step Returns [] calls →
      Represents (calls.filterMap Call.timerId?) (final step ∅ calls) (final Schedule.step [] calls)) :=
  lockstep_iff step Schedule.step (Represents (calls.filterMap Call.timerId?)) Agree Returns
    (fun call => ∀ timerId ∈ call.timerId?, timerId ∈ calls.filterMap Call.timerId?)
    (fun _ _ call hr hp => hr.step separate call hp)
    (Represents.empty _)
    fun call mem _ hn => mem_filterMap.mpr ⟨call, mem, hn⟩

end

section Sample

attribute [local instance] Ulid.Crockford.codec Uuid.Hyphenated.codec

def sampleId : TimerId := TimerId.fromBytes (beBytes 16 7)

def sampleSet (timerId : TimerId) (fireAtMs : UInt64) : Call := .set (ofUlid 1) timerId fireAtMs 0 fireAtMs 0

theorem timer_polling_exact_iff_sample : List.Forall₂ Agree
      ((trace step ∅ [sampleSet sampleId 10, .poll (ofUlid 1) 10 5]).map Event.reply)
      ((trace Schedule.step [] [sampleSet sampleId 10, .poll (ofUlid 1) 10 5]).map Event.reply) := by
  have he : Separate
      ([sampleSet sampleId 10, .poll (ofUlid 1) 10 5].filterMap Call.timerId?) := by
    intro first hf second hs _
    exact (mem_singleton.mp hf).trans (mem_singleton.mp hs).symm
  apply (timer_polling_exact_iff he).1.mpr
  refine ⟨trivial, ?_, trivial⟩
  intro timer mem
  have set := (Represents.due_mem.mp (mem_of_mem_take mem)).1
  have only : (Schedule.step [] (sampleSet sampleId 10)).2 = [⟨10, ofUlid 1, sampleId, 10⟩] := by
    decide +kernel
  rw [only] at set
  rw [mem_singleton.mp set]
  exact ⟨by decide +kernel, .inl (by decide)⟩

def samplePoll (timerId : TimerId) (fireAtMs : UInt64) : List TimerRecord :=
  (pollExpiredTimers (step ∅ (sampleSet timerId fireAtMs)).2 (ofUlid 1) fireAtMs 5).1

theorem sample_due {timerId : TimerId} {fire : UInt64}
    (ha : (Schedule.step [] (sampleSet timerId fire)).2 = [⟨fire, ofUlid 1, timerId, fire⟩]) :
    (Schedule.step (Schedule.step [] (sampleSet timerId fire)).2 (.poll (ofUlid 1) fire 5)).1 =
      .polled [⟨fire, ofUlid 1, timerId, fire⟩] := by
  rw [ha]
  simp [Schedule.step, Schedule.due]

/-- The timer `timer-1` comes back under another id, and a timer of the last millisecond never. -/
theorem polled_otherwise : ¬ Agree (.polled (samplePoll ⟨"timer-1", by decide⟩ 10))
      (Schedule.step (Schedule.step [] (sampleSet ⟨"timer-1", by decide⟩ 10)).2 (.poll (ofUlid 1) 10 5)).1 ∧
    ¬ Agree (.polled (samplePoll sampleId (UInt64.ofNat (2 ^ 64 - 1))))
      (Schedule.step (Schedule.step [] (sampleSet sampleId (UInt64.ofNat (2 ^ 64 - 1)))).2
        (.poll (ofUlid 1) (UInt64.ofNat (2 ^ 64 - 1)) 5)).1 := by
  rw [sample_due (by decide +kernel), sample_due (by decide +kernel)]
  refine ⟨fun ha => ?_, fun ha => ?_⟩
  · have hr : (samplePoll ⟨"timer-1", by decide⟩ 10).map TimerRecord.identity ≠
        [(10, ofUlid 1, ⟨"timer-1", by decide⟩)] := by decide +kernel
    exact hr ha
  · have hr : (samplePoll sampleId (UInt64.ofNat (2 ^ 64 - 1))).map TimerRecord.identity = [] := by decide +kernel
    cases hr.symm.trans ha

end Sample

end Veloxide.TimerIndex
