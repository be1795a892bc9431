import Veloxide.Storage.EventReplay
import Veloxide.Storage.SequenceScan

namespace Veloxide.Query

open ByteCodec OrderedStore KeyEncoding List

inductive Predicate
  | sequenceRange (min max : UInt64)
  | timestampRange (minMs maxMs : UInt64)
  | eventType (name : String)
  | schemaVersion (version : UInt8)
deriving DecidableEq

namespace Predicate

def evaluate (predicate : Predicate) (env : EventEnvelope) : Bool := match predicate with
  | sequenceRange min max => min ≤ env.sequence ∧ env.sequence ≤ max
  | timestampRange minMs maxMs => minMs ≤ env.timestampMs ∧ env.timestampMs ≤ maxMs
  | eventType name =>
    ((env.payload.asObject.bind fun fields => Json.lookup fields "type").bind Json.asStr) = some name
  | schemaVersion version => env.schemaVersion = version

def isSequenceRange : Predicate → Bool
  | sequenceRange _ _ => true
  | _ => false

def toRange? : Predicate → Option (UInt64 × UInt64)
  | sequenceRange min max => some (min, max)
  | _ => none

end Predicate

inductive Projection
  | full
  | timeline
  | history
  | effectJournal
  | workflowVersion
deriving DecidableEq

section

variable [Ulid]

inductive LineageQuery
  | instanceId (id : InstanceId)
  | lineageWide (lineageId : String)
  | epochSpecific (lineageId : String) (epoch : UInt64)

def lineageIdNullByte : UInt8 := 255

variable (lineageId : String)

def lineagePrefixGenerator : Except StorageError Bytes := if lineageId = "" then .error .invalidArgument
  else if (utf8 lineageId).length > 255 then .error .invalidArgument
  else if 0 ∈ utf8 lineageId then .error .invalidArgument
  else .ok (lineageIdNullByte :: (utf8 lineageId ++ [lineageIdNullByte]))

def epochPrefixGenerator (epoch : UInt64) : Except StorageError Bytes := do
  let lineagePrefix ← lineagePrefixGenerator lineageId
  return lineagePrefix ++ beBytes 8 epoch.toNat

def LineageQuery.toPrefix : LineageQuery → Except StorageError Bytes
  | instanceId id => prefixGenerator id
  | lineageWide lineageId => lineagePrefixGenerator lineageId
  | epochSpecific lineageId epoch => epochPrefixGenerator lineageId epoch

structure QuerySpec where
  lineageQuery : LineageQuery
  predicates : List Predicate
  projection : Projection
  limit : Option Nat
  offset : Nat

structure QueryPlan where
  start : Bytes
  predicates : List Predicate
  projection : Projection
  limit : Option Nat
  offset : Nat
  scanRangeStart : Option Bytes
  scanRangeEnd : Option Bytes

namespace QueryOptimizer

variable (predicates : List Predicate)

def computeScanRange (start : Bytes) : Option Bytes × Option Bytes := match predicates.findSome? Predicate.toRange? with
  | some (min, max) => (some (start ++ beBytes 8 min.toNat), some (start ++ beBytes 8 max.toNat))
  | none => (none, none)

def pushdownPredicates : List Predicate := predicates.filter fun predicate => !predicate.isSequenceRange

def optimize (spec : QuerySpec) : QueryPlan := let start := spec.lineageQuery.toPrefix.toOption.getD []
  let (scanRangeStart, scanRangeEnd) := computeScanRange spec.predicates start
  { start
    predicates := pushdownPredicates spec.predicates
    projection := spec.projection
    limit := spec.limit
    offset := spec.offset
    scanRangeStart
    scanRangeEnd }

end QueryOptimizer

end

structure OptimizedReplayIterator where
  inner : EventReplayIterator
  predicates : List Predicate
  remainingOffset : Nat
  limit : Option Nat
  count : Nat

variable (iter : OptimizedReplayIterator)

namespace OptimizedReplayIterator

def fromPlan (plan : QueryPlan) (events : Store Bytes Bytes) : OptimizedReplayIterator :=
  let scanStart := plan.scanRangeStart.getD (plan.start ++ beBytes 8 1)
  let scanEnd := plan.scanRangeEnd.getD (plan.start ++ beBytes 8 (2 ^ 64 - 1))
  { inner := ⟨.new, some ((rangeScan events scanStart scanEnd).map .ok), none⟩
    predicates := plan.predicates
    remainingOffset := plan.offset
    limit := plan.limit
    count := 0 }

def full : Bool := iter.limit.any (· ≤ iter.count)

variable [JsonCodec]

def nextLoop : Nat → OptimizedReplayIterator → Option Item × OptimizedReplayIterator
  | 0, iter => (none, iter)
  | rounds + 1, iter =>
    match iter.inner.next with
    | (none, inner) => (none, { iter with inner })
    | (some (.error failure), inner) => (some (.error failure), { iter with inner })
    | (some (.ok env), inner) =>
      if iter.remainingOffset > 0 then
        nextLoop rounds { iter with inner, remainingOffset := iter.remainingOffset - 1 }
      else if iter.predicates.all fun predicate => predicate.evaluate env then
        (some (.ok env), { iter with inner, count := iter.count + 1 })
      else nextLoop rounds { iter with inner }

def rounds (iter : OptimizedReplayIterator) : Nat := (iter.inner.inner.getD []).length + 2

def next (iter : OptimizedReplayIterator) : Option Item × OptimizedReplayIterator :=
  if iter.full then (none, iter) else nextLoop iter.rounds iter

def collect : Nat → OptimizedReplayIterator → List Item
  | 0, _ => []
  | calls + 1, iter =>
    match iter.next with
    | (none, _) => []
    | (some item, after) => item :: collect calls after

def drain (iter : OptimizedReplayIterator) : List Item := collect iter.rounds iter

end OptimizedReplayIterator

section

variable [JsonCodec]

def EventReplayIterator.bound (iter : EventReplayIterator) : Nat :=
  (iter.inner.getD []).length + if iter.initError.isSome then 1 else 0

theorem processKv_inner (iter : EventReplayIterator) (key value : Bytes) :
    ((iter.processKv key value).2.inner = iter.inner ∨ (iter.processKv key value).2.inner = none) ∧
      (iter.processKv key value).2.initError = iter.initError := by
  rw [processKv_eq]
  cases Verdict.ofGuard (.ok (key, value)) with
  | skipped => exact ⟨.inl rfl, rfl⟩
  | refused err => exact ⟨.inr rfl, rfl⟩
  | event seq env =>
    dsimp only
    rcases iter.state.advance seq env with ⟨_ | _ | event, after⟩
    · exact ⟨.inl rfl, rfl⟩
    · exact ⟨.inr rfl, rfl⟩
    · exact ⟨.inl rfl, rfl⟩

variable {after : EventReplayIterator} {item : Item}

theorem nextFrom_bound {state : IteratorState} {guards : List Guard}
    (hy : EventReplayIterator.nextFrom state guards = (some item, after)) : after.bound < guards.length := by
  induction guards generalizing state with
  | nil => cases hy
  | cons guard rest ih =>
    rcases guard with _ | ⟨key, value⟩
    · exact Nat.lt_succ_of_lt (ih hy)
    · rw [EventReplayIterator.nextFrom] at hy
      split at hy
      · exact Nat.lt_succ_of_lt (ih hy)
      · obtain ⟨hi, hu⟩ := processKv_inner ⟨state, some rest, none⟩ key value
        rw [hy] at hi hu
        dsimp only at hi hu
        rcases hi with same | ended
        · simp [EventReplayIterator.bound, same, hu]
        · simp [EventReplayIterator.bound, ended, hu]

theorem next_bound {iter : EventReplayIterator} (hy : iter.next = (some item, after)) :
    after.bound < iter.bound := by
  rw [EventReplayIterator.next] at hy
  split at hy
  · rename_i failure hf
    cases hy
    simp [EventReplayIterator.bound, hf]
  · rename_i hu
    split at hy
    · cases hy
    · rename_i guards held
      have less := nextFrom_bound hy
      simp only [EventReplayIterator.bound, hu, held]
      exact Nat.lt_of_lt_of_le less (Nat.le_add_right _ _)

variable {items : List Item}

theorem EventReplayIterator.Drains.length_le {iter : EventReplayIterator} (hd : iter.Drains items) :
    items.length ≤ iter.bound := by
  induction hd with
  | done _ => exact Nat.zero_le _
  | more hy _ ih => exact Nat.succ_le_of_lt (Nat.lt_of_le_of_lt ih (next_bound hy))

/-- The offset counts all events, also those that the predicates refuse. -/
def selected (predicates : List Predicate) (budget : Option Nat) (offset : Nat) : List Item → List Item
  | [] => []
  | .error failure :: rest =>
    if budget = some 0 then [] else .error failure :: selected predicates budget offset rest
  | .ok env :: rest =>
    if budget = some 0 then []
    else if offset > 0 then selected predicates budget (offset - 1) rest
    else if predicates.all fun predicate => predicate.evaluate env then
      .ok env :: selected predicates (budget.map (· - 1)) offset rest
    else selected predicates budget offset rest

omit [JsonCodec] in
theorem selected_full (predicates : List Predicate) (offset : Nat) (items : List Item) :
    selected predicates (some 0) offset items = [] := by
  rcases items with _ | ⟨_ | env, rest⟩
  · rfl
  · rfl
  · rfl

namespace OptimizedReplayIterator

def budget (iter : OptimizedReplayIterator) : Option Nat := iter.limit.map (· - iter.count)

omit [JsonCodec] in
theorem full_iff : iter.full = true ↔ iter.budget = some 0 := by
  cases hl : iter.limit with
  | none => simp [full, budget, hl]
  | some bound => simp [full, budget, hl, Nat.sub_eq_zero_iff_le]

theorem rounds_gt {iter : OptimizedReplayIterator} (hd : iter.inner.Drains items) :
    items.length < iter.rounds := by
  have hb := hd.length_le
  rw [EventReplayIterator.bound] at hb
  rw [rounds]
  split_ifs at hb <;> omega

def collectFrom (rounds calls : Nat) (iter : OptimizedReplayIterator) : List Item :=
  match nextLoop rounds iter with
  | (none, _) => []
  | (some item, after) => item :: collect calls after

theorem collect_succ (calls : Nat) (iter : OptimizedReplayIterator) :
    collect (calls + 1) iter = if iter.full then [] else collectFrom iter.rounds calls iter := by
  rw [collect, next]
  split_ifs with full
  · rfl
  · rfl

theorem collect_succ_eq {iter : OptimizedReplayIterator} {calls : Nat}
    (hi : ¬ iter.budget = some 0 → collectFrom iter.rounds calls iter =
      selected iter.predicates iter.budget iter.remainingOffset items) :
    collect (calls + 1) iter = selected iter.predicates iter.budget iter.remainingOffset items := by
  rw [collect_succ]
  by_cases hf : iter.budget = some 0
  · rw [if_pos ((full_iff iter).mpr hf), hf, selected_full]
  · rw [if_neg (mt (full_iff iter).mp hf), hi hf]

theorem collectFrom_eq {inner : EventReplayIterator} (hd : inner.Drains items) (predicates : List Predicate)
    (ho : Nat) (limit : Option Nat) (count : Nat) {rounds calls : Nat} (he : items.length < rounds)
    (hn : items.length ≤ calls) (hu : ¬ limit.map (· - count) = some 0) :
    collectFrom rounds calls ⟨inner, predicates, ho, limit, count⟩ =
      selected predicates (limit.map (· - count)) ho items := by
  induction hd generalizing ho count rounds calls with
  | @done iter ends =>
    obtain ⟨rounds, rfl⟩ := Nat.exists_eq_succ_of_ne_zero (Nat.ne_of_gt he)
    have next : iter.next = (none, iter.next.2) := Prod.ext ends rfl
    rw [collectFrom, nextLoop, next]
    rfl
  | @more iter after item items hy rest ih =>
    obtain ⟨rounds, rfl⟩ := Nat.exists_eq_succ_of_ne_zero (Nat.ne_of_gt (Nat.zero_lt_of_lt he))
    obtain ⟨calls, rfl⟩ := Nat.exists_eq_succ_of_ne_zero (Nat.ne_of_gt (Nat.zero_lt_of_lt hn))
    have hf := Nat.lt_of_succ_lt_succ he
    have ha := Nat.le_of_succ_le_succ hn
    have hl : ∀ count, collect (calls + 1) ⟨after, predicates, ho, limit, count⟩ =
        selected predicates (limit.map (· - count)) ho items :=
      fun count => collect_succ_eq fun hb => ih ho count (rounds_gt rest) ha hb
    rw [collectFrom, nextLoop]
    simp only [hy]
    cases item with
    | error err =>
      rw [selected, if_neg hu]
      exact congrArg _ (hl count)
    | ok env =>
      rw [selected, if_neg hu]
      by_cases hs : ho > 0
      · simp only [if_pos hs]
        exact ih (ho - 1) count hf (Nat.le_succ_of_le ha) hu
      · simp only [if_neg hs]
        by_cases hm : (predicates.all fun pred => pred.evaluate env) = true
        · have hp : (limit.map (· - count)).map (· - 1) = limit.map (· - (count + 1)) := Option.map_map ..
          simp only [if_pos hm]
          rw [hp]
          exact congrArg _ (hl (count + 1))
        · simp only [if_neg hm]
          exact ih ho count hf (Nat.le_succ_of_le ha) hu

theorem drain_eq {iter : OptimizedReplayIterator} (hd : iter.inner.Drains items) :
    iter.drain = selected iter.predicates iter.budget iter.remainingOffset items := by
  have he := rounds_gt hd
  exact collect_succ_eq fun hu => collectFrom_eq hd _ _ _ _ he (Nat.le_of_lt_succ he) hu

end OptimizedReplayIterator

end

section

variable [Ulid] [JsonCodec]

def scannedRange (predicates : List Predicate) : UInt64 × UInt64 :=
  (predicates.findSome? Predicate.toRange?).getD (1, UInt64.ofNat (2 ^ 64 - 1))

def QuerySpec.answer (spec : QuerySpec) (stream : List EventEnvelope) : List EventEnvelope :=
  let found := (stream.filter fun env => spec.predicates.all fun predicate => predicate.evaluate env).drop
    spec.offset
  match spec.limit with
  | some limit => found.take limit
  | none => found

/-- The entries with the given start are the events of the stream, without gaps. -/
structure StoredStream (events : Store Bytes Bytes) (start : Bytes) (stream : List EventEnvelope) : Prop where
  entries : List.Forall₂ (fun entry env => entry.1 = sequenceKey start env.sequence ∧
    EventEnvelope.fromBytes entry.2 = .ok env) (prefixScan events start) stream
  consecutive : Consecutive (stream.map EventEnvelope.sequence)

variable {start : Bytes}

omit [JsonCodec] in
theorem LineageQuery.toPrefix_ok {query : LineageQuery} (ok : query.toPrefix = .ok start) :
    ∃ first rest, start = first :: rest ∧ first ≠ 0 := by
  have hl : ∀ {lineageId : String} {start : Bytes}, lineagePrefixGenerator lineageId = .ok start →
      ∃ rest, start = lineageIdNullByte :: rest := by
    intro lineageId start ok
    rw [lineagePrefixGenerator] at ok
    split_ifs at ok
    cases ok
    exact ⟨_, rfl⟩
  cases query with
  | instanceId id => exact prefixGenerator_ok ok
  | lineageWide lineageId =>
    obtain ⟨rest, rfl⟩ := hl ok
    exact ⟨lineageIdNullByte, rest, rfl, by decide⟩
  | epochSpecific lineageId epoch =>
    obtain ⟨start, hg, rest⟩ := Except.bind_eq_ok.mp ok
    obtain ⟨tail, rfl⟩ := hl hg
    cases rest
    exact ⟨lineageIdNullByte, _, rfl, by decide⟩

variable {spec : QuerySpec}

omit [JsonCodec] in
theorem fromPlan_inner (hp : spec.lineageQuery.toPrefix = .ok start) (events : Store Bytes Bytes) :
    (OptimizedReplayIterator.fromPlan (QueryOptimizer.optimize spec) events).inner =
      ⟨.new, some ((rangeScan events (sequenceKey start (scannedRange spec.predicates).1)
        (sequenceKey start (scannedRange spec.predicates).2)).map .ok), none⟩ := by
  have hs : spec.lineageQuery.toPrefix.toOption.getD [] = start := by
    rw [hp]
    rfl
  simp only [OptimizedReplayIterator.fromPlan, QueryOptimizer.optimize, QueryOptimizer.computeScanRange, hs, scannedRange]
  cases spec.predicates.findSome? Predicate.toRange? with
  | none | some range => rfl

omit [Ulid] in
theorem replayed_unversioned {entries : List (Bytes × Bytes)}
    (hu : ∀ entry ∈ entries, entry.1.headD 0 ≠ EventLog.eventKeyVersion) :
    replayed .new (entries.map .ok) = if entries = [] then [] else [.error .unsupportedVersion] := by
  cases entries with
  | nil => rfl
  | cons entry rest =>
    have hr : Verdict.ofGuard (.ok entry) = .refused .unsupportedVersion := by
      rw [Verdict.ofGuard, keySequence_of_version (hu entry mem_cons_self)]
    rw [map_cons, replayed, hr]
    rfl

variable {stream : List EventEnvelope}

omit [Ulid] in
theorem StoredStream.scanned_nil_iff {events : Store Bytes Bytes} (ht : StoredStream events start stream)
    (low high : UInt64) : rangeScan events (sequenceKey start low) (sequenceKey start high) = [] ↔
      ∀ env ∈ stream, ¬ (low ≤ env.sequence ∧ env.sequence ≤ high) := by
  have hb : ∀ seq : UInt64, ((compare (sequenceKey start low) (sequenceKey start seq)).isLE ∧
        (compare (sequenceKey start seq) (sequenceKey start high)).isLE) ↔ low ≤ seq ∧ seq ≤ high := by
    intro seq
    rw [SequenceScan.compare_sequenceKey, SequenceScan.compare_sequenceKey, Nat.isLE_compare, Nat.isLE_compare,
      UInt64.le_iff_toNat_le, UInt64.le_iff_toNat_le]
  constructor
  · intro he env mem hi
    obtain ⟨entry, hl, key, _⟩ := ht.entries.flip.exists_of_mem mem
    obtain ⟨held, _⟩ := (mem_prefixScan events start entry.1 entry.2).mp hl
    have hs : entry ∈ rangeScan events (sequenceKey start low) (sequenceKey start high) :=
      (mem_rangeScan _ _ _ entry.1 entry.2).mpr ⟨held, key ▸ (hb _).mpr hi⟩
    rw [he] at hs
    cases hs
  · intro ho
    rw [eq_nil_iff_forall_not_mem]
    intro entry mem
    obtain ⟨held, ha, hc⟩ := (mem_rangeScan _ _ _ entry.1 entry.2).mp mem
    have hl : entry ∈ prefixScan events start :=
      (mem_prefixScan _ _ entry.1 entry.2).mpr ⟨held, isPrefix_of_between ha hc⟩
    obtain ⟨env, hf, key, _⟩ := ht.entries.exists_of_mem hl
    rw [key] at ha hc
    exact ho env hf ((hb _).mp ⟨ha, hc⟩)

omit [Ulid] in
theorem StoredStream.numbered {events : Store Bytes Bytes} (hs : StoredStream events start stream) :
    ∀ env ∈ stream, env.sequence ≠ 0 := by
  intro env mem
  obtain ⟨entry, _, _, hd⟩ := hs.entries.flip.exists_of_mem mem
  exact EventEnvelope.fromBytes_nonzero hd

omit [JsonCodec] in
theorem answer_nil (hn : ∀ env ∈ stream, env.sequence ≠ 0)
    (ho : ∀ env ∈ stream, ¬ ((scannedRange spec.predicates).1 ≤ env.sequence ∧
      env.sequence ≤ (scannedRange spec.predicates).2)) : spec.answer stream = [] := by
  have hu : (stream.filter fun env => spec.predicates.all fun pred => pred.evaluate env) = [] := by
    rw [filter_eq_nil_iff]
    intro env mem hm
    refine ho env mem ?_
    rw [scannedRange]
    cases hf : spec.predicates.findSome? Predicate.toRange? with
    | none =>
      have hp : env.sequence.toNat ≠ 0 := fun zero => hn env mem (UInt64.toNat_inj.mp zero)
      have hb := env.sequence.toNat_lt
      refine ⟨UInt64.le_iff_toNat_le.mpr ?_, UInt64.le_iff_toNat_le.mpr ?_⟩
      · exact Nat.one_le_iff_ne_zero.mpr hp
      · exact Nat.le_of_lt_succ hb
    | some range =>
      obtain ⟨pred, hl, hr⟩ := exists_of_findSome?_eq_some hf
      have hh := all_eq_true.mp hm pred hl
      cases pred with
      | sequenceRange min max =>
        cases hr
        exact of_decide_eq_true hh
      | timestampRange | eventType | schemaVersion => cases hr
  rw [QuerySpec.answer, hu, drop_nil]
  cases spec.limit with
  | none => rfl
  | some limit => exact take_nil

/-- No key of an instance or lineage has the supported version: the first one ends the iteration. -/
theorem query_optimization_exact_iff {events : Store Bytes Bytes} {spec : QuerySpec} {start : Bytes}
    {stream : List EventEnvelope} (prefixed : spec.lineageQuery.toPrefix = .ok start)
    (stored : StoredStream events start stream) :
    (OptimizedReplayIterator.fromPlan (QueryOptimizer.optimize spec) events).drain = (spec.answer stream).map Except.ok ↔
      spec.limit = some 0 ∨ ∀ env ∈ stream, ¬ ((scannedRange spec.predicates).1 ≤ env.sequence ∧
        env.sequence ≤ (scannedRange spec.predicates).2) := by
  obtain ⟨first, tail, rfl, hv⟩ := LineageQuery.toPrefix_ok prefixed
  have hc := fromPlan_inner prefixed events
  have hu : ∀ entry ∈ rangeScan events (sequenceKey (first :: tail) (scannedRange spec.predicates).1)
      (sequenceKey (first :: tail) (scannedRange spec.predicates).2), entry.1.headD 0 ≠ EventLog.eventKeyVersion := by
    intro entry mem
    obtain ⟨_, hf, hg⟩ := (mem_rangeScan _ _ _ entry.1 entry.2).mp mem
    obtain ⟨rest, same⟩ := isPrefix_of_between hf hg
    rw [← same]
    exact hv
  have hd := OptimizedReplayIterator.drain_eq (hc ▸ drains_replayed _ _)
  have ha := @answer_nil _ spec stream stored.numbered
  rw [← stored.scanned_nil_iff] at ha ⊢
  rw [hd, replayed_unversioned hu]
  have hb : (OptimizedReplayIterator.fromPlan (QueryOptimizer.optimize spec) events).budget = spec.limit := by
    show spec.limit.map (fun bound => bound - 0) = spec.limit
    simp
  rw [hb]
  by_cases hk : spec.limit = some 0
  · have hn : spec.answer stream = [] := by simp [QuerySpec.answer, hk]
    rw [hk, selected_full, hn]
    exact iff_of_true rfl (.inl rfl)
  by_cases he : rangeScan events (sequenceKey (first :: tail) (scannedRange spec.predicates).1)
      (sequenceKey (first :: tail) (scannedRange spec.predicates).2) = []
  · rw [if_pos he, ha he]
    exact iff_of_true rfl (.inr he)
  · rw [if_neg he, selected, if_neg hk]
    refine iff_of_false ?_ (by simp [hk, he])
    intro same
    have hl : Except.error StorageError.unsupportedVersion ∈ (spec.answer stream).map Except.ok := same ▸ mem_cons_self
    obtain ⟨env, _, hi⟩ := mem_map.mp hl
    cases hi

end

section Sample

attribute [local instance] Ulid.Crockford.codec Json.Text.codec

def queriedStart : Bytes := utf8 (InstanceId.ofUlid 1).text

def queriedEvents : Store Bytes Bytes := (∅ : Store Bytes Bytes).insert (sequenceKey queriedStart 1) sampleValue

def sampleSpec : QuerySpec := ⟨.instanceId (InstanceId.ofUlid 1), [], .full, none, 0⟩

theorem queried_stream : ∃ env, env.sequence = 1 ∧ StoredStream queriedEvents queriedStart [env] := by
  have hc : prefixScan queriedEvents queriedStart = [(sequenceKey queriedStart 1, sampleValue)] := by
    decide +kernel
  have hs : (EventEnvelope.fromBytes sampleValue).map EventEnvelope.sequence = .ok 1 := by decide +kernel
  cases hd : EventEnvelope.fromBytes sampleValue with
  | error err =>
    rw [hd] at hs
    cases hs
  | ok env =>
    rw [hd] at hs
    have hf : env.sequence = 1 := Except.ok.inj hs
    refine ⟨env, hf, ?_, isChain_singleton _⟩
    rw [hc, forall₂_cons]
    dsimp only
    rw [hf, hd]
    exact ⟨⟨rfl, rfl⟩, .nil⟩

theorem query_answers_error :
    ∃ env, StoredStream queriedEvents queriedStart [env] ∧ sampleSpec.answer [env] = [env] ∧
      (OptimizedReplayIterator.fromPlan (QueryOptimizer.optimize sampleSpec) queriedEvents).drain ≠ [.ok env] := by
  obtain ⟨env, _, hs⟩ := queried_stream
  refine ⟨env, hs, rfl, ?_⟩
  intro same
  have hd : (OptimizedReplayIterator.fromPlan (QueryOptimizer.optimize sampleSpec) queriedEvents).drain.map
      (Except.map EventEnvelope.sequence) = [.error .unsupportedVersion] := by decide +kernel
  rw [same] at hd
  cases hd

def laterSpec : QuerySpec := { sampleSpec with predicates := [.sequenceRange 2 9] }

theorem query_optimization_exact_iff_sample : ∃ envelope, StoredStream queriedEvents queriedStart [envelope] ∧
    (OptimizedReplayIterator.fromPlan (QueryOptimizer.optimize laterSpec) queriedEvents).drain =
        (laterSpec.answer [envelope]).map Except.ok ∧ ((OptimizedReplayIterator.fromPlan
      (QueryOptimizer.optimize sampleSpec) queriedEvents).drain = (sampleSpec.answer [envelope]).map Except.ok ↔
        sampleSpec.limit = some 0 ∨ ∀ event ∈ [envelope], ¬ ((scannedRange sampleSpec.predicates).1 ≤ event.sequence ∧
          event.sequence ≤ (scannedRange sampleSpec.predicates).2)) := by
  obtain ⟨envelope, hf, hs⟩ := queried_stream
  have hp : sampleSpec.lineageQuery.toPrefix = .ok queriedStart := by decide +kernel
  have hl : laterSpec.lineageQuery.toPrefix = .ok queriedStart := by decide +kernel
  refine ⟨envelope, hs, (query_optimization_exact_iff hl hs).mpr (.inr ?_), query_optimization_exact_iff hp hs⟩
  intro event mem
  rw [mem_singleton.mp mem, hf]
  decide

end Sample

end Veloxide.Query
