import Veloxide.CircuitBreaker.RateLimit

namespace Veloxide.CircuitBreaker

open List

variable {config : CircuitBreakerConfig} {name : WorkflowName} {window : FailureWindow} {count : Nat}

section

structure WellKept (records : List FailureRecord) : Prop where
  sorted : records.Pairwise fun first second => first.failedAt ≤ second.failedAt
  distinct : (records.map FailureRecord.hash).Nodup

variable {records : List FailureRecord} {hash : BinaryHash} {failedAt : Instant}

theorem WellKept.filter (kept : WellKept records) (keep : FailureRecord → Bool) : WellKept (records.filter keep) :=
  ⟨kept.sorted.filter keep, kept.distinct.sublist (filter_sublist.map _)⟩

theorem refresh_hashes (hash : BinaryHash) (failedAt : Instant) (records : List FailureRecord) :
    (refresh hash failedAt records).map FailureRecord.hash = records.map FailureRecord.hash := by
  induction records with
  | nil => rfl
  | cons record records ih =>
    rw [refresh]
    split_ifs with found
    · rfl
    · rw [map_cons, map_cons, ih]

theorem mem_refresh (hd : (records.map FailureRecord.hash).Nodup)
    (hk : hash ∈ records.map FailureRecord.hash) (other : FailureRecord) :
    other ∈ refresh hash failedAt records ↔ other = ⟨hash, failedAt⟩ ∨ other ∈ records ∧ other.hash ≠ hash := by
  induction records with
  | nil => cases hk
  | cons record records ih =>
    obtain ⟨hf, hd⟩ := nodup_cons.mp hd
    rw [refresh]
    split_ifs with found
    · subst found
      have ha (present : other ∈ records) : other.hash ≠ record.hash := by
        intro same
        rw [← same] at hf
        exact hf (mem_map_of_mem present)
      rw [mem_cons, mem_cons]
      refine or_congr_right ⟨fun present => ⟨.inr present, ha present⟩, ?_⟩
      rintro ⟨rfl | present, hi⟩
      · exact absurd rfl hi
      · exact present
    · have hl := (mem_cons.mp hk).resolve_left (Ne.symm found)
      rw [mem_cons, mem_cons, ih hd hl]
      constructor
      · rintro (rfl | new | ⟨present, hi⟩)
        · exact .inr ⟨.inl rfl, found⟩
        · exact .inl new
        · exact .inr ⟨.inr present, hi⟩
      · rintro (new | ⟨rfl | present, hi⟩)
        · exact .inr (.inl new)
        · exact .inl rfl
        · exact .inr (.inr ⟨present, hi⟩)

theorem insertIdx_sorted (hs : records.Pairwise fun first second => first.failedAt ≤ second.failedAt) :
    (records.insertIdx (partitionPoint failedAt records) ⟨hash, failedAt⟩).Pairwise
      fun first second => first.failedAt ≤ second.failedAt := by
  induction records with
  | nil => simp [partitionPoint]
  | cons record records ih =>
    obtain ⟨hl, hs⟩ := pairwise_cons.mp hs
    by_cases he : record.failedAt ≤ failedAt
    · have hp : partitionPoint failedAt (record :: records) = partitionPoint failedAt records + 1 := by
        simp [partitionPoint, he]
      rw [hp, insertIdx_succ_cons, pairwise_cons]
      refine ⟨fun other mem => ?_, ih hs⟩
      rcases (mem_insertIdx (takeWhile_sublist _).length_le).mp mem with rfl | present
      · exact he
      · exact hl other present
    · have hp : partitionPoint failedAt (record :: records) = 0 := by
        simp [partitionPoint, he]
      rw [hp, insertIdx_zero, pairwise_cons, pairwise_cons]
      have hb := Nat.le_of_not_le he
      refine ⟨forall_mem_cons.mpr ⟨hb, fun other mem => ?_⟩, hl, hs⟩
      exact Nat.le_trans hb (hl other mem)

theorem mergeSort_sorted (records : List FailureRecord) :
    (records.mergeSort fun first second => first.failedAt ≤ second.failedAt).Pairwise
      fun first second => first.failedAt ≤ second.failedAt := by
  have ht : ∀ first second third : FailureRecord, decide (first.failedAt ≤ second.failedAt) = true →
      decide (second.failedAt ≤ third.failedAt) = true → decide (first.failedAt ≤ third.failedAt) = true := by
    simp only [decide_eq_true_eq]
    exact fun _ _ _ => Nat.le_trans
  have ha : ∀ first second : FailureRecord,
      (decide (first.failedAt ≤ second.failedAt) || decide (second.failedAt ≤ first.failedAt)) = true := by
    simp only [Bool.or_eq_true, decide_eq_true_eq]
    exact fun _ _ => Nat.le_total _ _
  exact (pairwise_mergeSort ht ha records).imp fun ho => of_decide_eq_true ho

theorem recordFailureInWindow_spec {after : FailureWindow} {duration : Nat} (kept : WellKept window.records)
    (recorded : recordFailureInWindow window hash failedAt duration = (count, after)) :
    count = after.records.length ∧ WellKept after.records ∧ ∀ other, other ∈ after.records ↔
      other = ⟨hash, failedAt⟩ ∨ other ∈ window.records ∧ other.hash ≠ hash ∧ failedAt - other.failedAt ≤ duration := by
  rw [recordFailureInWindow] at recorded
  have live := kept.filter fun record => durationSince failedAt record.failedAt ≤ duration
  have hm (other : FailureRecord) :
      other ∈ window.records.filter (fun record => durationSince failedAt record.failedAt ≤ duration) ↔
        other ∈ window.records ∧ failedAt - other.failedAt ≤ duration := by
    rw [mem_filter, decide_eq_true_eq]
    rfl
  generalize window.records.filter (fun record => durationSince failedAt record.failedAt ≤ duration) = records at *
  obtain ⟨rfl, rfl⟩ := Prod.mk.inj recorded
  refine ⟨rfl, ?_⟩
  split_ifs with known
  · have hl : hash ∈ records.map FailureRecord.hash := by
      obtain ⟨record, mem, same⟩ := any_eq_true.mp known
      exact mem_map.mpr ⟨record, mem, of_decide_eq_true same⟩
    have perm := mergeSort_perm (refresh hash failedAt records) fun first second => first.failedAt ≤ second.failedAt
    refine ⟨⟨mergeSort_sorted _, ?_⟩, fun other => ?_⟩
    · rw [(perm.map _).nodup_iff, refresh_hashes]
      exact live.distinct
    · rw [perm.mem_iff, mem_refresh live.distinct hl, hm]
      exact or_congr_right ⟨fun both => ⟨both.1.1, both.2, both.1.2⟩, fun both => ⟨⟨both.1, both.2.2⟩, both.2.1⟩⟩
  · have hn : hash ∉ records.map FailureRecord.hash := by
      intro hl
      obtain ⟨record, mem, same⟩ := mem_map.mp hl
      exact known (any_eq_true.mpr ⟨record, mem, decide_eq_true same⟩)
    have hi : partitionPoint failedAt records ≤ records.length := (takeWhile_sublist _).length_le
    have perm := perm_insertIdx (⟨hash, failedAt⟩ : FailureRecord) records hi
    refine ⟨⟨insertIdx_sorted live.sorted, ?_⟩, fun other => ?_⟩
    · rw [(perm.map _).nodup_iff]
      exact nodup_cons.mpr ⟨hn, live.distinct⟩
    · rw [perm.mem_iff, mem_cons, hm]
      refine or_congr_right ⟨fun both => ⟨both.1, ?_, both.2⟩, fun both => ⟨both.1, both.2.2⟩⟩
      rintro rfl
      exact hn (mem_map_of_mem ((hm other).mpr both))

end

variable {now : Instant}

section

def note (workflowName : WorkflowName) (failures : List FailureRecord) (event : Event) : List FailureRecord :=
  match event.call, event.reply with
  | .recordFailure other hash now, _ => if other = workflowName then failures ++ [⟨hash, now⟩] else failures
  | .unquarantine other _, .unquarantined (.ok _) => if other = workflowName then [] else failures
  | _, _ => failures

def failures (workflowName : WorkflowName) (history : List Event) : List FailureRecord :=
  history.foldl (note workflowName) []

def latest (failures : List FailureRecord) (hash : BinaryHash) : Option Instant :=
  (failures.reverse.find? fun record => record.hash = hash).map FailureRecord.failedAt

def liveHashes (window : Duration) (failures : List FailureRecord) (now : Instant) : List BinaryHash :=
  (failures.map FailureRecord.hash).dedup.filter fun hash =>
    (latest failures hash).any fun failedAt => now - failedAt ≤ window

variable {history : List Event} {event : Event} {recorded : List FailureRecord} {record : FailureRecord}

theorem failures_append_singleton : failures name (history ++ [event]) = note name (failures name history) event := by
  rw [failures, foldl_append]
  rfl

theorem note_elsewhere (ho : event.call.workflowName ≠ name) : note name recorded event = recorded := by
  obtain ⟨before, call, reply, after⟩ := event
  cases call with
  | evaluateRegistration => rfl
  | recordFailure => exact if_neg ho
  | unquarantine =>
    cases reply with
    | evaluated | recorded => rfl
    | unquarantined result =>
      cases result with
      | error => rfl
      | ok => exact if_neg ho

theorem latest_append_singleton (hash : BinaryHash) :
    latest (recorded ++ [record]) hash = if record.hash = hash then some record.failedAt else latest recorded hash := by
  rw [latest, reverse_append, reverse_singleton, singleton_append, find?_cons]
  by_cases same : record.hash = hash
  · simp [same]
  · simp [same, latest]

variable {hash : BinaryHash}

theorem mem_of_latest {failedAt : Instant} (hf : latest recorded hash = some failedAt) :
    hash ∈ recorded.map FailureRecord.hash := by
  obtain ⟨record, hi, _⟩ := Option.map_eq_some_iff.mp hf
  have same := find?_some hi
  have mem := mem_reverse.mp (mem_of_find?_eq_some hi)
  exact mem_map.mpr ⟨record, mem, of_decide_eq_true same⟩

theorem mem_liveHashes {window : Duration} : hash ∈ liveHashes window recorded now ↔
    ∃ failedAt, latest recorded hash = some failedAt ∧ now - failedAt ≤ window := by
  rw [liveHashes, mem_filter, mem_dedup, Option.any_eq_true]
  simp only [decide_eq_true_eq]
  constructor
  · exact fun both => both.2
  · rintro ⟨failedAt, hf, live⟩
    exact ⟨mem_of_latest hf, failedAt, hf, live⟩

end

section

/-- Out of quarantine, a window holds the latest failure of each hash that was never too old at a call. -/
structure Tracked (config : CircuitBreakerConfig) (workflowName : WorkflowName) (history : List Event)
    (state : CircuitBreakerState) : Prop where
  kept : WellKept (state.account workflowName).records
  sound : state.getStatus workflowName ≠ .quarantined → ∀ record ∈ (state.account workflowName).records,
    latest (failures workflowName history) record.hash = some record.failedAt
  complete : state.getStatus workflowName ≠ .quarantined → ∀ hash failedAt,
    latest (failures workflowName history) hash = some failedAt →
      ⟨hash, failedAt⟩ ∈ (state.account workflowName).records ∨
        ∃ event ∈ history, ∃ past, event.call.time = some past ∧ config.failureWindow < past - failedAt

variable {history : List Event} {state : CircuitBreakerState} {call : Call} {after : CircuitBreakerState}
  {event : Event}

theorem Tracked.quiet (ht : Tracked config name history state)
    (records : (after.account name).records = (state.account name).records)
    (hs : after.getStatus name = state.getStatus name)
    (hn : after.getStatus name ≠ .quarantined → note name (failures name history) event = failures name history) :
    Tracked config name (history ++ [event]) after := by
  refine ⟨by rw [records]; exact ht.kept, fun hu => ?_, fun hu => ?_⟩
  · rw [records, failures_append_singleton, hn hu]
    exact ht.sound (hs ▸ hu)
  · rw [records, failures_append_singleton, hn hu]
    intro hash failedAt hf
    rcases ht.complete (hs ▸ hu) hash failedAt hf with held | ⟨past, mem, old⟩
    · exact .inl held
    · exact .inr ⟨past, mem_append_left _ mem, old⟩

variable {hash : BinaryHash}

theorem Tracked.count_eq (ht : Tracked config name history state) (hu : state.getStatus name ≠ .quarantined)
    (hi : ∀ event ∈ history, ∀ past, event.call.time = some past → past ≤ now)
    (recorded : recordFailureInWindow ⟨(state.account name).records⟩ hash now config.failureWindow = (count, window)) :
    count = (liveHashes config.failureWindow (failures name history ++ [⟨hash, now⟩]) now).length := by
  obtain ⟨length, kept, hm⟩ := recordFailureInWindow_spec ht.kept recorded
  rw [length, ← length_map FailureRecord.hash]
  refine ((perm_ext_iff_of_nodup kept.distinct ((nodup_dedup _).filter _)).mpr fun other => ?_).length_eq
  rw [← liveHashes, mem_liveHashes, mem_map]
  simp only [hm, latest_append_singleton]
  by_cases same : hash = other
  · subst same
    simp only [if_true]
    exact iff_of_true ⟨⟨hash, now⟩, .inl rfl, rfl⟩ ⟨now, rfl, by simp⟩
  · simp only [if_neg same]
    constructor
    · rintro ⟨record, rfl | ⟨hp, _, live⟩, rfl⟩
      · exact absurd rfl same
      · exact ⟨record.failedAt, ht.sound hu record hp, live⟩
    · rintro ⟨failedAt, hf, live⟩
      rcases ht.complete hu other failedAt hf with hp | ⟨event, mem, past, time, old⟩
      · exact ⟨⟨other, failedAt⟩, .inr ⟨hp, Ne.symm same, live⟩, rfl⟩
      · have hl := hi event mem past time
        exact absurd (Nat.lt_of_lt_of_le old (Nat.sub_le_sub_right hl failedAt)) (Nat.not_lt.mpr live)

theorem Tracked.counted (ht : Tracked config name history state) (hu : state.getStatus name ≠ .quarantined)
    (recorded : recordFailureInWindow ⟨(state.account name).records⟩ hash now config.failureWindow = (count, window))
    (hc : event.call = .recordFailure name hash now) (records : (after.account name).records = window.records) :
    Tracked config name (history ++ [event]) after := by
  obtain ⟨_, kept, hm⟩ := recordFailureInWindow_spec ht.kept recorded
  have hn : failures name (history ++ [event]) = failures name history ++ [⟨hash, now⟩] := by
    rw [failures_append_singleton, note, hc]
    exact if_pos rfl
  refine ⟨by rw [records]; exact kept, fun _ record mem => ?_, fun _ other failedAt hf => ?_⟩
  · rw [records, hm] at mem
    rw [hn, latest_append_singleton]
    rcases mem with rfl | ⟨hp, hd, _⟩
    · exact if_pos rfl
    · rw [if_neg (Ne.symm hd)]
      exact ht.sound hu record hp
  · rw [hn, latest_append_singleton] at hf
    rw [records, hm]
    by_cases same : hash = other
    · subst same
      rw [if_pos rfl] at hf
      cases hf
      exact .inl (.inl rfl)
    · rw [if_neg same] at hf
      rcases ht.complete hu other failedAt hf with hp | ⟨past, mem, old⟩
      · by_cases live : now - failedAt ≤ config.failureWindow
        · exact .inl (.inr ⟨hp, Ne.symm same, live⟩)
        · exact .inr ⟨event, by simp, now, by rw [hc]; rfl, Nat.not_le.mp live⟩
      · exact .inr ⟨past, mem_append_left _ mem, old⟩

theorem Tracked.cleared (records : (after.account name).records = [])
    (hn : note name (failures name history) event = []) : Tracked config name (history ++ [event]) after := by
  refine ⟨by rw [records]; exact ⟨.nil, .nil⟩, fun _ => by simp [records], fun _ hash failedAt hf => ?_⟩
  rw [failures_append_singleton, hn] at hf
  cases hf

theorem Tracked.moved {reply : Reply} {tokens : OrderedStore.Store String Unit}
    (ht : Tracked config call.workflowName history state)
    (hm : Moves config tokens (state.account call.workflowName) call reply (after.account call.workflowName)) :
    Tracked config call.workflowName (history ++ [⟨state, call, reply, after⟩]) after := by
  have hs : after.getStatus call.workflowName = (after.account call.workflowName).standing := rfl
  generalize same : after.account call.workflowName = account at hm hs
  cases hm with
  | unauthorized | blocked | limited => exact ht.quiet (by rw [same]) hs fun _ => rfl
  | forced | registered => exact ht.quiet (by rw [same]; rfl) hs fun _ => rfl
  | ignored hq =>
    exact ht.quiet (by rw [same]) hs fun hu => absurd (hs.trans hq) hu
  | counted hu recorded => exact ht.counted hu recorded rfl (by rw [same]; rfl)
  | tripped hu recorded => exact ht.counted hu recorded rfl (by rw [same]; rfl)
  | refused => exact ht.quiet (by rw [same]) hs fun _ => rfl
  | released => exact .cleared (by rw [same]; rfl) (if_pos rfl)

theorem Tracked.step (ht : Tracked config name history state) :
    Tracked config name (history ++ [Machine.event (step config) state call]) (step config state call).2 := by
  by_cases ha : call.workflowName = name
  · subst ha
    exact ht.moved (step_moves state call)
  · have same := (@step_touches config state call).elsewhere name ha
    exact ht.quiet (by rw [same]) (congrArg Account.standing same) fun _ => note_elsewhere ha

theorem tracked_reached (config : CircuitBreakerConfig) (name : WorkflowName) {start : CircuitBreakerState}
    (hf : start.failureTracker = ∅) (calls : List Call) :
    Tracked config name (Machine.trace (CircuitBreaker.step config) start calls)
      (Machine.final (CircuitBreaker.step config) start calls) := by
  have he : (start.account name).records = [] := by
    rw [Account.records, CircuitBreakerState.account, hf]
    simp
  refine Machine.history_invariant (CircuitBreaker.step config) (fun _ _ => True) (Tracked config name) start
    ⟨by rw [he]; exact ⟨.nil, .nil⟩, fun _ => by simp [he], fun _ hash failedAt ho => ?_⟩
    (fun history state call ht _ => ht.step) calls (.trivial _ _ _)
  cases ho

theorem Tracked.trips_iff (ht : Tracked config name history state)
    (hi : ∀ event ∈ history, ∀ past, event.call.time = some past → past ≤ now) :
    (∃ quarantine, (CircuitBreaker.step config state (.recordFailure name hash now)).1 =
        .recorded (.ok (some quarantine))) ↔ state.getStatus name ≠ .quarantined ∧ config.failureThreshold.toNat ≤
        (liveHashes config.failureWindow (failures name history ++ [⟨hash, now⟩]) now).length := by
  have hm := @step_moves config state (.recordFailure name hash now)
  generalize (CircuitBreaker.step config state (.recordFailure name hash now)).1 = reply at hm ⊢
  simp only [Call.workflowName] at hm
  generalize (CircuitBreaker.step config state _).2.account name = after at hm
  cases hm with
  | ignored hq => exact iff_of_false (by simp) fun both => both.1 hq
  | counted hu recorded hb =>
    rw [← ht.count_eq hu hi recorded]
    exact iff_of_false (by simp) fun both => Nat.not_le.mpr hb both.2
  | tripped hu recorded hr =>
    rw [← ht.count_eq hu hi recorded]
    exact iff_of_true ⟨_, rfl⟩ ⟨hu, hr⟩

end

theorem quarantine_exact (config : CircuitBreakerConfig) (start : CircuitBreakerState)
    (fresh : start.failureTracker = ∅) (calls : List Call) (timed : Timed calls) (workflowName : WorkflowName) :
    (∀ earlier event later hash now, Machine.trace (step config) start calls = earlier ++ event :: later →
      event.call = .recordFailure workflowName hash now →
        ((∃ quarantine, event.reply = .recorded (.ok (some quarantine))) ↔
          event.before.getStatus workflowName ≠ .quarantined ∧ config.failureThreshold.toNat ≤
            (liveHashes config.failureWindow (failures workflowName earlier ++ [⟨hash, now⟩]) now).length)) ∧
      WellKept ((Machine.final (step config) start calls).account workflowName).records ∧
      ((Machine.trace (step config) start calls).filter fun event => event.call.workflowName = workflowName).map
          Machine.Event.reply =
        (Machine.trace (step config) start (calls.filter fun call => call.workflowName = workflowName)).map
          Machine.Event.reply ∧ (Machine.final (step config) start calls).account workflowName =
        (Machine.final (step config) start (calls.filter fun call => call.workflowName = workflowName)).account
          workflowName := by
  refine ⟨fun earlier event later hash now run hc => ?_, (tracked_reached config workflowName fresh calls).kept, ?_⟩
  · obtain ⟨first, rest, hs, before, ho, _⟩ := Machine.trace_split (step config) run
    rw [hs, hc] at timed
    rw [ho, hc, before]
    refine (tracked_reached config workflowName fresh first).trips_iff fun other mem past time => ?_
    exact timed.le (Machine.call_mem_of_trace (step config) rfl mem) time rfl
  · have hp := Machine.projection (step config)
      (fun state => (state.account workflowName, state.operatorTokens))
      (fun call => decide (call.workflowName = workflowName)) ?_ ?_ (Eq.refl (start.account workflowName, start.operatorTokens))
      calls
    · exact ⟨hp.1, congrArg Prod.fst hp.2⟩
    · intro state twin call hb same
      obtain ⟨ha, ht⟩ := Prod.mk.inj same
      have here := of_decide_eq_true hb
      subst here
      obtain ⟨reply, account⟩ := @step_congr config twin state call ha ht
      refine ⟨reply, Prod.ext account ?_⟩
      exact ((step_touches call).tokens.trans ht).trans (step_touches call).tokens.symm
    · intro state call hb
      have other := of_decide_eq_false hb
      exact Prod.ext ((step_touches call).elsewhere workflowName other) (step_touches call).tokens

def pairConfig : CircuitBreakerConfig := { sampleConfig with failureThreshold := 2 }

def otherHash : BinaryHash := ⟨"abcdef02", by decide +kernel⟩

/-- The first failure is out of the window of ten minutes at the second, and the other hash fails twice. -/
def sampleFailures : List Call := [.recordFailure sampleWorkflow sampleHash 0,
  .recordFailure sampleWorkflow otherHash (601 * 10 ^ 9), .recordFailure sampleWorkflow otherHash (602 * 10 ^ 9)]

def lastFailure : Call := .recordFailure sampleWorkflow sampleHash (603 * 10 ^ 9)

theorem quarantine_exact_sample :
    CircuitBreakerState.new.failureTracker = ∅ ∧ Timed (sampleFailures ++ [lastFailure]) ∧
      (Machine.final (step pairConfig) .new sampleFailures).getStatus sampleWorkflow ≠ .quarantined ∧
      ∃ quarantine, (step pairConfig (Machine.final (step pairConfig) .new sampleFailures) lastFailure).1 =
        .recorded (.ok (some quarantine)) := by
  have ht : Timed (sampleFailures ++ [lastFailure]) := by simp [Timed, sampleFailures, lastFailure, Call.time]
  have active : (Machine.final (step pairConfig) .new sampleFailures).getStatus sampleWorkflow ≠ .quarantined := by
    decide +kernel
  refine ⟨rfl, ht, active, ?_⟩
  exact ((quarantine_exact pairConfig .new rfl _ ht sampleWorkflow).1
    (Machine.trace (step pairConfig) .new sampleFailures) (Machine.event (step pairConfig) _ lastFailure) [] sampleHash _
    rfl rfl).mpr ⟨active, by decide +kernel⟩

end Veloxide.CircuitBreaker
