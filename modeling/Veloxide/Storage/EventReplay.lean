import Veloxide.Library.JsonText
import Veloxide.Storage.EventLog

namespace Veloxide.Query

open ByteCodec OrderedStore KeyEncoding Unsigned List

abbrev Guard := Except Unit (Bytes × Bytes)

abbrev Item := Except StorageError EventEnvelope

def encodeKey (sequence : UInt64) : Except StorageError Bytes :=
  if sequence = 0 then .error .invalidArgument else .ok (beBytes 8 sequence.toNat)

def decodeKey (bytes : Bytes) : Except StorageError UInt64 := if bytes.length ≠ 8 then .error .storage
  else
    let seq := UInt64.ofNat (beNat bytes)
    if seq = 0 then .error .invalidArgument else .ok seq

structure IteratorState where
  expected : Option UInt64
  started : Bool

namespace IteratorState

def new : IteratorState := ⟨none, false⟩

def advance (state : IteratorState) (found : UInt64) (record : EventEnvelope) : Option Item × IteratorState :=
  if found = 0 then (some (.error .invalidArgument), state)
  else if state.started = false then (some (.ok record), ⟨checkedSucc found, true⟩)
  else match state.expected with
    | some expected =>
      if found ≠ expected then (some (.error .sequenceGap), state)
      else (some (.ok record), { state with expected := checkedSucc expected })
    | none => (some (.error .sequenceGap), state)

end IteratorState

structure EventReplayIterator where
  state : IteratorState
  inner : Option (List Guard)
  initError : Option StorageError

variable (key : Bytes)

def keySequence : Except StorageError UInt64 := if key = [] then .error .unsupportedVersion
  else if key.headD 0 ≠ EventLog.eventKeyVersion then .error .unsupportedVersion
  else if key.length < 8 + 1 then .error .storage
  else decodeKey (key.drop (key.length - 8))

namespace EventReplayIterator

def error (failure : StorageError) : EventReplayIterator := ⟨.new, none, some failure⟩

variable [JsonCodec]

def processKv (iterator : EventReplayIterator) (key value : Bytes) : Option Item × EventReplayIterator :=
  match keySequence key with
  | .error failure => (some (.error failure), { iterator with inner := none })
  | .ok foundSeq =>
    match EventEnvelope.fromBytes value with
    | .error (.unsupportedEnvelopeVersion _) =>
      (some (.error .unsupportedVersion), { iterator with inner := none })
    | .error _ => (some (.error .corruptEventPayload), iterator)
    | .ok envelope =>
      match iterator.state.advance foundSeq envelope with
      | (some (.error failure), state) => (some (.error failure), { iterator with state, inner := none })
      | (some (.ok event), state) => (some (.ok event), { iterator with state })
      | (none, state) => (none, { iterator with state })

def nextFrom (state : IteratorState) : List Guard → Option Item × EventReplayIterator
  | [] => (none, ⟨state, some [], none⟩)
  | .error _ :: rest => nextFrom state rest
  | .ok (key, value) :: rest =>
    match processKv ⟨state, some rest, none⟩ key value with
    | (some (.error .corruptEventPayload), iterator) => nextFrom iterator.state rest
    | answer => answer

def next (iterator : EventReplayIterator) : Option Item × EventReplayIterator := match iterator.initError with
  | some failure => (some (.error failure), { iterator with initError := none })
  | none =>
    match iterator.inner with
    | none => (none, iterator)
    | some guards => nextFrom iterator.state guards

def collect : Nat → EventReplayIterator → List Item
  | 0, _ => []
  | calls + 1, iterator =>
    match iterator.next with
    | (none, _) => []
    | (some item, after) => item :: collect calls after

inductive Drains : EventReplayIterator → List Item → Prop
  | done {iterator : EventReplayIterator} (none : iterator.next.1 = none) : Drains iterator []
  | more {iterator after : EventReplayIterator} {item : Item} {items : List Item}
      (some : iterator.next = (some item, after)) (rest : Drains after items) : Drains iterator (item :: items)

def drain (iterator : EventReplayIterator) : List Item := collect ((iterator.inner.getD []).length + 2) iterator

end EventReplayIterator

section

variable (events : Store Bytes Bytes) (readable : Bytes → Bool) (start : Bytes)

def keyRange : List (Bytes × Bytes) :=
  rangeScan events (sequenceKey start 1) (sequenceKey start (UInt64.ofNat (2 ^ 64 - 1)))

def guards : List Guard := (keyRange events start).map fun entry => if readable entry.1 then .ok entry else .error ()

def replayEventsByPrefix : EventReplayIterator := match encodeKey 1 with
  | .error failure => .error failure
  | .ok minSeq =>
    match encodeKey (UInt64.ofNat (2 ^ 64 - 1)) with
    | .error failure => .error failure
    | .ok maxSeq =>
      ⟨.new, some ((rangeScan events (start ++ minSeq) (start ++ maxSeq)).map fun entry =>
        if readable entry.1 then .ok entry else .error ()), none⟩

variable [Ulid]

def prefixGenerator (instanceId : InstanceId) : Except StorageError Bytes :=
  if (utf8 instanceId.text).length > 255 then .error .invalidArgument
  else if 0 ∈ utf8 instanceId.text then .error .invalidArgument
  else .ok (utf8 instanceId.text)

def replayEvents (instanceId : InstanceId) : EventReplayIterator := match prefixGenerator instanceId with
  | .error failure => .error failure
  | .ok start => replayEventsByPrefix events readable start

def replayEventsInNamespace (namespaceText : String) (instanceId : InstanceId) : EventReplayIterator :=
  match EventLog.namespacedStreamPrefix namespaceText instanceId with
  | .error failure => .error failure
  | .ok start => replayEventsByPrefix events readable start

end

inductive Verdict
  | event (sequence : UInt64) (envelope : EventEnvelope)
  | skipped
  | refused (failure : StorageError)

namespace Verdict

variable [JsonCodec]

def ofGuard : Guard → Verdict
  | .error _ => skipped
  | .ok (key, value) =>
    match keySequence key with
    | .error failure => refused failure
    | .ok sequence =>
      match EventEnvelope.fromBytes value with
      | .error (.unsupportedEnvelopeVersion _) => refused .unsupportedVersion
      | .error _ => skipped
      | .ok envelope => event sequence envelope

def toEvent? : Verdict → Option (UInt64 × EventEnvelope)
  | event sequence envelope => some (sequence, envelope)
  | skipped => none
  | refused _ => none

end Verdict

open Verdict (ofGuard)

variable {seq : UInt64}

theorem keySequence_ne_zero {key : Bytes} (ok : keySequence key = .ok seq) : seq ≠ 0 := by
  rw [keySequence] at ok
  split_ifs at ok
  simp only [decodeKey] at ok
  split_ifs at ok with _ zero
  cases ok
  exact zero

theorem keySequence_ne_corrupt : keySequence key ≠ .error .corruptEventPayload := by
  rw [keySequence]
  split_ifs
  · simp
  · simp
  · simp
  · simp only [decodeKey]
    split_ifs <;> simp

section

variable [JsonCodec]

def replayed (state : IteratorState) : List Guard → List Item
  | [] => []
  | guard :: rest =>
    match ofGuard guard with
    | .skipped => replayed state rest
    | .refused failure => [.error failure]
    | .event sequence envelope =>
      match state.advance sequence envelope with
      | (some (.ok event), state) => .ok event :: replayed state rest
      | (some (.error failure), _) => [.error failure]
      | (none, _) => []

open EventReplayIterator

variable (state : IteratorState)

theorem length_replayed_le (guards : List Guard) : (replayed state guards).length ≤ guards.length := by
  induction guards generalizing state with
  | nil => exact Nat.le_refl _
  | cons guard rest ih =>
    rw [replayed]
    split
    · exact Nat.le_succ_of_le (ih state)
    · simp
    · split
      · exact Nat.succ_le_succ (ih _)
      · simp
      · simp

variable {items : List Item} {iter : EventReplayIterator}

theorem EventReplayIterator.Drains.collect (hd : Drains iter items)
    {calls : Nat} (he : items.length < calls) : collect calls iter = items := by
  induction hd generalizing calls with
  | done ends =>
    obtain ⟨calls, rfl⟩ := Nat.exists_eq_succ_of_ne_zero (Nat.ne_of_gt he)
    rw [EventReplayIterator.collect]
    split
    · rfl
    · rename_i hy
      rw [hy] at ends
      cases ends
  | more hy rest ih =>
    obtain ⟨calls, rfl⟩ := Nat.exists_eq_succ_of_ne_zero (Nat.ne_of_gt (Nat.zero_lt_of_lt he))
    rw [EventReplayIterator.collect, hy]
    exact congrArg _ (ih (Nat.lt_of_succ_lt_succ he))

theorem EventReplayIterator.Drains.congr {other : EventReplayIterator} (hd : Drains iter items)
    (same : other.next = iter.next) : Drains other items := by
  cases hd with
  | done ends => exact .done (by rw [same, ends])
  | more hy rest => exact .more (same.trans hy) rest

theorem drains_refused (err : StorageError) (hy : iter.next = (some (.error err), ⟨state, none, none⟩)) :
    Drains iter [.error err] :=
  .more hy (.done rfl)

theorem ofGuard_ne_corrupt (guard : Guard) : ofGuard guard ≠ .refused .corruptEventPayload := by
  rcases guard with _ | ⟨key, value⟩
  · simp [ofGuard]
  · rw [ofGuard]
    split
    · rename_i failure hr
      intro same
      cases same
      exact keySequence_ne_corrupt key hr
    · split <;> simp

omit [JsonCodec] in
theorem IteratorState.advance_ne_corrupt (found : UInt64) (record : EventEnvelope) :
    (state.advance found record).1 ≠ some (.error .corruptEventPayload) := by
  rw [advance]
  split_ifs
  · simp
  · simp
  · split
    · split_ifs <;> simp
    · simp

theorem processKv_eq (iter : EventReplayIterator) (key value : Bytes) :
    iter.processKv key value = match ofGuard (.ok (key, value)) with
      | .skipped => (some (.error .corruptEventPayload), iter)
      | .refused err => (some (.error err), { iter with inner := none })
      | .event seq env =>
        match iter.state.advance seq env with
        | (some (.error err), state) => (some (.error err), { iter with state, inner := none })
        | (some (.ok event), state) => (some (.ok event), { iter with state })
        | (none, state) => (none, { iter with state }) := by
  rw [processKv, ofGuard]
  cases keySequence key with
  | error err => rfl
  | ok seq =>
    cases EventEnvelope.fromBytes value with
    | error err => cases err <;> rfl
    | ok env => rfl

variable {guard : Guard}

theorem nextFrom_skipped (rest : List Guard) (hs : ofGuard guard = .skipped) :
    nextFrom state (guard :: rest) = nextFrom state rest := by
  rcases guard with _ | ⟨key, value⟩
  · rfl
  · rw [nextFrom, processKv_eq, hs]

theorem nextFrom_answer (key value : Bytes) (rest : List Guard)
    (ha : (processKv ⟨state, some rest, none⟩ key value).1 ≠ some (.error .corruptEventPayload)) :
    nextFrom state (.ok (key, value) :: rest) = processKv ⟨state, some rest, none⟩ key value := by
  rw [nextFrom]
  split
  · rename_i hc
    rw [hc] at ha
    contradiction
  · rfl

theorem drains_replayed (guards : List Guard) : Drains ⟨state, some guards, none⟩ (replayed state guards) := by
  induction guards generalizing state with
  | nil => exact .done rfl
  | cons guard rest ih =>
    have next : EventReplayIterator.next ⟨state, some (guard :: rest), none⟩ = nextFrom state (guard :: rest) := rfl
    have hu := ofGuard_ne_corrupt guard
    rw [replayed]
    rcases guard with err | ⟨key, value⟩
    · exact (ih state).congr rfl
    · have hp := processKv_eq ⟨state, some rest, none⟩ key value
      have hn := nextFrom_answer state key value rest
      cases hv : ofGuard (.ok (key, value)) with
      | skipped => exact (ih state).congr (next.trans (nextFrom_skipped state rest hv))
      | refused err =>
        rw [hv] at hp hu
        rw [hp] at hn
        refine drains_refused state err (next.trans (hn ?_))
        intro hc
        cases hc
        exact hu rfl
      | event seq env =>
        have hi := state.advance_ne_corrupt seq env
        simp only [hv] at hp
        dsimp only
        split
        · rename_i event after ha
          simp only [ha] at hp
          rw [hp] at hn
          exact .more (next.trans (hn (by simp))) (ih after)
        · rename_i err after ha
          simp only [ha] at hp
          rw [ha] at hi
          rw [hp] at hn
          exact drains_refused after err (next.trans (hn hi))
        · rename_i after ha
          simp only [ha] at hp
          rw [hp] at hn
          exact .done (by rw [next, hn (by simp)])

theorem drain_eq (guards : List Guard) : EventReplayIterator.drain ⟨.new, some guards, none⟩ = replayed .new guards :=
  (drains_replayed .new guards).collect (Nat.lt_succ_of_le (Nat.le_succ_of_le (length_replayed_le .new guards)))

def kept (guards : List Guard) : List (UInt64 × EventEnvelope) :=
  guards.filterMap fun guard => (ofGuard guard).toEvent?

def Continues (state : IteratorState) : List UInt64 → Prop
  | [] => True
  | found :: rest => (state.started = true → state.expected = some found) ∧ Continues ⟨checkedSucc found, true⟩ rest

structure Quiet (state : IteratorState) (guards : List Guard) : Prop where
  accepted : ∀ guard ∈ guards, ∀ failure, ofGuard guard ≠ .refused failure
  ordered : Continues state ((kept guards).map Prod.fst)

variable {found : UInt64}

omit [JsonCodec] in
theorem IteratorState.advance_ok {state : IteratorState} (hn : found ≠ 0)
    (fits : state.started = true → state.expected = some found) (record : EventEnvelope) :
    state.advance found record = (some (.ok record), ⟨checkedSucc found, true⟩) := by
  obtain ⟨want, started⟩ := state
  cases started with
  | false => simp [advance, hn]
  | true =>
    have he : want = some found := fits rfl
    simp [advance, hn, he]

omit [JsonCodec] in
theorem IteratorState.advance_error {state : IteratorState} (hn : found ≠ 0)
    (hm : ¬ (state.started = true → state.expected = some found)) (record : EventEnvelope) :
    ∃ err after, state.advance found record = (some (.error err), after) := by
  obtain ⟨hs, hu⟩ := Classical.not_imp.mp hm
  rw [advance, if_neg hn, if_neg (by simp [hs])]
  split
  · rename_i expected he
    have hd : found ≠ expected := by
      intro same
      exact hu (by rw [he, same])
    exact ⟨.sequenceGap, state, if_pos hd⟩
  · exact ⟨.sequenceGap, state, rfl⟩

theorem ofGuard_event {envelope : EventEnvelope} (he : ofGuard guard = .event seq envelope) :
    ∃ key value, guard = .ok (key, value) ∧ keySequence key = .ok seq ∧
      EventEnvelope.fromBytes value = .ok envelope := by
  rcases guard with _ | ⟨key, value⟩
  · cases he
  · rw [ofGuard] at he
    split at he
    · cases he
    · rename_i found hf
      split at he
      · cases he
      · cases he
      · rename_i decoded hd
        cases he
        exact ⟨key, value, rfl, hf, hd⟩

theorem Quiet.replayed_eq {state : IteratorState} {guards : List Guard} (hq : Quiet state guards) :
    replayed state guards = (kept guards).map fun event => .ok event.2 := by
  induction guards generalizing state with
  | nil => rfl
  | cons guard rest ih =>
    obtain ⟨ha, ho⟩ := hq
    have hl := fun other mem => ha other (mem_cons_of_mem guard mem)
    rw [replayed]
    cases hv : ofGuard guard with
    | skipped =>
      simp only [kept, filterMap_cons, hv, Verdict.toEvent?] at ho ⊢
      exact ih ⟨hl, ho⟩
    | refused err => exact absurd hv (ha guard mem_cons_self err)
    | event seq env =>
      simp only [kept, filterMap_cons, hv, Verdict.toEvent?, map_cons] at ho ⊢
      obtain ⟨key, value, _, hf, _⟩ := ofGuard_event hv
      rw [IteratorState.advance_ok (keySequence_ne_zero hf) ho.1]
      exact congrArg _ (ih ⟨hl, ho.2⟩)

theorem quiet_of_replayed {state : IteratorState} {guards : List Guard}
    (hs : ∀ err, .error err ∉ replayed state guards) : Quiet state guards := by
  induction guards generalizing state with
  | nil => exact ⟨nofun, trivial⟩
  | cons guard rest ih =>
    rw [replayed] at hs
    cases hv : ofGuard guard with
    | skipped =>
      simp only [hv] at hs
      obtain ⟨ha, ho⟩ := ih hs
      refine ⟨forall_mem_cons.mpr ⟨by simp [hv], ha⟩, ?_⟩
      simpa only [kept, filterMap_cons, hv, Verdict.toEvent?] using ho
    | refused err =>
      simp only [hv] at hs
      exact absurd mem_cons_self (hs err)
    | event seq env =>
      simp only [hv] at hs
      obtain ⟨key, value, _, hf, _⟩ := ofGuard_event hv
      by_cases fits : state.started = true → state.expected = some seq
      · rw [IteratorState.advance_ok (keySequence_ne_zero hf) fits] at hs
        obtain ⟨ha, ho⟩ := ih fun err mem => hs err (mem_cons_of_mem _ mem)
        refine ⟨forall_mem_cons.mpr ⟨by simp [hv], ha⟩, ?_⟩
        simp only [kept, filterMap_cons, hv, Verdict.toEvent?, map_cons]
        exact ⟨fits, ho⟩
      · obtain ⟨err, after, hd⟩ := IteratorState.advance_error (keySequence_ne_zero hf) fits env
        rw [hd] at hs
        exact absurd mem_cons_self (hs err)

variable (sequences : List UInt64)

def Consecutive : Prop := sequences.IsChain fun left right => right.toNat = left.toNat + 1

omit [JsonCodec] in
theorem continues_succ_iff (first : UInt64) (sequences : List UInt64) :
    Continues ⟨checkedSucc first, true⟩ sequences ↔ Consecutive (first :: sequences) := by
  induction sequences generalizing first with
  | nil => simp [Continues, Consecutive]
  | cons second rest ih =>
    rw [Continues, ih second, Consecutive, Consecutive, isChain_cons_cons, checkedSucc_eq_some]
    simp

omit [JsonCodec] in
theorem continues_new_iff : Continues .new sequences ↔ Consecutive sequences := by
  cases sequences with
  | nil => simp [Continues, Consecutive]
  | cons first rest =>
    rw [Continues, continues_succ_iff]
    simp [IteratorState.new]

variable (events : Store Bytes Bytes) (readable : Bytes → Bool) (start : Bytes)

/-- Draining gave the decoded envelope of every entry of the range, in ascending order without gaps. -/
def Complete (items : List Item) : Prop := ∃ stored : List (UInt64 × EventEnvelope),
    List.Forall₂ (fun entry event => keySequence entry.1 = .ok event.1 ∧
      EventEnvelope.fromBytes entry.2 = .ok event.2) (keyRange events start) stored ∧
    Consecutive (stored.map Prod.fst) ∧ items = stored.map fun event => .ok event.2

/-- Something is unreadable or corrupt, nothing is refused, and the other sequences are consecutive. -/
structure LosesSilently : Prop where
  lost : ∃ guard ∈ guards events readable start, ofGuard guard = .skipped
  accepted : ∀ guard ∈ guards events readable start, ∀ failure, ofGuard guard ≠ .refused failure
  ordered : Consecutive ((kept (guards events readable start)).map Prod.fst)

omit events readable start in
theorem length_kept_lt {guards : List Guard} (lost : ∃ guard ∈ guards, ofGuard guard = .skipped) :
    (kept guards).length < guards.length := by
  obtain ⟨guard, mem, hs⟩ := lost
  rw [kept, length_filterMap_eq_countP, countP_lt_length_iff]
  exact ⟨guard, mem, by simp [hs, Verdict.toEvent?]⟩

omit events readable start in
theorem forall₂_kept {guards : List Guard} (ha : ∀ guard ∈ guards, ∀ err, ofGuard guard ≠ .refused err)
    (hu : ∀ guard ∈ guards, ofGuard guard ≠ .skipped) :
    List.Forall₂ (fun guard event => ofGuard guard = .event event.1 event.2) guards (kept guards) := by
  induction guards with
  | nil => exact .nil
  | cons guard rest ih =>
    have hl := ih (fun other mem => ha other (mem_cons_of_mem guard mem))
      (fun other mem => hu other (mem_cons_of_mem guard mem))
    cases hv : ofGuard guard with
    | skipped => exact absurd hv (hu guard mem_cons_self)
    | refused err => exact absurd hv (ha guard mem_cons_self err)
    | event seq env =>
      simp only [kept, filterMap_cons, hv, Verdict.toEvent?]
      exact .cons hv hl

theorem drain_replayEventsByPrefix :
    (replayEventsByPrefix events readable start).drain = replayed .new (guards events readable start) :=
  drain_eq (guards events readable start)

theorem LosesSilently.drain_eq (hl : LosesSilently events readable start) :
    (replayEventsByPrefix events readable start).drain =
      (kept (guards events readable start)).map fun event => .ok event.2 := by
  rw [drain_replayEventsByPrefix]
  exact Quiet.replayed_eq ⟨hl.accepted, (continues_new_iff _).mpr hl.ordered⟩

theorem complete_of_quiet (hq : Quiet .new (guards events readable start))
    (hu : ∀ guard ∈ guards events readable start, ofGuard guard ≠ .skipped) :
    Complete events start (replayEventsByPrefix events readable start).drain := by
  refine ⟨kept (guards events readable start), ?_, (continues_new_iff _).mp hq.ordered, ?_⟩
  · have hr := forall₂_kept hq.accepted hu
    nth_rewrite 1 [guards] at hr
    rw [forall₂_map_left_iff] at hr
    refine hr.imp ?_
    intro entry event hv
    obtain ⟨key, value, he, hf, hd⟩ := ofGuard_event hv
    split_ifs at he
    cases he
    exact ⟨hf, hd⟩
  · rw [drain_replayEventsByPrefix, hq.replayed_eq]

/-- A drain without an error is complete exactly if the range does not lose entries silently. -/
theorem drain_complete_iff : ((∀ failure, .error failure ∉ (replayEventsByPrefix events readable start).drain) →
      Complete events start (replayEventsByPrefix events readable start).drain) ↔
    ¬ LosesSilently events readable start := by
  constructor
  · intro hc ho
    have hd := ho.drain_eq
    obtain ⟨stored, hr, _, items⟩ := hc (by simp [hd])
    have hh := length_kept_lt ho.lost
    have hl := congrArg List.length (hd.symm.trans items)
    have hp : (guards events readable start).length = (keyRange events start).length := length_map ..
    rw [length_map, length_map] at hl
    rw [hp, hr.length_eq, hl] at hh
    exact Nat.lt_irrefl _ hh
  · intro hk hi
    rw [drain_replayEventsByPrefix] at hi
    have hq := quiet_of_replayed hi
    refine complete_of_quiet events readable start hq ?_
    intro guard mem hs
    exact hk ⟨⟨guard, mem, hs⟩, hq.accepted, (continues_new_iff _).mp hq.ordered⟩

end

section

theorem keySequence_of_version {key : Bytes} (ho : key.headD 0 ≠ EventLog.eventKeyVersion) :
    keySequence key = .error .unsupportedVersion := by
  rw [keySequence, if_pos ho, ite_self]

theorem prefixGenerator_ok [Ulid] {inst : InstanceId} {start : Bytes}
    (ok : prefixGenerator inst = .ok start) : ∃ first rest, start = first :: rest ∧ first ≠ 0 := by
  rw [prefixGenerator] at ok
  split_ifs at ok with long terminated
  cases ok
  have hl := inst.length_text
  cases text : utf8 inst.text with
  | nil =>
    rw [text] at hl
    cases hl
  | cons first rest =>
    refine ⟨first, rest, rfl, ?_⟩
    intro zero
    exact terminated (by rw [text, zero]; exact mem_cons_self)

end

section Sample

attribute [local instance] Ulid.Crockford.codec Json.Text.codec

def sampleStream : Bytes := EventLog.streamPrefix "n" (InstanceId.ofUlid 1)

def sampleValue : Bytes := JsonCodec.bytes (EventLog.valueJson ⟨1, "i", 1, 1, .object [], .default⟩)

def sampleEvents : Store Bytes Bytes :=
  ((∅ : Store Bytes Bytes).insert (sequenceKey sampleStream 1) sampleValue).insert (sequenceKey sampleStream 2) [255]

theorem drain_omits_corrupt_entry : (keyRange sampleEvents sampleStream).length = 2 ∧
    (replayEventsInNamespace sampleEvents (fun _ => true) "n" (InstanceId.ofUlid 1)).drain.map
      (Except.map EventEnvelope.sequence) = [.ok 1] :=
  ⟨by decide +kernel, by decide +kernel⟩

end Sample

end Veloxide.Query
