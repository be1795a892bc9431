import Veloxide.Library.JsonText
import Veloxide.Replay.EventSourcing

namespace Veloxide.Replay

open Events List Except

variable (events : List EventEnvelope)

section

theorem applyLoop_append (prog : ReplayResult) (hr : ¬ Stopped prog.finalState) (first second : List EventEnvelope) :
    applyLoop prog (first ++ second) = (applyLoop prog first).bind fun middle =>
      if Stopped middle.finalState then .ok middle else applyLoop middle second := by
  induction first generalizing prog with
  | nil => simp [applyLoop, Except.bind, hr]
  | cons event first ih =>
    rw [cons_append]
    cases ha : referenceStep prog.finalState event with
    | none =>
      obtain ⟨err, hf⟩ := applyLoop_rejected ha
      rw [hf, hf]
      rfl
    | some state =>
      obtain ⟨payload, hd, hs⟩ := applyLoop_accepted hr ha (first ++ second)
      obtain ⟨other, same, hl⟩ := applyLoop_accepted hr ha first
      cases hd.symm.trans same
      rw [hs, hl]
      by_cases ht : Stopped state
      · simp [ht, Except.bind, advance]
      · rw [if_neg ht, if_neg ht]
        exact ih (advance prog payload state) ht

def Reaches (start : Option LifecycleState) (events : List EventEnvelope) (final : Option LifecycleState) : Prop :=
  ∃ consumed, Machine.StopsAt referenceStep Stopped start events consumed final

theorem reaches_iff {prog : ReplayResult} (hr : ¬ Stopped prog.finalState)
    (events : List EventEnvelope) (final : Option LifecycleState) :
    (∃ result, applyLoop prog events = .ok result ∧ result.finalState = final) ↔
      Reaches prog.finalState events final := by
  constructor
  · intro hf
    obtain ⟨result, hs, rfl⟩ := hf
    obtain ⟨consumed, final, ht, rfl⟩ := (applyLoop_ok_iff events prog result hr).mp hs
    exact ⟨consumed, ht⟩
  · intro hf
    obtain ⟨consumed, ht⟩ := hf
    exact ⟨_, (applyLoop_ok_iff events prog _ hr).mpr ⟨consumed, final, ht, rfl⟩, rfl⟩

def firstAction : Option TransitionEvent := events.findSome? fun event => (decodePayload event).bind lifecycleEvent

variable {event : EventEnvelope}

theorem referenceStep_eq_some {state after : Option LifecycleState}
    (ha : referenceStep state event = some after) : ∃ payload, decodePayload event = some payload ∧
      ((lifecycleEvent payload = none ∧ after = state) ∨ ∃ transition newState, lifecycleEvent payload = some transition ∧
          (state.getD .pending).apply transition = .ok newState ∧ after = some newState) := by
  obtain ⟨payload, hd, ha⟩ := Option.bind_eq_some_iff.mp ha
  refine ⟨payload, hd, ?_⟩
  rw [accept] at ha
  cases acts : lifecycleEvent payload with
  | none =>
    rw [acts] at ha
    exact .inl ⟨rfl, (Option.some.inj ha).symm⟩
  | some transition =>
    rw [acts] at ha
    cases hp : (state.getD .pending).apply transition with
    | error err => simp [hp, Except.toOption] at ha
    | ok newState =>
      simp only [hp, Except.toOption, Option.map_some, Option.some.injEq] at ha
      exact .inr ⟨transition, newState, rfl, hp, ha.symm⟩

variable {payload : EventPayload}

theorem referenceStep_skip (hd : decodePayload event = some payload)
    (hs : lifecycleEvent payload = none) (state : Option LifecycleState) :
    referenceStep state event = some state := by
  rw [referenceStep, hd, Option.bind_some, accept, hs]

theorem Reaches.ne_pending {events : List EventEnvelope} {final : Option LifecycleState}
    (hr : Reaches none events final) : final ≠ some .pending := by
  obtain ⟨consumed, hs⟩ := hr
  refine hs.invariant (fun state => state ≠ some .pending) nofun ?_
  intro state event after hp ha
  obtain ⟨payload, _, ⟨_, rfl⟩ | ⟨transition, newState, _, hb, rfl⟩⟩ := referenceStep_eq_some ha
  · exact hp
  · intro same
    exact LifecycleState.apply_ne_pending hb (Option.some.inj same)

theorem reaches_stopped_iff {final : Option LifecycleState} (stops : Stopped final) :
    Reaches none events final ↔ ∃ consumed, consumed <+: events ∧ consumed.foldlM referenceStep none = some final ∧
      ∀ past state, past <+: consumed → past ≠ consumed →
        past.foldlM referenceStep none = some state → ¬ Stopped state := by
  constructor
  · rintro ⟨consumed, hs⟩
    exact ⟨consumed, hs.isPrefix, hs.folds, hs.running⟩
  · rintro ⟨consumed, hp, hf, hr⟩
    exact ⟨consumed, hp, hf, hr, .inr stops⟩

theorem reaches_skip {start : Option LifecycleState} (hr : ¬ Stopped start)
    (hd : decodePayload event = some payload) (hs : lifecycleEvent payload = none)
    (events : List EventEnvelope) (final : Option LifecycleState) :
    Reaches start (event :: events) final ↔ Reaches start events final := by
  have ha := referenceStep_skip hd hs start
  constructor
  · intro hf
    obtain ⟨consumed, ht⟩ := hf
    obtain ⟨middle, same, ⟨stop, _⟩ | ⟨_, rest, _, ht⟩⟩ := ht.cons_cases hr
    · cases ha.symm.trans same
      exact absurd stop hr
    · cases ha.symm.trans same
      exact ⟨rest, ht⟩
  · intro hf
    obtain ⟨consumed, ht⟩ := hf
    exact ⟨event :: consumed, .cons hr ha ht⟩

theorem reaches_from_scratch_iff {state : LifecycleState} (hr : ¬ Stopped (some state))
    (hp : state ≠ .pending) {events : List EventEnvelope} {final : Option LifecycleState}
    (hc : Reaches (some state) events final) : Reaches none events final ↔ firstAction events = some .cancel := by
  have scratch : ¬ Stopped none := by decide
  induction events with
  | nil =>
    obtain ⟨consumed, ht⟩ := hc
    obtain ⟨rfl, rfl⟩ := Machine.StopsAt.nil_iff.mp ht
    constructor
    · intro hf
      obtain ⟨other, ht⟩ := hf
      exact absurd (Machine.StopsAt.nil_iff.mp ht).2 nofun
    · exact nofun
  | cons event events ih =>
    obtain ⟨consumed, ht⟩ := hc
    obtain ⟨middle, ha, ends⟩ := ht.cons_cases hr
    obtain ⟨payload, hd, ⟨hk, rfl⟩ | ⟨transition, newState, acts, hb, rfl⟩⟩ := referenceStep_eq_some ha
    · have hc : Reaches (some state) events final := (reaches_skip hr hd hk events final).mp ⟨consumed, ht⟩
      have same : firstAction (event :: events) = firstAction events := by
        rw [firstAction, findSome?_cons, hd, Option.bind_some, hk]
        rfl
      rw [reaches_skip scratch hd hk, same]
      exact ih hc
    · have hi : firstAction (event :: events) = some transition := by
        rw [firstAction, findSome?_cons, hd, Option.bind_some, acts]
      rw [hi, Option.some.injEq]
      constructor
      · intro hf
        obtain ⟨other, hg⟩ := hf
        obtain ⟨_, hs, _⟩ := hg.cons_cases scratch
        obtain ⟨_, same, ⟨hk, _⟩ | ⟨_, _, hl, hm, _⟩⟩ := referenceStep_eq_some hs
        · cases hd.symm.trans same
          exact absurd (acts.symm.trans hk) nofun
        · cases hd.symm.trans same
          cases acts.symm.trans hl
          rcases LifecycleState.apply_pending_ok hm with rfl | cancels
          · exact absurd (LifecycleState.apply_assignToNode_ok hb) hp
          · exact cancels
      · intro he
        subst he
        have hn := LifecycleState.apply_cancel_ok hb
        subst hn
        have ho : Stopped (some .cancelled) := by decide
        rcases ends with ⟨_, _, rfl⟩ | ⟨hq, _⟩
        · refine ⟨[event], .stop_cons scratch ?_ ho⟩
          rw [referenceStep, hd, Option.bind_some, accept, acts]
          rfl
        · exact absurd ho hq

end

theorem consecutive_of_sorted {events : List EventEnvelope}
    (ha : (events.map EventEnvelope.sequence).Pairwise (· ≤ ·))
    (hs : events.IsChain fun prev next => next.sequence = prev.sequence + 1) : Consecutive events := by
  induction events with
  | nil => exact .nil
  | cons first rest ih =>
    cases rest with
    | nil => exact .singleton first
    | cons second rest =>
      obtain ⟨next, hs⟩ := isChain_cons_cons.mp hs
      obtain ⟨hb, ha⟩ := pairwise_cons.mp ha
      refine isChain_cons_cons.mpr ⟨?_, ih ha hs⟩
      have ho : first.sequence.toNat ≤ second.sequence.toNat := UInt64.le_iff_toNat_le.mp (hb second.sequence (by simp))
      have hw : second.sequence.toNat = (first.sequence.toNat + 1) % 2 ^ 64 := by
        rw [next, UInt64.toNat_add]
        rfl
      have hc := first.sequence.toNat_lt
      omega

theorem Consecutive.increasing {events : List EventEnvelope} (hc : Consecutive events) :
    events.Pairwise fun left right => left.sequence < right.sequence := by
  have hh : events.IsChain fun left right => left.sequence < right.sequence :=
    hc.imp fun left right hf => UInt64.lt_iff_toNat_lt.mpr (by omega)
  exact hh.pairwise

theorem consecutive_iff_sequences : Consecutive events ↔
    (events.map EventEnvelope.sequence).IsChain fun prev next => next.toNat = prev.toNat + 1 := by
  rw [isChain_map]
  rfl

namespace EventSourcingEngine

def normalize (engine : EventSourcingEngine) (events : List EventEnvelope) : Except ReplayError (List EventEnvelope) :=
  match engine.upcasterRegistry with
  | some registry => upcastAll registry events
  | none => .ok events

variable {engine : EventSourcingEngine}

theorem replayEvents_eq (engine : EventSourcingEngine) (events : List EventEnvelope) :
    engine.replayEvents events = engine.normalize events >>= replay := by
  unfold replayEvents normalize
  cases engine.upcasterRegistry with
  | none => rfl
  | some reg =>
    simp only [replayWithUpcaster]
    split_ifs with empty
    · subst empty
      rfl
    · rfl

theorem normalize_append {first second all : List EventEnvelope} (hn : engine.normalize (first ++ second) = .ok all) :
    ∃ left right, engine.normalize first = .ok left ∧ engine.normalize second = .ok right ∧ all = left ++ right := by
  unfold normalize at hn ⊢
  cases hf : engine.upcasterRegistry with
  | none =>
    rw [hf] at hn
    cases hn
    exact ⟨first, second, rfl, rfl, rfl⟩
  | some reg =>
    rw [hf] at hn
    simp only [upcastAll, mapM_append] at hn ⊢
    obtain ⟨left, hl, hn⟩ := bind_eq_ok.mp hn
    obtain ⟨right, hr, hn⟩ := bind_eq_ok.mp hn
    exact ⟨left, right, hl, hr, (Except.ok.inj hn).symm⟩

theorem upcastAll_sequences {reg : UpcasterRegistry} {events upcast : List EventEnvelope}
    (hs : upcastAll reg events = .ok upcast) :
    upcast.map EventEnvelope.sequence = events.map EventEnvelope.sequence := by
  induction events generalizing upcast with
  | nil =>
    cases hs
    rfl
  | cons event events ih =>
    rw [upcastAll, mapM_cons] at hs
    obtain ⟨first, hf, hs⟩ := bind_eq_ok.mp hs
    obtain ⟨rest, hr, hs⟩ := bind_eq_ok.mp hs
    cases hs
    have hp : UpcasterRegistry.SamePosition event first := by
      cases ha : reg.upcastEnvelope event with
      | error err =>
        rw [ha] at hf
        contradiction
      | ok other =>
        rw [ha] at hf
        cases hf
        exact UpcasterRegistry.upcastEnvelope_position ha
    rw [map_cons, map_cons, hp.1, ih hr]

theorem normalize_sequences {events normalized : List EventEnvelope} (hs : engine.normalize events = .ok normalized) :
    normalized.map EventEnvelope.sequence = events.map EventEnvelope.sequence := by
  unfold normalize at hs
  cases hf : engine.upcasterRegistry with
  | none =>
    rw [hf] at hs
    cases hs
    rfl
  | some reg =>
    rw [hf] at hs
    exact upcastAll_sequences hs

variable {elapsed : UInt64}

theorem reconstructState_ok {events : List EventEnvelope} {recovery : RecoveryResult (Option LifecycleState)}
    (hs : engine.reconstructState events elapsed = .ok recovery) :
    ∃ normalized result, engine.normalize events = .ok normalized ∧ replay normalized = .ok result ∧
      recovery.state = result.finalState := by
  obtain ⟨result, hr, hs⟩ := bind_eq_ok.mp hs
  rw [replayEvents_eq] at hr
  obtain ⟨normalized, hu, hr⟩ := bind_eq_ok.mp hr
  cases hs
  exact ⟨normalized, result, hu, hr, rfl⟩

structure PassesSnapshot (tail : List EventEnvelope) (recorded full : Option LifecycleState) : Prop where
  same : SameInstance tail
  consecutive : Consecutive tail
  proper : recorded ≠ some .pending
  stopped : Stopped recorded → full = recorded
  continues : ¬ Stopped recorded → Reaches recorded tail full

variable {post pre : List EventEnvelope}

theorem reconstructState_passes {fullElapsed early : UInt64} {full before : RecoveryResult (Option LifecycleState)}
    (sorted : ((pre ++ post).map EventEnvelope.sequence).Pairwise (· ≤ ·))
    (fullReplay : engine.reconstructState (pre ++ post) fullElapsed = .ok full)
    (beforeReplay : engine.reconstructState pre early = .ok before) : Consecutive (pre ++ post) ∧
      ∃ tail, engine.normalize post = .ok tail ∧ PassesSnapshot tail before.state full.state := by
  obtain ⟨all, result, normal, replayed, fullState⟩ := reconstructState_ok fullReplay
  obtain ⟨left, tail, hl, ht, rfl⟩ := normalize_append normal
  obtain ⟨other, middle, ho, hm, recorded⟩ := reconstructState_ok beforeReplay
  cases hl.symm.trans ho
  obtain ⟨same, hs, applied⟩ := replay_checks replayed
  obtain ⟨_, _, reached⟩ := replay_checks hm
  have sequences := normalize_sequences normal
  have consecutive := consecutive_of_sorted (by rw [sequences]; exact sorted) hs
  have scratch : ¬ Stopped none := by decide
  rw [applyLoop_append ⟨none, 0, none⟩ scratch, reached] at applied
  refine ⟨by rw [consecutive_iff_sequences, ← sequences, ← consecutive_iff_sequences]; exact consecutive, tail, ht, ?_⟩
  rw [fullState, recorded]
  refine ⟨?_, consecutive.right_of_append, ?_, ?_, ?_⟩
  · intro first hf second hs
    exact same first (mem_append_right _ hf) second (mem_append_right _ hs)
  · exact ((reaches_iff scratch left middle.finalState).mp ⟨middle, reached, rfl⟩).ne_pending
  · intro stopped
    simp only [Except.bind, if_pos stopped, Except.ok.injEq] at applied
    rw [applied]
  · intro running
    simp only [Except.bind, if_neg running] at applied
    exact (reaches_iff running tail result.finalState).mp ⟨result, applied, rfl⟩

variable {tail : List EventEnvelope}

theorem replayEvents_reaches (hn : engine.normalize post = .ok tail) (same : SameInstance tail)
    (hc : Consecutive tail) (state : Option LifecycleState) :
    (∃ result, engine.replayEvents post = .ok result ∧ result.finalState = state) ↔ Reaches none tail state := by
  have hr : engine.replayEvents post = applyLoop ⟨none, 0, none⟩ tail := by
    rw [replayEvents_eq, hn, ← replay_of_consecutive tail same hc]
    rfl
  rw [hr]
  exact reaches_iff (by decide) tail state

/-- When the tail alone leads to the state of the full log. A terminal state is reached again if some first events of
    the tail are accepted from the initial state and lead to it, through no other terminal state. -/
def TailSuffices (engine : EventSourcingEngine) (post : List EventEnvelope)
    (recorded : Option LifecycleState) : Prop :=
  post = [] ∨ recorded = none ∨
    (¬ Stopped recorded ∧ ∃ tail, engine.normalize post = .ok tail ∧ firstAction tail = some .cancel) ∨
    (Stopped recorded ∧ ∃ tail consumed, engine.normalize post = .ok tail ∧ consumed <+: tail ∧
      consumed.foldlM referenceStep none = some recorded ∧
      ∀ earlier state, earlier <+: consumed → earlier ≠ consumed →
        earlier.foldlM referenceStep none = some state → ¬ Stopped state)

variable {recorded : Option LifecycleState}

theorem replayEvents_eq_iff_tailSuffices {full : Option LifecycleState} (nonempty : post ≠ [])
    (hn : engine.normalize post = .ok tail) (hp : PassesSnapshot tail recorded full) :
    (∃ result, engine.replayEvents post = .ok result ∧ result.finalState = full) ↔ engine.TailSuffices post recorded := by
  rw [replayEvents_reaches hn hp.same hp.consecutive, TailSuffices]
  by_cases stopped : Stopped recorded
  · have held : recorded ≠ none := by
      intro he
      subst he
      exact absurd stopped (by decide)
    rw [hp.stopped stopped, reaches_stopped_iff tail stopped]
    simp [nonempty, held, stopped, hn]
  · have hc := hp.continues stopped
    cases recorded with
    | none => simp [hc]
    | some state =>
      have proper : state ≠ .pending := fun same => hp.proper (congrArg some same)
      rw [reaches_from_scratch_iff stopped proper hc]
      simp [nonempty, stopped, hn]

variable {log : List EventEnvelope}

theorem filter_after_snapshot {last : EventEnvelope} (hc : Consecutive (pre ++ post))
    (hp : pre.getLast? = some last) (hg : log = post ∨ log = pre ++ post) :
    (log.filter fun event => event.sequence > last.sequence) = post := by
  have hi := hc.increasing
  obtain ⟨before, rfl⟩ := getLast?_eq_some_iff.mp hp
  obtain ⟨left, _, ha⟩ := pairwise_append.mp hi
  have hl : (post.filter fun event => event.sequence > last.sequence) = post := by
    rw [List.filter_eq_self]
    intro event mem
    exact decide_eq_true (ha last (by simp) event mem)
  have he : ((before ++ [last]).filter fun event => event.sequence > last.sequence) = [] := by
    rw [filter_eq_nil_iff]
    intro event mem
    rw [decide_eq_true_eq]
    rcases mem_append.mp mem with mem | mem
    · have hb := (pairwise_append.mp left).2.2 event mem last (by simp)
      exact UInt64.not_lt.mpr (UInt64.le_of_lt hb)
    · rw [mem_singleton.mp mem]
      exact UInt64.lt_irrefl _
  rcases hg with rfl | rfl
  · exact hl
  · rw [filter_append, he, hl]
    rfl

theorem lookup_stateVariants (state : LifecycleState) : stateVariants.lookup state.serdeName = some state := by
  cases state <;> decide

section

variable [JsonCodec]

theorem decodeState_toVec {state : Option LifecycleState} {bytes : ByteCodec.Bytes}
    (hw : JsonCodec.toVec (stateJson state) = .ok bytes) : decodeState bytes = .ok state := by
  obtain ⟨other, value, hp, ha, same⟩ := JsonCodec.ofSlice_toVec (stateJson state)
  cases hw.symm.trans hp
  rw [decodeState, ha]
  cases state with
  | none =>
    cases same.null_right
    rfl
  | some state =>
    cases same.string_right
    have hf := lookup_stateVariants state
    simp only [bind, Except.bind, Serde.toOption, Serde.toUnitVariant, hf, Option.okOr_some]
    rfl

variable {snap : Snapshot}

theorem reconstructStateWithSnapshot_empty (hc : snap.isCompatibleWith engine.maxSchemaVersion = true)
    (hn : (log.filter fun event => event.sequence > snap.sequence) = [])
    (hr : decodeState snap.stateBytes = .ok recorded) :
    ∃ recovery, engine.reconstructStateWithSnapshot (some snap) log elapsed = .ok recovery ∧
      recovery.state = recorded := by
  simp only [reconstructStateWithSnapshot, hc, hn, hr]
  exact ⟨_, rfl, rfl⟩

theorem reconstructStateWithSnapshot_tail (hc : snap.isCompatibleWith engine.maxSchemaVersion = true)
    (hn : post ≠ []) (hr : (log.filter fun event => event.sequence > snap.sequence) = post)
    (state : Option LifecycleState) :
    (∃ recovery, engine.reconstructStateWithSnapshot (some snap) log elapsed = .ok recovery ∧ recovery.state = state) ↔
      ∃ result, engine.replayEvents post = .ok result ∧ result.finalState = state := by
  have kept : post.isEmpty = false := by simpa using hn
  simp only [reconstructStateWithSnapshot, hc, hr, kept]
  cases engine.replayEvents post with
  | error err =>
    constructor
    · intro hf
      obtain ⟨recovery, hi, _⟩ := hf
      contradiction
    · intro hf
      obtain ⟨result, hi, _⟩ := hf
      contradiction
  | ok result =>
    constructor
    · intro hf
      obtain ⟨recovery, hs, same⟩ := hf
      cases hs
      exact ⟨result, rfl, same⟩
    · intro hf
      obtain ⟨other, hs, same⟩ := hf
      cases hs
      exact ⟨_, rfl, same⟩

/-- Recovery forgets the recorded state as soon as there is an event to replay. -/
theorem snapshot_recovery_agrees_iff (engine : EventSourcingEngine) (snap : Snapshot)
    (pre post log : List EventEnvelope) (last : EventEnvelope) (fullElapsed beforeElapsed elapsed : UInt64)
    (full before : RecoveryResult (Option LifecycleState))
    (sorted : ((pre ++ post).map EventEnvelope.sequence).Pairwise (· ≤ ·))
    (fullReplay : engine.reconstructState (pre ++ post) fullElapsed = .ok full)
    (beforeReplay : engine.reconstructState pre beforeElapsed = .ok before)
    (compatible : snap.isCompatibleWith engine.maxSchemaVersion = true)
    (lastOfPre : pre.getLast? = some last) (position : snap.sequence = last.sequence)
    (records : decodeState snap.stateBytes = .ok before.state) (given : log = post ∨ log = pre ++ post) :
    (∃ recovery, engine.reconstructStateWithSnapshot (some snap) log elapsed = .ok recovery ∧
        recovery.state = full.state) ↔ engine.TailSuffices post before.state := by
  obtain ⟨hc, tail, hn, hp⟩ := reconstructState_passes sorted fullReplay beforeReplay
  have hr := filter_after_snapshot hc lastOfPre given
  rw [← position] at hr
  by_cases he : post = []
  · subst he
    rw [append_nil] at fullReplay
    have hs : full.state = before.state := by
      obtain ⟨_, _, hf, ha, state⟩ := reconstructState_ok fullReplay
      obtain ⟨_, _, first', second', state'⟩ := reconstructState_ok beforeReplay
      cases hf.symm.trans first'
      cases ha.symm.trans second'
      rw [state, state']
    rw [hs]
    exact iff_of_true (reconstructStateWithSnapshot_empty compatible hr records) (.inl rfl)
  · rw [reconstructStateWithSnapshot_tail compatible he hr, replayEvents_eq_iff_tailSuffices he hn hp]

end

def startedSnapshot : Snapshot :=
  ⟨"lifecycle", 1, ByteCodec.utf8 (Json.Text.toText (stateJson (some .runningDecision))), 1, 0, 0⟩

def plainEngine : EventSourcingEngine := ⟨1, none⟩

def cancelledEvent (sequence : UInt64) : EventEnvelope :=
  envelopeOf sequence (payloadOf [("type", "WorkflowCancelled"), ("workflow_id", "w"), ("cancelled_by", "u")] [])

theorem snapshot_recovery_agrees_cancelled :
    ∃ recovery, @reconstructStateWithSnapshot Json.Text.codec plainEngine (some startedSnapshot)
        [startedEvent 1, cancelledEvent 2] 0 = .ok recovery ∧ recovery.state = some .cancelled :=
  (@snapshot_recovery_agrees_iff Json.Text.codec plainEngine startedSnapshot [startedEvent 1]
    [cancelledEvent 2] [startedEvent 1, cancelledEvent 2] (startedEvent 1) 0 0 0
    ⟨some .cancelled, 2, 1, 2, .fullReplay, 0, false⟩ ⟨some .runningDecision, 1, 1, 1, .fullReplay, 0, false⟩
    (by decide) (by decide) (by decide) (by decide) rfl rfl
    (@decodeState_toVec Json.Text.codec _ _ rfl) (.inr rfl)).mpr
    (.inr (.inr (.inl ⟨by decide, [cancelledEvent 2], rfl, by decide⟩)))

theorem snapshot_recovery_refuses_scheduled_step : plainEngine.reconstructState [startedEvent 1, scheduledEvent 2 1] 0 =
      .ok ⟨some .stepScheduled, 2, 1, 2, .fullReplay, 0, false⟩ ∧
    plainEngine.reconstructState [startedEvent 1] 0 = .ok ⟨some .runningDecision, 1, 1, 1, .fullReplay, 0, false⟩ ∧
    @decodeState Json.Text.codec startedSnapshot.stateBytes = .ok (some .runningDecision) ∧
    startedSnapshot.isCompatibleWith plainEngine.maxSchemaVersion = true ∧
    ∀ log ∈ [[scheduledEvent 2 1], [startedEvent 1, scheduledEvent 2 1]],
      @reconstructStateWithSnapshot Json.Text.codec plainEngine (some startedSnapshot) log 0 = .error (.buildFailed
          "transition failed at sequence 2: Invalid transition for current state") :=
  ⟨by decide, by decide, @decodeState_toVec Json.Text.codec _ _ rfl, by decide, by decide⟩

end EventSourcingEngine

end Veloxide.Replay
