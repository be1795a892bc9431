import Veloxide.Library.Execution
import Veloxide.Replay.Engine

namespace Veloxide.Replay

open Events List

/-- The lifecycle event that a payload stands for; the kinds that replay skips stand for none. -/
def lifecycleEvent : EventPayload → Option TransitionEvent
  | .workflowStarted .. => some .assignToNode
  | .stepScheduled .. => some .stepScheduled
  | .stepStarted .. => some .executeStep
  | .stepCompleted .. | .workflowCompleted .. => some .completeStep
  | .stepFailed .. | .workflowFailed .. => some .fail
  | .timerSet .. | .timerScheduled .. | .signalAwaiting .. => some .waitForTimer
  | .timerFired .. => some .timerFired
  | .workflowCancelled .. | .cancelRequested .. => some .cancel
  | .instanceResumed .. => some .instanceResumed
  | .continuedAsNew .. | .effectPrepared .. | .effectCommitted .. | .workflowQuarantined .. => none

def decodePayload (event : EventEnvelope) : Option EventPayload := (EventPayload.tryFromJson event.payload).toOption

variable (state : Option LifecycleState)

/-- A payload acts on the lifecycle state, which is `Pending` as long as nothing was applied. -/
def accept (payload : EventPayload) : Option (Option LifecycleState) := match lifecycleEvent payload with
  | none => some state
  | some event => ((state.getD .pending).apply event).toOption.map some

def referenceStep (event : EventEnvelope) : Option (Option LifecycleState) := (decodePayload event).bind (accept state)

def Stopped : Prop := state = some .completed ∨ state = some .cancelled

instance (state : Option LifecycleState) : Decidable (Stopped state) := inferInstanceAs (Decidable (_ ∨ _))

def scheduledFence : EventPayload → Option UInt64
  | .stepScheduled _ _ _ fence _ => some fence
  | _ => none

variable (events : List EventEnvelope) (result : ReplayResult)

/-- The left fold of `apply`, stopped after the first event that ends the workflow. -/
def ReferenceReplay : Prop := ∃ consumed final, Machine.StopsAt referenceStep Stopped none events consumed final ∧
    result.finalState = final ∧ result.eventsApplied = consumed.length ∧
    result.latestFence = ((consumed.filterMap decodePayload).filterMap scheduledFence).max?

def SameInstance : Prop := ∀ left ∈ events, ∀ right ∈ events, left.instanceId = right.instanceId

def Consecutive : Prop := events.IsChain fun previous next => next.sequence.toNat = previous.sequence.toNat + 1

instance (events : List EventEnvelope) : Decidable (SameInstance events) :=
  inferInstanceAs (Decidable (∀ left ∈ events, ∀ right ∈ events, left.instanceId = right.instanceId))

instance (events : List EventEnvelope) : Decidable (Consecutive events) := inferInstanceAs (Decidable (events.IsChain _))

variable (first : EventEnvelope)

section

theorem checkInstances_ok_iff (expected : String) (events : List EventEnvelope) :
    checkInstances expected events = .ok () ↔ ∀ event ∈ events, event.instanceId = expected := by
  induction events with
  | nil => simp [checkInstances]
  | cons event events ih =>
    by_cases same : event.instanceId = expected
    · simp [checkInstances, same, ih]
    · simp [checkInstances, same]

theorem sequence_succ {prev : UInt64} (hb : prev.toNat < 2 ^ 64 - 1) (next : UInt64) :
    next = prev + 1 ↔ next.toNat = prev.toNat + 1 := by
  rw [← UInt64.toNat_inj, UInt64.toNat_add]
  have hs : (prev.toNat + (1 : UInt64).toNat) % 2 ^ 64 = prev.toNat + 1 := Nat.mod_eq_of_lt (by simp; omega)
  rw [hs]

theorem checkSequences_ok_iff (index : Nat) (events : List EventEnvelope) :
    checkSequences first.sequence index events = .ok () ↔
      (first :: events).IsChain fun prev next => next.sequence = prev.sequence + 1 := by
  induction events generalizing first index with
  | nil => simp [checkSequences]
  | cons event events ih =>
    rw [checkSequences, isChain_cons_cons, ← ih event (index + 1)]
    by_cases next : event.sequence = first.sequence + 1
    · have hd : event.sequence ≠ first.sequence := by
        rw [next]
        simp
      rw [if_neg hd, if_neg (not_not.mpr next)]
      simp only [next, true_and]
    · split_ifs with duplicate
      · simp [next]
      · simp [next]

theorem Consecutive.successors {events : List EventEnvelope} (hc : Consecutive events) :
    events.IsChain fun prev next => next.sequence = prev.sequence + 1 := by
  refine hc.imp fun prev next hf => ?_
  have hb := next.sequence.toNat_lt
  exact (sequence_succ (by omega) next.sequence).mpr hf

theorem consecutive_of_below {events : List EventEnvelope} (hb : ∀ event ∈ events, event.sequence.toNat < 2 ^ 64 - 1)
    (hs : events.IsChain fun prev next => next.sequence = prev.sequence + 1) : Consecutive events :=
  hs.imp_of_mem_imp fun prev next mem _ hf =>
    (sequence_succ (hb prev mem) next.sequence).mp hf

end

variable (sequence : UInt64)

section

theorem isSkipped_iff (payload : EventPayload) : isSkipped payload = true ↔ lifecycleEvent payload = none := by
  cases payload <;> simp [isSkipped, lifecycleEvent]

variable {payload : EventPayload}

theorem payloadToTransition_eq {event : TransitionEvent}
    (acts : lifecycleEvent payload = some event) (sequence : UInt64) :
    payloadToTransition payload sequence = .ok event := by
  cases payload <;> cases acts <;> rfl

theorem isStop_iff (state : LifecycleState) : isStop state = true ↔ Stopped (some state) := by
  cases state <;> simp [isStop, Stopped]

theorem max_append (first second : List UInt64) : (first.max?.toList ++ second).max? = (first ++ second).max? := by
  cases first with
  | nil => rfl
  | cons head tail => simp [max?_cons']

variable (latest : Option UInt64)

theorem trackFence_eq (payload : EventPayload) :
    trackFence latest payload = (latest.toList ++ (scheduledFence payload).toList).max? := by
  cases payload with
  | stepScheduled workflowId stepId attempt fence executionId =>
    cases latest with
    | none => rfl
    | some current =>
      simp only [trackFence, scheduledFence, Option.toList_some, singleton_append, max?_cons', foldl_cons, foldl_nil]
      have hm : max current fence = if current ≤ fence then fence else current := rfl
      rw [hm]
      rcases Nat.lt_trichotomy fence.toNat current.toNat with less | same | greater
      · rw [if_neg (UInt64.not_lt.mpr (UInt64.le_of_lt less)), if_neg (UInt64.not_le.mpr less)]
      · rw [UInt64.toNat_inj.mp same]
        simp
      · have ha : current < fence := UInt64.lt_iff_toNat_lt.mpr greater
        rw [if_pos ha, if_pos (UInt64.le_of_lt ha)]
  | _ => cases latest <;> rfl

theorem foldl_trackFence (payloads : List EventPayload) :
    payloads.foldl trackFence latest = (latest.toList ++ payloads.filterMap scheduledFence).max? := by
  induction payloads generalizing latest with
  | nil => cases latest <;> simp [max?_cons']
  | cons payload payloads ih =>
    have hf : (payload :: payloads).filterMap scheduledFence =
        (scheduledFence payload).toList ++ payloads.filterMap scheduledFence := by
      cases ho : scheduledFence payload <;> simp [ho]
    rw [foldl_cons, ih, trackFence_eq, max_append, hf, append_assoc]

theorem referenceStep_of_error {event : EventEnvelope} {err : Error}
    (hd : EventPayload.tryFromJson event.payload = .error err) (state : Option LifecycleState) :
    referenceStep state event = none := by
  simp only [referenceStep, decodePayload, hd]
  rfl

theorem decodePayload_of_ok {event : EventEnvelope} (hd : EventPayload.tryFromJson event.payload = .ok payload) :
    decodePayload event = some payload := by
  simp only [decodePayload, hd]
  rfl

theorem referenceStep_of_ok {event : EventEnvelope} (hd : EventPayload.tryFromJson event.payload = .ok payload)
    (state : Option LifecycleState) : referenceStep state event = accept state payload := by
  rw [referenceStep, decodePayload_of_ok hd]
  rfl

def advance (acc : ReplayResult) (payload : EventPayload) (state : Option LifecycleState) : ReplayResult :=
  ⟨state, acc.eventsApplied + 1, trackFence acc.latestFence payload⟩

variable {acc : ReplayResult}

theorem applyLoop_rejected {event : EventEnvelope} (hr : referenceStep acc.finalState event = none) :
    ∃ failure, ∀ events, applyLoop acc (event :: events) = .error failure := by
  cases hd : EventPayload.tryFromJson event.payload with
  | error failure =>
    refine ⟨.payloadDecodeFailed event.sequence failure.toText, fun events => ?_⟩
    simp only [applyLoop, hd]
  | ok payload =>
    rw [referenceStep_of_ok hd, accept] at hr
    cases acts : lifecycleEvent payload with
    | none => simp [acts] at hr
    | some transition =>
      have kept : isSkipped payload = false := by
        rw [← Bool.not_eq_true, isSkipped_iff, acts]
        exact nofun
      cases applied : (acc.finalState.getD .pending).apply transition with
      | error failure =>
        refine ⟨.transitionFailed event.sequence (acc.finalState.getD .pending) failure.toText, fun events => ?_⟩
        simp [applyLoop, hd, kept, payloadToTransition_eq acts, applied]
      | ok state => simp [acts, applied, Except.toOption] at hr

theorem applyLoop_accepted {event : EventEnvelope} {state : Option LifecycleState}
    (hr : ¬ Stopped acc.finalState) (ha : referenceStep acc.finalState event = some state)
    (events : List EventEnvelope) : ∃ payload, decodePayload event = some payload ∧
      applyLoop acc (event :: events) = if Stopped state then .ok (advance acc payload state)
        else applyLoop (advance acc payload state) events := by
  cases hd : EventPayload.tryFromJson event.payload with
  | error err => simp [referenceStep_of_error hd] at ha
  | ok payload =>
    refine ⟨payload, decodePayload_of_ok hd, ?_⟩
    rw [referenceStep_of_ok hd, accept] at ha
    cases acts : lifecycleEvent payload with
    | none =>
      rw [acts] at ha
      cases ha
      have hs := (isSkipped_iff payload).mpr acts
      have fence : trackFence acc.latestFence payload = acc.latestFence := by
        cases payload <;> first | rfl | cases acts
      simp [applyLoop, hd, hs, hr, advance, fence]
    | some transition =>
      have kept : isSkipped payload = false := by
        rw [← Bool.not_eq_true, isSkipped_iff, acts]
        exact nofun
      cases applied : (acc.finalState.getD .pending).apply transition with
      | error err => simp [acts, applied, Except.toOption] at ha
      | ok newState =>
        simp only [acts, applied, Except.toOption, Option.map_some, Option.some.injEq] at ha
        subst ha
        simp [applyLoop, hd, kept, payloadToTransition_eq acts, applied, isStop_iff, advance]

theorem applyLoop_step {event : EventEnvelope} {state : Option LifecycleState}
    (hr : ¬ Stopped acc.finalState) (hd : EventPayload.tryFromJson event.payload = .ok payload)
    (ha : accept acc.finalState payload = some state) (events : List EventEnvelope) :
    applyLoop acc (event :: events) = if Stopped state then .ok (advance acc payload state)
      else applyLoop (advance acc payload state) events := by
  obtain ⟨other, same, hs⟩ := applyLoop_accepted hr
    ((referenceStep_of_ok hd acc.finalState).trans ha) events
  cases (decodePayload_of_ok hd).symm.trans same
  exact hs

variable {event : EventEnvelope} {payload : EventPayload} {applied : Nat} {fence : Option UInt64}

theorem applyLoop_skip {state : Option LifecycleState} (hr : ¬ Stopped state)
    (hd : EventPayload.tryFromJson event.payload = .ok payload)
    (hs : lifecycleEvent payload = none) (events : List EventEnvelope) :
    applyLoop ⟨state, applied, fence⟩ (event :: events) = applyLoop ⟨state, applied + 1, fence⟩ events := by
  have ha : accept state payload = some state := by rw [accept, hs]
  have kept : trackFence fence payload = fence := by
    cases payload <;> first | rfl | cases hs
  rw [applyLoop_step hr hd ha, if_neg hr, advance, kept]

theorem applyLoop_act {state : Option LifecycleState} {transition : TransitionEvent} {newState : LifecycleState}
    (hr : ¬ Stopped state) (hd : EventPayload.tryFromJson event.payload = .ok payload)
    (acts : lifecycleEvent payload = some transition)
    (hp : (state.getD .pending).apply transition = .ok newState) (events : List EventEnvelope) :
    applyLoop ⟨state, applied, fence⟩ (event :: events) =
      if Stopped (some newState) then .ok ⟨some newState, applied + 1, trackFence fence payload⟩
      else applyLoop ⟨some newState, applied + 1, trackFence fence payload⟩ events := by
  have ha : accept state payload = some (some newState) := by
    rw [accept, acts]
    simp only [hp]
    rfl
  exact applyLoop_step hr hd ha events

theorem applyLoop_ok_iff (acc result : ReplayResult) (hr : ¬ Stopped acc.finalState) :
    applyLoop acc events = .ok result ↔
      ∃ consumed final, Machine.StopsAt referenceStep Stopped acc.finalState events consumed final ∧
        result = ⟨final, acc.eventsApplied + consumed.length,
          (consumed.filterMap decodePayload).foldl trackFence acc.latestFence⟩ := by
  induction events generalizing acc with
  | nil =>
    simp only [applyLoop, Machine.StopsAt.nil_iff, Except.ok.injEq]
    constructor
    · intro he
      subst he
      exact ⟨[], _, ⟨rfl, rfl⟩, rfl⟩
    · intro ho
      obtain ⟨consumed, final, ⟨rfl, rfl⟩, rfl⟩ := ho
      rfl
  | cons event events ih =>
    cases ha : referenceStep acc.finalState event with
    | none =>
      obtain ⟨err, hf⟩ := applyLoop_rejected ha
      rw [hf]
      constructor
      · exact nofun
      · intro ho
        obtain ⟨consumed, final, ht, _⟩ := ho
        obtain ⟨middle, hi, _⟩ := ht.cons_cases hr
        rw [ha] at hi
        contradiction
    | some state =>
      obtain ⟨payload, hd, hs⟩ := applyLoop_accepted hr ha events
      rw [hs]
      by_cases hb : Stopped state
      · rw [if_pos hb, Except.ok.injEq]
        constructor
        · intro he
          subst he
          exact ⟨[event], state, .stop_cons hr ha hb, by simp [hd, advance]⟩
        · intro ho
          obtain ⟨consumed, final, ht, rfl⟩ := ho
          obtain ⟨middle, same, ⟨_, rfl, rfl⟩ | ⟨hc, _⟩⟩ := ht.cons_cases hr
          · cases ha.symm.trans same
            simp [hd, advance]
          · cases ha.symm.trans same
            exact absurd hb hc
      · rw [if_neg hb, ih (advance acc payload state) hb]
        constructor
        · intro ho
          obtain ⟨consumed, final, ht, rfl⟩ := ho
          refine ⟨event :: consumed, final, .cons hr ha ht, ?_⟩
          simp [hd, advance]
          omega
        · intro ho
          obtain ⟨consumed, final, ht, rfl⟩ := ho
          obtain ⟨middle, same, ⟨stop, _, _⟩ | ⟨_, rest, rfl, ht⟩⟩ := ht.cons_cases hr
          · cases ha.symm.trans same
            exact absurd stop hb
          · cases ha.symm.trans same
            refine ⟨rest, final, ht, ?_⟩
            simp [hd, advance]
            omega

end

theorem sameInstance_cons (rest : List EventEnvelope) :
    SameInstance (first :: rest) ↔ ∀ event ∈ rest, event.instanceId = first.instanceId := by
  constructor
  · intro same event mem
    exact same event (mem_cons_of_mem _ mem) first mem_cons_self
  · intro same
    have all : ∀ event ∈ first :: rest, event.instanceId = first.instanceId := by
      intro event mem
      rcases mem_cons.mp mem with rfl | mem
      · rfl
      · exact same event mem
    intro left hl right hr
    rw [all left hl, all right hr]

theorem replay_of_consecutive (same : SameInstance events) (hc : Consecutive events) :
    replay events = applyLoop ⟨none, 0, none⟩ events := by
  cases events with
  | nil => rfl
  | cons first rest =>
    have hi := (checkInstances_ok_iff first.instanceId rest).mpr ((sameInstance_cons first rest).mp same)
    have hs := (checkSequences_ok_iff first 1 rest).mpr hc.successors
    rw [replay, hi, hs]
    rfl

theorem replay_checks {events : List EventEnvelope} {result : ReplayResult} (hs : replay events = .ok result) :
    SameInstance events ∧ (events.IsChain fun prev next => next.sequence = prev.sequence + 1) ∧
      applyLoop ⟨none, 0, none⟩ events = .ok result := by
  cases events with
  | nil => exact ⟨nofun, .nil, hs⟩
  | cons first rest =>
    rw [replay] at hs
    obtain ⟨_, hi, hs⟩ := Except.bind_eq_ok.mp hs
    obtain ⟨_, he, hs⟩ := Except.bind_eq_ok.mp hs
    exact ⟨(sameInstance_cons first rest).mpr ((checkInstances_ok_iff _ rest).mp hi),
      (checkSequences_ok_iff first 1 rest).mp he, hs⟩

theorem replay_ok_iff (hb : ∀ event ∈ events, event.sequence.toNat < 2 ^ 64 - 1) : replay events = .ok result ↔
    SameInstance events ∧ Consecutive events ∧ applyLoop ⟨none, 0, none⟩ events = .ok result := by
  constructor
  · intro hu
    obtain ⟨same, hs, applied⟩ := replay_checks hu
    exact ⟨same, consecutive_of_below hb hs, applied⟩
  · intro hf
    obtain ⟨same, hc, applied⟩ := hf
    rwa [replay_of_consecutive events same hc]

/-- `replay` succeeds exactly on the logs that the reference accepts, and returns what it computes. -/
theorem replay_refines_reference (events : List EventEnvelope) (result : ReplayResult)
    (below : ∀ event ∈ events, event.sequence.toNat < 2 ^ 64 - 1) :
    replay events = .ok result ↔ SameInstance events ∧ Consecutive events ∧ ReferenceReplay events result := by
  rw [replay_ok_iff events result below, applyLoop_ok_iff events ⟨none, 0, none⟩ result (by simp [Stopped])]
  refine and_congr_right fun _ => and_congr_right fun _ => ?_
  constructor
  · intro hf
    obtain ⟨consumed, final, hs, rfl⟩ := hf
    refine ⟨consumed, final, hs, rfl, Nat.zero_add _, ?_⟩
    rw [foldl_trackFence]
    rfl
  · intro hf
    obtain ⟨consumed, final, hs, state, applied, fence⟩ := hf
    refine ⟨consumed, final, hs, ?_⟩
    obtain ⟨resultState, resultApplied, resultFence⟩ := result
    rw [foldl_trackFence]
    simp only at state applied fence
    simp [state, applied, fence]

def payloadOf (fields : List (String × String)) (numbers : List (String × UInt64)) : Json :=
  .object (fields.map (fun field => (field.1, Json.string field.2)) ++
    numbers.map fun field => (field.1, Json.u64 field.2))

def envelopeOf (payload : Json) : EventEnvelope := ⟨1, "instance", sequence, 0, payload, .default⟩

def startedEvent : EventEnvelope :=
  envelopeOf sequence (payloadOf [("type", "WorkflowStarted"), ("workflow_id", "w"), ("binary_hash", "b"),
    ("workflow_version_hash", "0123abcd")] [])

def scheduledEvent (fence : UInt64) : EventEnvelope :=
  envelopeOf sequence (payloadOf [("type", "StepScheduled"), ("workflow_id", "w"), ("step_id", "s"),
    ("execution_id", "e")] [("attempt", 1), ("fence", fence)])

example : replay [startedEvent 7, scheduledEvent 8 5] = .ok ⟨some .stepScheduled, 2, some 5⟩ := by
  decide

theorem replay_refines_reference_scheduled :
    ReferenceReplay [startedEvent 7, scheduledEvent 8 5] ⟨some .stepScheduled, 2, some 5⟩ :=
  ((replay_refines_reference [startedEvent 7, scheduledEvent 8 5] ⟨some .stepScheduled, 2, some 5⟩
    (by decide)).mp (by decide)).2.2

end Veloxide.Replay
