import Veloxide.CircuitBreaker.Breaker

namespace Veloxide.CircuitBreaker

open List Machine

variable {config : CircuitBreakerConfig} {name : WorkflowName}

def Call.Unforced (tokens : OrderedStore.Store String Unit) : Call → Prop
  | .evaluateRegistration request _ => ∀ token, request.force = some token → token ∉ tokens
  | .recordFailure _ _ _ => True
  | .unquarantine _ _ => True

def Gone (state : CircuitBreakerState) (workflowName : WorkflowName) : Prop :=
  state.getStatus workflowName = .deactivated ∨ state.getStatus workflowName = .deleted

def Resurrects (workflowName : WorkflowName) (event : Event) : Prop := event.after.getStatus workflowName = .active ∨
    event.call.workflowName = workflowName ∧ event.reply = .evaluated (.ok .allowed)

/-- A failure is recorded that reaches the threshold of a workflow which is not yet quarantined. -/
def Trips (config : CircuitBreakerConfig) (workflowName : WorkflowName) (event : Event) : Prop :=
  ∃ hash now, event.call = .recordFailure workflowName hash now ∧ event.before.getStatus workflowName ≠ .quarantined ∧
    config.failureThreshold.toNat ≤
      (recordFailureInWindow ((event.before.account workflowName).window.getD ⟨[]⟩) hash now config.failureWindow).1

def Tripped (config : CircuitBreakerConfig) (workflowName : WorkflowName) (history : List Event) : Prop :=
  ∃ event ∈ history, Trips config workflowName event

def Revived (config : CircuitBreakerConfig) (workflowName : WorkflowName) (history : List Event) : Prop :=
  ∃ earlier event later, history = earlier ++ event :: later ∧ Tripped config workflowName earlier ∧
    ∃ operator, event.call = .unquarantine workflowName operator

section

variable {history : List Event} {event : Event}

theorem tripped_append_singleton :
    Tripped config name (history ++ [event]) ↔ Tripped config name history ∨ Trips config name event := by
  simp [Tripped, or_and_right, exists_or]

theorem revived_append_singleton : Revived config name (history ++ [event]) ↔ Revived config name history ∨
    Tripped config name history ∧ ∃ operator, event.call = .unquarantine name operator := by
  constructor
  · rintro ⟨past, release, later, hs, ht, hc⟩
    rcases eq_nil_or_concat later with rfl | ⟨rest, last, rfl⟩
    · obtain ⟨rfl, same⟩ := append_inj' hs rfl
      cases same
      exact .inr ⟨ht, hc⟩
    · rw [concat_eq_append, ← cons_append, ← append_assoc] at hs
      exact .inl ⟨past, release, rest, (append_inj' hs rfl).1, ht, hc⟩
  · rintro (⟨past, release, later, rfl, ht, hc⟩ | ⟨ht, hc⟩)
    · exact ⟨past, release, later ++ [event], by simp, ht, hc⟩
    · exact ⟨history, event, [], rfl, ht, hc⟩

end

inductive Phase (config : CircuitBreakerConfig) (workflowName : WorkflowName) (history : List Event)
    (state : CircuitBreakerState) : Prop
  | gone (gone : Gone state workflowName) (calm : ¬ Tripped config workflowName history)
      (rests : ∀ event ∈ history, ¬ Resurrects workflowName event)
  | quarantined (status : state.getStatus workflowName = .quarantined) (tripped : Tripped config workflowName history)
      (kept : ¬ Revived config workflowName history) (rests : ∀ event ∈ history, ¬ Resurrects workflowName event)
  | back (revived : Revived config workflowName history) (risen : ∃ event ∈ history, Resurrects workflowName event)

section

variable {history : List Event} {state : CircuitBreakerState} {call : Call}

theorem trips_iff : Trips config name (Machine.event (step config) state call) ↔
    call.workflowName = name ∧ (step config state call).1 = .recorded (.ok (some ⟨name⟩)) := by
  cases call with
  | evaluateRegistration req now => simp [Trips, Machine.event, step]
  | unquarantine other operator => simp [Trips, Machine.event, step]
  | recordFailure other hash now =>
    simp only [Trips, CircuitBreakerState.account, Machine.event, step, recordFailure, Call.workflowName,
      Call.recordFailure.injEq]
    constructor
    · rintro ⟨_, _, ⟨rfl, rfl, rfl⟩, active, reached⟩
      rw [if_neg active, if_pos reached]
      exact ⟨rfl, rfl⟩
    · rintro ⟨rfl, answered⟩
      split_ifs at answered with quarantined reached
      · cases answered
      · exact ⟨hash, now, ⟨rfl, rfl, rfl⟩, quarantined, reached⟩
      · cases answered

theorem Phase.risen (hr : Revived config name history)
    (risen : ∃ event ∈ history, Resurrects name event) (event : Event) (after : CircuitBreakerState) :
    Phase config name (history ++ [event]) after := by
  obtain ⟨past, mem, hi⟩ := risen
  exact .back (revived_append_singleton.mpr (.inl hr)) ⟨past, mem_append_left _ mem, hi⟩

theorem Phase.quiet (hp : Phase config name history state)
    (hs : (step config state call).2.getStatus name = state.getStatus name)
    (hd : call.workflowName = name → (step config state call).1 ≠ .evaluated (.ok .allowed))
    (calm : ¬ Trips config name (Machine.event (step config) state call))
    (kept : state.getStatus name = .quarantined → ∀ operator, call ≠ .unquarantine name operator) :
    Phase config name (history ++ [Machine.event (step config) state call]) (step config state call).2 := by
  have hf (hi : state.getStatus name ≠ .active)
      (he : ∀ event ∈ history, ¬ Resurrects name event) :
      ∀ event ∈ history ++ [Machine.event (step config) state call], ¬ Resurrects name event := by
    refine forall_mem_append.mpr ⟨he, forall_mem_singleton.mpr ?_⟩
    rintro (hg | ⟨hk, ha⟩)
    · exact hi (hs.symm.trans hg)
    · exact hd hk ha
  cases hp with
  | gone gone hb he =>
    refine .gone ?_ ?_ (hf ?_ he)
    · rw [Gone, hs]
      exact gone
    · rw [tripped_append_singleton]
      exact not_or.mpr ⟨hb, calm⟩
    · rcases gone with other | other
      · simp [other]
      · simp [other]
  | quarantined quarantined ht hb he =>
    refine .quarantined (hs.trans quarantined) (tripped_append_singleton.mpr (.inl ht)) ?_
      (hf (by simp [quarantined]) he)
    rw [revived_append_singleton]
    refine not_or.mpr ⟨hb, ?_⟩
    rintro ⟨_, operator, hc⟩
    exact kept quarantined operator hc
  | back hr hl => exact .risen hr hl _ _

theorem Moves.inactive {tokens : OrderedStore.Store String Unit} {account after : Account} {reply : Reply}
    (hm : Moves config tokens account call reply after) (hu : call.Unforced tokens)
    (inactive : account.standing ≠ .active) : (after.standing = account.standing ∧ reply ≠ .evaluated (.ok .allowed) ∧
        reply ≠ .recorded (.ok (some ⟨call.workflowName⟩)) ∧
        (account.standing = .quarantined → ∀ operator, call ≠ .unquarantine call.workflowName operator)) ∨
      (account.standing ≠ .quarantined ∧ after.standing = .quarantined ∧
        reply = .recorded (.ok (some ⟨call.workflowName⟩))) ∨
      (account.standing = .quarantined ∧ after.standing = .active ∧
        ∃ operator, call = .unquarantine call.workflowName operator) := by
  cases hm with
  | unauthorized => exact .inl ⟨rfl, by simp, by simp, by simp⟩
  | forced forced hk => exact absurd hk (hu _ forced)
  | blocked hu inactive ho =>
    refine .inl ⟨rfl, ?_, by simp, by simp⟩
    rcases ho with rfl | rfl
    · simp
    · simp
  | limited _ ha | registered _ ha => exact absurd ha inactive
  | ignored | counted => exact .inl ⟨rfl, by simp, by simp, by simp⟩
  | tripped hn => exact .inr (.inl ⟨hn, rfl, rfl⟩)
  | refused ht => exact .inl ⟨rfl, by simp, by simp, fun hq => absurd hq ht⟩
  | released hq => exact .inr (.inr ⟨hq, rfl, _, rfl⟩)

theorem Phase.tripped (hp : Phase config name history state) (hb : call.workflowName = name)
    (hu : state.getStatus name ≠ .quarantined) (hs : (step config state call).2.getStatus name = .quarantined)
    (he : (step config state call).1 = .recorded (.ok (some ⟨name⟩))) :
    Phase config name (history ++ [Machine.event (step config) state call]) (step config state call).2 := by
  have ht : Trips config name (Machine.event (step config) state call) := trips_iff.mpr ⟨hb, he⟩
  cases hp with
  | gone _ calm hc =>
    refine .quarantined hs (tripped_append_singleton.mpr (.inr ht)) ?_
      (forall_mem_append.mpr ⟨hc, forall_mem_singleton.mpr ?_⟩)
    · rw [revived_append_singleton]
      rintro (⟨past, _, _, rfl, ⟨event, mem, ht⟩, _⟩ | ⟨tripped, _⟩)
      · exact calm ⟨event, mem_append_left _ mem, ht⟩
      · exact calm tripped
    · rintro (hd | ⟨_, ha⟩)
      · cases hs.symm.trans hd
      · cases he.symm.trans ha
  | quarantined quarantined => exact absurd quarantined hu
  | back hr hi => exact .risen hr hi _ _

theorem Phase.released (hp : Phase config name history state) {operator : String}
    (quarantined : state.getStatus name = .quarantined) (hs : (step config state call).2.getStatus name = .active)
    (hc : call = .unquarantine name operator) :
    Phase config name (history ++ [Machine.event (step config) state call]) (step config state call).2 := by
  cases hp with
  | gone gone =>
    rcases gone with other | other
    · cases quarantined.symm.trans other
    · cases quarantined.symm.trans other
  | quarantined _ ht =>
    refine .back (revived_append_singleton.mpr (.inr ⟨ht, operator, hc⟩)) ?_
    exact ⟨_, mem_append_right _ mem_cons_self, .inl hs⟩
  | back hr hi => exact .risen hr hi _ _

theorem Phase.step (hp : Phase config name history state) (hu : call.Unforced state.operatorTokens) :
    Phase config name (history ++ [Machine.event (step config) state call]) (step config state call).2 := by
  by_cases hb : call.workflowName = name
  · by_cases ha : state.getStatus name = .active
    · cases hp with
      | gone gone =>
        rcases gone with other | other
        · cases ha.symm.trans other
        · cases ha.symm.trans other
      | quarantined quarantined => cases ha.symm.trans quarantined
      | back hr hi => exact .risen hr hi _ _
    · subst hb
      rcases (@step_moves config state call).inactive hu ha with
        ⟨hs, hd, calm, kept⟩ | ⟨hn, hs, he⟩ | ⟨quarantined, hs, operator, hc⟩
      · exact hp.quiet hs (fun _ => hd) (fun ht => calm (trips_iff.mp ht).2) kept
      · exact hp.tripped rfl hn hs he
      · exact hp.released quarantined hs hc
  · have same := (@step_touches config state call).elsewhere name hb
    refine hp.quiet (congrArg Account.standing same) (fun here => absurd here hb) (fun ht => hb (trips_iff.mp ht).1) ?_
    rintro _ operator rfl
    exact hb rfl

end

theorem phase_reached (config : CircuitBreakerConfig) {state : CircuitBreakerState} {calls : List Call}
    (gone : Gone state name) (hu : ∀ call ∈ calls, call.Unforced state.operatorTokens) :
    Phase config name (trace (step config) state calls) (final (step config) state calls) := by
  have hr := permitted_invariant (step config)
    (fun calls => ∀ call ∈ calls, call.Unforced state.operatorTokens)
    (fun calls call all => (forall_mem_append.mp all).1)
    (fun history current => current.operatorTokens = state.operatorTokens ∧ Phase config name history current)
    ⟨rfl, .gone gone (by simp [Tripped]) (by simp)⟩ ?_ calls hu
  · exact hr.2
  · rintro calls call all ⟨ht, hp⟩
    refine ⟨(step_touches call).tokens.trans ht, hp.step ?_⟩
    rw [ht]
    exact all call (by simp)

theorem resurrection_iff (config : CircuitBreakerConfig) (workflowName : WorkflowName) (state : CircuitBreakerState)
    (gone : Gone state workflowName) (calls : List Call)
    (unforced : ∀ call ∈ calls, call.Unforced state.operatorTokens) :
    (∃ event ∈ trace (step config) state calls, Resurrects workflowName event) ↔
      Revived config workflowName (trace (step config) state calls) := by
  cases phase_reached config gone unforced with
  | gone _ calm he =>
    constructor
    · rintro ⟨event, mem, hi⟩
      exact absurd hi (he event mem)
    · rintro ⟨earlier, _, _, hs, ⟨event, mem, ht⟩, _⟩
      refine absurd ⟨event, ?_, ht⟩ calm
      rw [hs]
      exact mem_append_left _ mem
  | quarantined _ _ kept he =>
    constructor
    · rintro ⟨event, mem, hi⟩
      exact absurd hi (he event mem)
    · exact fun hr => absurd hr kept
  | back hr ha => exact ⟨fun _ => hr, fun _ => ha⟩

section Sample

def deactivatedState : CircuitBreakerState := CircuitBreakerState.new.setStatus sampleWorkflow .deactivated

def revivingCalls : List Call := [.recordFailure sampleWorkflow sampleHash 0, .unquarantine sampleWorkflow "operator",
    .evaluateRegistration ⟨sampleWorkflow, sampleHash, none⟩ 0]

theorem revivingCalls_unforced : ∀ call ∈ revivingCalls, call.Unforced deactivatedState.operatorTokens := by
  simp [revivingCalls, Call.Unforced]

theorem deactivatedState_gone : Gone deactivatedState sampleWorkflow := .inl (by decide +kernel)

theorem resurrection_iff_sample : Gone deactivatedState sampleWorkflow ∧
    ((∃ event ∈ trace (step sampleConfig) deactivatedState revivingCalls, Resurrects sampleWorkflow event) ↔
      Revived sampleConfig sampleWorkflow (trace (step sampleConfig) deactivatedState revivingCalls)) :=
  ⟨deactivatedState_gone, resurrection_iff sampleConfig sampleWorkflow deactivatedState deactivatedState_gone revivingCalls
    revivingCalls_unforced⟩

theorem deactivated_workflow_revived : Gone deactivatedState sampleWorkflow ∧
    (∀ call ∈ revivingCalls, call.Unforced deactivatedState.operatorTokens) ∧
      (final (step sampleConfig) deactivatedState revivingCalls).getStatus sampleWorkflow = .active ∧
      ((trace (step sampleConfig) deactivatedState revivingCalls).getLast?.map Machine.Event.reply) =
        some (.evaluated (.ok .allowed)) := by
  refine ⟨deactivatedState_gone, revivingCalls_unforced, ?_, ?_⟩
  · decide +kernel
  · decide +kernel

end Sample

end Veloxide.CircuitBreaker
