import Veloxide.Replay.Spec

namespace Veloxide.Replay

open Events List

/-- The events of a step: scheduled, started, prepared and committed effects in pairs, completed. -/
structure StepLog where
  scheduled : EventEnvelope
  started : EventEnvelope
  effects : List (EventEnvelope × EventEnvelope)
  completed : EventEnvelope
  fence : UInt64
  isScheduled : ∃ workflowId stepId attempt executionId, EventPayload.tryFromJson scheduled.payload =
    .ok (.stepScheduled workflowId stepId attempt fence executionId)
  isStarted : ∃ workflowId stepId startedAtMs, EventPayload.tryFromJson started.payload =
    .ok (.stepStarted workflowId stepId startedAtMs)
  arePrepared : ∀ pair ∈ effects, ∃ workflowId stepId effectId sinkKind payloadHash fence,
    EventPayload.tryFromJson pair.1.payload = .ok (.effectPrepared workflowId stepId effectId sinkKind payloadHash fence)
  areCommitted : ∀ pair ∈ effects, ∃ workflowId stepId effectId externalReceipt fence,
    EventPayload.tryFromJson pair.2.payload = .ok (.effectCommitted workflowId stepId effectId externalReceipt fence)
  isCompleted : ∃ workflowId stepId completedAtMs attempt fence routing outputRef outputHash output,
    EventPayload.tryFromJson completed.payload = .ok (.stepCompleted workflowId stepId completedAtMs attempt
      fence routing outputRef outputHash output)

variable (effects : List (EventEnvelope × EventEnvelope))

def effectEvents : List EventEnvelope := effects.flatMap fun pair => [pair.1, pair.2]

def StepLog.events (step : StepLog) : List EventEnvelope :=
  step.scheduled :: step.started :: (effectEvents step.effects ++ [step.completed])

/-- A workflow of one or more steps, from its start to its completion. -/
structure WorkflowLog where
  started : EventEnvelope
  first : StepLog
  others : List StepLog
  completed : EventEnvelope
  isStarted : ∃ workflowId dagTopology binaryHash versionHash dedupeKeyHash, EventPayload.tryFromJson started.payload =
      .ok (.workflowStarted workflowId dagTopology binaryHash versionHash dedupeKeyHash)
  isCompleted : ∃ workflowId completionTimeMs, EventPayload.tryFromJson completed.payload =
    .ok (.workflowCompleted workflowId completionTimeMs)

variable (log : WorkflowLog)

namespace WorkflowLog

def steps : List StepLog := log.first :: log.others

def events (log : WorkflowLog) : List EventEnvelope :=
  log.started :: (log.steps.flatMap StepLog.events ++ [log.completed])

def ReplaysCompletely : Prop := ∃ result, replay log.events = .ok result ∧ result.finalState = some .completed ∧
    result.eventsApplied = log.events.length ∧ result.latestFence = (log.steps.map StepLog.fence).max?

end WorkflowLog

theorem applyLoop_effects (state : Option LifecycleState) (hr : ¬ Stopped state) (applied : Nat)
    (fence : Option UInt64) (step : StepLog) (effects : List (EventEnvelope × EventEnvelope))
    (hi : ∀ pair ∈ effects, pair ∈ step.effects) (events : List EventEnvelope) :
    applyLoop ⟨state, applied, fence⟩ (effectEvents effects ++ events) =
      applyLoop ⟨state, applied + 2 * effects.length, fence⟩ events := by
  induction effects generalizing applied with
  | nil => rfl
  | cons pair effects ih =>
    obtain ⟨_, _, _, _, _, _, hp⟩ := step.arePrepared pair (hi pair mem_cons_self)
    obtain ⟨_, _, _, _, _, hc⟩ := step.areCommitted pair (hi pair mem_cons_self)
    have rest := ih (applied + 1 + 1) fun other mem => hi other (mem_cons_of_mem _ mem)
    have hs : effectEvents (pair :: effects) ++ events = pair.1 :: pair.2 :: (effectEvents effects ++ events) := rfl
    have ho : applied + 1 + 1 + 2 * effects.length = applied + 2 * (pair :: effects).length := by
      rw [length_cons]
      omega
    rw [hs, applyLoop_skip hr hp rfl, applyLoop_skip hr hc rfl, rest, ho]

theorem applyLoop_stepLog (applied : Nat) (fence : Option UInt64) (step : StepLog) (events : List EventEnvelope) :
    applyLoop ⟨some .runningDecision, applied, fence⟩ (step.events ++ events) =
      .ok ⟨some .completed, applied + (3 + 2 * step.effects.length), (fence.toList ++ [step.fence]).max?⟩ := by
  obtain ⟨workflowId, stepId, attempt, executionId, hs⟩ := step.isScheduled
  obtain ⟨_, _, _, ht⟩ := step.isStarted
  obtain ⟨_, _, _, _, _, _, _, _, _, hc⟩ := step.isCompleted
  have hh : step.events ++ events =
      step.scheduled :: step.started :: (effectEvents step.effects ++ step.completed :: events) := by
    simp [StepLog.events]
  have hl : trackFence fence (.stepScheduled workflowId stepId attempt step.fence executionId) =
      (fence.toList ++ [step.fence]).max? := trackFence_eq fence _
  have ho : applied + 1 + 1 + 2 * step.effects.length + 1 = applied + (3 + 2 * step.effects.length) := by
    omega
  rw [hh, applyLoop_act (by decide) hs rfl rfl, if_neg (by decide), hl,
    applyLoop_act (by decide) ht rfl rfl, if_neg (by decide),
    applyLoop_effects _ (by decide) _ _ step step.effects (fun _ mem => mem),
    applyLoop_act (by decide) hc rfl rfl, if_pos (by decide), ho]
  rfl

namespace WorkflowLog

theorem length_effectEvents : (effectEvents effects).length = 2 * effects.length := by
  simp [effectEvents]
  omega

theorem first_step_lt_length : 4 + 2 * log.first.effects.length < log.events.length := by
  simp only [events, steps, flatMap_cons, length_cons, length_append, StepLog.events, length_effectEvents]
  simp
  omega

/-- Replay of a workflow stops at the completion of its first step, so it never consumes the log. -/
theorem replay_stops_at_first_step (log : WorkflowLog) (same : SameInstance log.events)
    (consecutive : Consecutive log.events) :
    replay log.events = .ok ⟨some .completed, 4 + 2 * log.first.effects.length, some log.first.fence⟩ ∧
      ¬ log.ReplaysCompletely := by
  obtain ⟨_, _, _, _, _, ht⟩ := log.isStarted
  have hh : log.events =
      log.started :: (log.first.events ++ (log.others.flatMap StepLog.events ++ [log.completed])) := by
    simp [events, steps]
  have ho : 0 + 1 + (3 + 2 * log.first.effects.length) = 4 + 2 * log.first.effects.length := by omega
  have hr : replay log.events = .ok ⟨some .completed, 4 + 2 * log.first.effects.length, some log.first.fence⟩ := by
    rw [replay_of_consecutive log.events same consecutive, hh,
      applyLoop_act (by decide) ht rfl rfl, if_neg (by decide), applyLoop_stepLog, ho]
    rfl
  refine ⟨hr, ?_⟩
  intro hf
  obtain ⟨result, hs, _, hc, _⟩ := hf
  cases hr.symm.trans hs
  have ha := log.first_step_lt_length
  simp only at hc
  omega

variable (sequence : UInt64)

def startedStepEvent : EventEnvelope :=
  envelopeOf sequence (payloadOf [("type", "StepStarted"), ("workflow_id", "w"), ("step_id", "s")]
    [("started_at_ms", 1)])

def completedStepEvent : EventEnvelope :=
  envelopeOf sequence (payloadOf [("type", "StepCompleted"), ("workflow_id", "w"), ("step_id", "s")]
    [("completed_at_ms", 2), ("attempt", 1), ("fence", 1)])

def completedEvent : EventEnvelope := envelopeOf sequence (payloadOf [("type", "WorkflowCompleted"), ("workflow_id", "w")]
    [("completion_time_ms", 3)])

def plainStep (fence : UInt64) : StepLog where
  scheduled := scheduledEvent sequence fence
  started := startedStepEvent (sequence + 1)
  effects := []
  completed := completedStepEvent (sequence + 2)
  fence := fence
  isScheduled := ⟨_, _, _, _, rfl⟩
  isStarted := ⟨_, _, _, rfl⟩
  arePrepared := nofun
  areCommitted := nofun
  isCompleted := ⟨_, _, _, _, _, _, _, _, _, rfl⟩

def twoSteps : WorkflowLog where
  started := startedEvent 1
  first := plainStep 2 1
  others := [plainStep 5 2]
  completed := completedEvent 8
  isStarted := ⟨_, _, _, _, _, rfl⟩
  isCompleted := ⟨_, _, rfl⟩

theorem twoSteps_not_replayed : ¬ twoSteps.ReplaysCompletely := by
  intro hf
  obtain ⟨result, hs, _, hc, _⟩ := hf
  have hr : replay twoSteps.events = .ok ⟨some .completed, 4, some 1⟩ := by decide
  cases hr.symm.trans hs
  exact absurd hc (by decide)

theorem replay_stops_at_first_step_twoSteps :
    replay twoSteps.events = .ok ⟨some .completed, 4, some 1⟩ ∧ ¬ twoSteps.ReplaysCompletely :=
  replay_stops_at_first_step twoSteps (by decide) (by decide)

end WorkflowLog

end Veloxide.Replay
