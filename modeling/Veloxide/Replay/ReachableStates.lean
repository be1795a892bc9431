import Veloxide.Replay.Spec

namespace Veloxide.LifecycleState

open List Replay

/-- What a log is replayed to: a step that waits for a signal comes back waiting for a timer. -/
def replayed : List (Option LifecycleState) := [none, some runningDecision, some stepScheduled, some stepExecuting,
  some waitingForTimer, some completed, some failed, some cancelled]

theorem accept_replayed (data : Events.EventPayload) :
    ∀ state ∈ replayed, ∀ next ∈ accept state data, next ∈ replayed := by
  cases data <;> exact of_decide_eq_true rfl

theorem replay_states (events : List EventEnvelope) :
    (replay events).toOption.bind ReplayResult.finalState ∈ replayed := by
  cases hr : replay events with
  | error => exact mem_cons_self
  | ok result =>
    obtain ⟨_, last, stops, rfl⟩ :=
      (applyLoop_ok_iff events ⟨none, 0, none⟩ result (by decide)).mp (replay_checks hr).2.2
    refine stops.invariant (· ∈ replayed) mem_cons_self ?_
    intro state event next hs ha
    obtain ⟨payload, _, ha⟩ := Option.bind_eq_some_iff.mp ha
    exact accept_replayed payload state hs next ha

end Veloxide.LifecycleState
