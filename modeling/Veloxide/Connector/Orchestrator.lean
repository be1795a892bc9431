import Veloxide.Library.Execution

namespace Veloxide.ConnectorOrchestrator

open Machine List

inductive ConnectorResult
  | success
  | failure
  | ambiguous
  deriving DecidableEq

inductive ReconciliationResult
  | committed
  | notCommitted
  | unknown
  deriving DecidableEq

inductive ReconcileAction
  | commit
  | rollback
  | retry

inductive ConnectorState
  | idle | preparing | prepared | executing | succeeded | failed | ambiguous
  deriving DecidableEq

inductive ConnectorError
  | terminalState (state : ConnectorState)
  | invalidState (current : ConnectorState) (expected : List ConnectorState)
  | reconciliationUncertain
  | transport (message : String)
  | maxRetriesExceeded (maxRetries : UInt32)
  deriving DecidableEq

/-- A connector is any machine: it answers, or it is cut off by the timeout. -/
structure Connector (C : Type) where
  prepare : C → Option (Except ConnectorError ConnectorResult) × C
  commit : C → Option (Except ConnectorError ConnectorResult) × C
  reconcile : C → Except ConnectorError ReconciliationResult × C

/-- A call that the connector has received, and its answer. -/
inductive Received
  | prepare (answer : Option (Except ConnectorError ConnectorResult))
  | commit (answer : Option (Except ConnectorError ConnectorResult))
  | reconcile (answer : Except ConnectorError ReconciliationResult)
  deriving DecidableEq

/-- What an `execute` has done. -/
structure Execution where
  result : Except ConnectorError ConnectorResult
  received : List Received

variable {C : Type} (connector : Connector C) (state : C)

/-- `prepare_with_timeout` and `commit_with_timeout`. -/
def withTimeout (answer : Option (Except ConnectorError ConnectorResult)) : Except ConnectorError ConnectorResult :=
  answer.getD (.ok .ambiguous)

def reconcileAmbiguous (current : ConnectorState) : Except ConnectorError ReconcileAction × List Received × C :=
  if current ≠ .ambiguous then (.error (.invalidState current [.ambiguous]), [], state)
  else
    let reconciled := connector.reconcile state
    let action := reconciled.1.map fun
      | .committed => .commit
      | .notCommitted => .rollback
      | .unknown => .retry
    (action, [.reconcile reconciled.1], reconciled.2)

def handleAmbiguous : Except ConnectorError ConnectorResult × List Received × C :=
  let reconciled := reconcileAmbiguous connector state .ambiguous
  let result := reconciled.1.map fun
    | .commit => .success
    | .rollback => .failure
    | .retry => .ambiguous
  (result, reconciled.2)

def execute : Execution × C := let prepared := connector.prepare state
  match withTimeout prepared.1 with
  | .error error => (⟨.error error, [.prepare prepared.1]⟩, prepared.2)
  | .ok _ =>
    let committed := connector.commit prepared.2
    match withTimeout committed.1 with
    | .error error => (⟨.error error, [.prepare prepared.1, .commit committed.1]⟩, committed.2)
    | .ok .success => (⟨.ok .success, [.prepare prepared.1, .commit committed.1]⟩, committed.2)
    | .ok .failure => (⟨.ok .failure, [.prepare prepared.1, .commit committed.1]⟩, committed.2)
    | .ok .ambiguous =>
      let handled := handleAmbiguous connector committed.2
      (⟨handled.1, .prepare prepared.1 :: .commit committed.1 :: handled.2.1⟩, handled.2.2)

/-- The commit is called once at most, after a prepare that succeeded, and decides on the result. -/
structure Execution.Gated (execution : Execution) : Prop where
  prepared : ∀ answer, .commit answer ∈ execution.received → .prepare (some (.ok .success)) ∈ execution.received
  once : execution.received.countP (fun call => call matches .commit _) ≤ 1
  succeeded : execution.result = .ok .success →
    .commit (some (.ok .success)) ∈ execution.received ∨ .reconcile (.ok .committed) ∈ execution.received

/-- The prepare succeeds or ends with an error: it reports no failure, and is neither unclear nor cut off. -/
def Decisive (state : C) : Prop :=
  (connector.prepare state).1 = some (.ok .success) ∨ ∃ error, (connector.prepare state).1 = some (.error error)

theorem handleAmbiguous_cases : ∃ answer, (handleAmbiguous connector state).2.1 = [.reconcile answer] ∧
    ((handleAmbiguous connector state).1 = .ok .success → answer = .ok .committed) := by
  refine ⟨(connector.reconcile state).1, rfl, ?_⟩
  simp only [handleAmbiguous, reconcileAmbiguous, ne_eq, not_true_eq_false, if_false]
  rcases (connector.reconcile state).1 with error | _ | _ | _
  · exact nofun
  · exact fun _ => rfl
  · exact nofun
  · exact nofun

/-- After a prepare without an error the commit is called. -/
theorem execute_commits {result : ConnectorResult} (hp : withTimeout (connector.prepare state).1 = .ok result) :
    ∃ (done : Option (Except ConnectorError ConnectorResult)) (reconciled : List Received),
      (∀ call ∈ reconciled, ∃ answer, call = .reconcile answer) ∧
      (execute connector state).1.received = .prepare (connector.prepare state).1 :: .commit done :: reconciled ∧
      ((execute connector state).1.result = .ok .success →
        done = some (.ok .success) ∨ .reconcile (.ok .committed) ∈ reconciled) := by
  refine ⟨(connector.commit (connector.prepare state).2).1, ?_⟩
  rcases ha : connector.commit (connector.prepare state).2 with ⟨done, after⟩
  rw [execute]
  simp only [hp, ha]
  cases he : withTimeout done with
  | error error => exact ⟨[], by simp, rfl, nofun⟩
  | ok result =>
    cases result with
    | failure => exact ⟨[], by simp, rfl, nofun⟩
    | success =>
      refine ⟨[], by simp, rfl, fun _ => .inl ?_⟩
      cases done with
      | none => cases he
      | some answer => exact congrArg some he
    | ambiguous =>
      obtain ⟨answer, hr, hd⟩ := handleAmbiguous_cases connector after
      refine ⟨[.reconcile answer], by simp, by simp only [hr], fun hs => ?_⟩
      rw [hd hs]
      exact .inr mem_cons_self

theorem gated_iff : (execute connector state).1.Gated ↔ Decisive connector state := by
  cases ha : withTimeout (connector.prepare state).1 with
  | error error =>
    have hf : (connector.prepare state).1 = some (.error error) := by
      cases answer : (connector.prepare state).1 with
      | none => simp [answer, withTimeout] at ha
      | some answered => simpa [answer, withTimeout] using ha
    refine iff_of_true ?_ (.inr ⟨error, hf⟩)
    simp only [execute, ha]
    exact ⟨by simp, by simp, nofun⟩
  | ok result =>
    obtain ⟨done, reconciled, only, hr, hs⟩ := execute_commits connector state ha
    have none : reconciled.countP (fun call => call matches .commit _) = 0 := by
      refine countP_eq_zero.mpr fun call mem => ?_
      obtain ⟨answer, rfl⟩ := only call mem
      simp
    constructor
    · intro hg
      have hp := hg.prepared done (by simp [hr])
      rw [hr, mem_cons, mem_cons] at hp
      rcases hp with same | impossible | mem
      · exact .inl (Received.prepare.inj same).symm
      · cases impossible
      · obtain ⟨answer, impossible⟩ := only _ mem
        cases impossible
    · intro hd
      have hu : (connector.prepare state).1 = some (.ok .success) := by
        refine hd.resolve_right ?_
        rintro ⟨error, hf⟩
        rw [hf] at ha
        cases ha
      rw [hu] at hr
      refine ⟨fun _ _ => hr ▸ mem_cons_self, by simp [hr, none], fun hc => ?_⟩
      rw [hr]
      rcases hs hc with rfl | mem
      · exact .inl (by simp)
      · exact .inr (by simp [mem])

def executions (state : C) (_ : Unit) : Execution × C := execute connector state

/-- The commit is gated exactly when each prepare is decisive: what it answers is not looked at, an error apart. -/
theorem prepare_gates_commit_iff (start : C) (calls : List Unit) :
    (∀ event ∈ trace (executions connector) start calls, event.reply.Gated) ↔
      Guarded (executions connector) (fun state _ => Decisive connector state) start calls := by
  rw [Guarded.iff_forall_trace]
  refine forall₂_congr fun here mem => ?_
  have ran := event_of_mem_trace _ mem
  rw [← gated_iff, congrArg Event.reply ran]
  rfl

section Sample

def refusing : Connector Unit :=
  ⟨fun _ => (some (.ok .failure), ()), fun _ => (some (.ok .success), ()), fun _ => (.ok .unknown, ())⟩

/-- The prepare fails, and the effect is committed all the same. -/
theorem committed_unprepared : (execute refusing ()).1.result = .ok .success ∧
    (execute refusing ()).1.received = [.prepare (some (.ok .failure)), .commit (some (.ok .success))] :=
  ⟨rfl, rfl⟩

end Sample

end Veloxide.ConnectorOrchestrator
