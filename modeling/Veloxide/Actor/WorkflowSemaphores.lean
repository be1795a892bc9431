import Veloxide.Library.Execution
import Veloxide.Library.Keyspace

namespace Veloxide.WorkflowSemaphores

open Machine OrderedStore List

/-- A semaphore of the heap: what it was created for, and how many were created before it. -/
structure Semaphore where
  workflowName : String
  created : Nat
  deriving DecidableEq

/-- The map, with the permits that are held, each named by its semaphore. -/
structure WorkflowSemaphoreMap where
  semaphores : Store String Semaphore
  maxPerWorkflow : Nat
  created : Nat
  permits : List Semaphore

inductive Call
  | semaphoreFor (workflowName : String)
  | acquire (semaphore : Semaphore)
  | release (semaphore : Semaphore)
  | cleanupIdle

inductive Reply
  | semaphore (semaphore : Semaphore)
  | granted (permit : Bool)
  | done
  deriving DecidableEq

namespace WorkflowSemaphoreMap

def new (maxPerWorkflow : Nat) : WorkflowSemaphoreMap := ⟨∅, maxPerWorkflow, 0, []⟩

variable (map : WorkflowSemaphoreMap)

def availablePermits (semaphore : Semaphore) : Nat := map.maxPerWorkflow - map.permits.count semaphore

def step : Call → Reply × WorkflowSemaphoreMap
  | .semaphoreFor workflowName =>
    match map.semaphores[workflowName]? with
    | some semaphore => (.semaphore semaphore, map)
    | none =>
      let semaphore := ⟨workflowName, map.created⟩
      (.semaphore semaphore, { map with
        semaphores := map.semaphores.insert workflowName semaphore, created := map.created + 1 })
  | .acquire semaphore =>
    if map.availablePermits semaphore = 0 then (.granted false, map)
    else (.granted true, { map with permits := semaphore :: map.permits })
  | .release semaphore => (.done, { map with permits := map.permits.erase semaphore })
  | .cleanupIdle =>
    (.done, { map with
      semaphores := map.semaphores.filter fun _ semaphore => map.availablePermits semaphore < map.maxPerWorkflow })

def held (workflowName : String) : Nat := map.permits.countP fun permit => permit.workflowName = workflowName

/-- Permits are acquired on the semaphore that the map holds at that time, not on one that it has dropped. -/
def Current (map : WorkflowSemaphoreMap) : Call → Prop
  | .acquire semaphore => map.semaphores[semaphore.workflowName]? = some semaphore
  | _ => True

structure Limited (limit : Nat) : Prop where
  limit : map.maxPerWorkflow = limit
  tracked : ∀ permit ∈ map.permits, map.semaphores[permit.workflowName]? = some permit
  bounded : ∀ semaphore, map.permits.count semaphore ≤ map.maxPerWorkflow

variable {map} {limit : Nat}

theorem Limited.held_le (hl : map.Limited limit) (name : String) : map.held name ≤ limit := by
  rw [← hl.limit]
  by_cases some : ∃ permit ∈ map.permits, permit.workflowName = name
  · obtain ⟨permit, mem, rfl⟩ := some
    refine Nat.le_trans (countP_mono_left fun other hp same => ?_) (hl.bounded permit)
    have ht := hl.tracked other hp
    rw [of_decide_eq_true same, hl.tracked permit mem] at ht
    cases ht
    exact beq_self_eq_true _
  · have none : map.held name = 0 := countP_eq_zero.mpr fun permit mem same =>
      some ⟨permit, mem, of_decide_eq_true same⟩
    omega

theorem Limited.step (hl : map.Limited limit) {call : Call} (hc : Current map call) :
    (map.step call).2.Limited limit := by
  cases call with
  | semaphoreFor name =>
    rw [WorkflowSemaphoreMap.step]
    cases hf : map.semaphores[name]? with
    | some sem => exact hl
    | none =>
      refine ⟨hl.limit, fun permit mem => ?_, hl.bounded⟩
      have ht := hl.tracked permit mem
      have other : name ≠ permit.workflowName := by
        rintro rfl
        cases hf.symm.trans ht
      exact (get_insert_of_ne _ other _).trans ht
  | acquire sem =>
    rw [WorkflowSemaphoreMap.step]
    split_ifs with full
    · exact hl
    · refine ⟨hl.limit, forall_mem_cons.mpr ⟨hc, hl.tracked⟩, fun other => ?_⟩
      have hb := hl.bounded other
      rw [availablePermits] at full
      simp only [count_cons, beq_iff_eq]
      split_ifs with same
      · subst same
        omega
      · exact hb
  | release sem =>
    exact ⟨hl.limit, fun permit mem => hl.tracked permit (mem_of_mem_erase mem), fun other =>
      Nat.le_trans (erase_sublist.count_le other) (hl.bounded other)⟩
  | cleanupIdle =>
    refine ⟨hl.limit, fun permit mem => ?_, hl.bounded⟩
    have hp : 0 < map.permits.count permit := count_pos_iff.mpr mem
    have hb := hl.bounded permit
    have busy : map.availablePermits permit < map.maxPerWorkflow := by
      rw [availablePermits]
      omega
    simp only [WorkflowSemaphoreMap.step, get_filter, hl.tracked permit mem, Option.filter_some, busy, decide_true,
      if_true]

/-- The limit holds of the runs that acquire on the semaphore of the map. A clean-up drops a semaphore that callers
    still have, and the next caller gets a new one with all its permits. -/
theorem held_le_of_current (maxPerWorkflow : Nat) (calls : List Call)
    (current : Guarded step Current (new maxPerWorkflow) calls) (workflowName : String) :
    (final step (new maxPerWorkflow) calls).held workflowName ≤ maxPerWorkflow := by
  have hf : (new maxPerWorkflow).Limited maxPerWorkflow := ⟨rfl, fun _ hi => (by cases hi), fun _ => Nat.zero_le _⟩
  have hl := history_invariant step Current (fun _ map => map.Limited maxPerWorkflow) (new maxPerWorkflow) hf
    (fun _ _ _ hl current => hl.step current) calls current
  exact hl.held_le workflowName

/-- Three callers on one semaphore: a clean-up keeps it while a permit is held, and the third caller gets none. -/
def busyCalls : List Call := [.semaphoreFor "w", .acquire ⟨"w", 0⟩, .cleanupIdle, .semaphoreFor "w",
  .acquire ⟨"w", 0⟩, .acquire ⟨"w", 0⟩, .release ⟨"w", 0⟩, .acquire ⟨"w", 0⟩]

theorem held_le_of_current_twice : Guarded step Current (new 2) busyCalls ∧
    (final step (new 2) busyCalls).held "w" ≤ 2 ∧ (final step (new 2) busyCalls).held "w" = 2 := by
  have hc : Guarded step Current (new 2) busyCalls := by
    simp only [busyCalls, Guarded, Current]
    decide +kernel
  exact ⟨hc, held_le_of_current 2 _ hc "w", by decide +kernel⟩

/-- Two callers get a semaphore with a clean-up in between, and each acquires its one permit. -/
theorem limit_exceeded : (trace step (new 1) [.semaphoreFor "w", .cleanupIdle, .semaphoreFor "w", .acquire ⟨"w", 0⟩,
      .acquire ⟨"w", 1⟩]).map Event.reply =
      [.semaphore ⟨"w", 0⟩, .done, .semaphore ⟨"w", 1⟩, .granted true, .granted true] ∧
    (final step (new 1) [.semaphoreFor "w", .cleanupIdle, .semaphoreFor "w", .acquire ⟨"w", 0⟩,
      .acquire ⟨"w", 1⟩]).held "w" = 2 := by
  decide +kernel

end WorkflowSemaphoreMap

end Veloxide.WorkflowSemaphores
