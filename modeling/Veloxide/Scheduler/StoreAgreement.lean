import Veloxide.Scheduler.Moves

namespace Veloxide.JobScheduler

open OrderedStore List

def InStep (jobs : Store JobId ScheduledJob) (store : InMemoryJobStore) : Prop :=
  ∀ id : JobId, store.persisted.filter (fun record => record.id = id) = jobs[id]?.toList

variable {job : ScheduledJob} {id : JobId}

theorem filter_upsert_other (ho : job.id ≠ id) (records : List ScheduledJob) :
    (InMemoryJobStore.upsert job records).filter (fun record => record.id = id) =
      records.filter fun record => record.id = id := by
  induction records with
  | nil => simp [InMemoryJobStore.upsert, ho]
  | cons existing records ih =>
    rw [InMemoryJobStore.upsert]
    by_cases hr : existing.id = job.id
    · simp [hr, ho]
    · rw [if_neg hr, filter_cons, filter_cons, ih]

theorem filter_upsert_same {records : List ScheduledJob}
    (hs : (records.filter fun record => record.id = job.id).length ≤ 1) :
    (InMemoryJobStore.upsert job records).filter (fun record => record.id = job.id) = [job] := by
  induction records with
  | nil => simp [InMemoryJobStore.upsert]
  | cons existing records ih =>
    rw [InMemoryJobStore.upsert]
    rw [filter_cons] at hs
    by_cases hr : existing.id = job.id
    · simp only [hr, decide_true, if_true, length_cons] at hs
      have last := length_eq_zero_iff.mp (Nat.le_zero.mp (Nat.le_of_succ_le_succ hs))
      rw [if_pos hr, filter_cons, last]
      simp
    · simp only [hr, decide_false, Bool.false_eq_true, if_false] at hs
      rw [if_neg hr, filter_cons, ih hs]
      simp [hr]

variable {jobs : Store JobId ScheduledJob} {store : InMemoryJobStore}

theorem InStep.persist (hi : InStep jobs store) (job : ScheduledJob) :
    InStep (jobs.insert job.id job) (JobStore.persist store job).2 := by
  intro id
  rw [get_insert]
  by_cases same : job.id = id
  · subst same
    have hs : (store.persisted.filter fun record => record.id = job.id).length ≤ 1 := by
      rw [hi job.id]
      cases jobs[job.id]? <;> simp
    rw [if_pos rfl]
    exact filter_upsert_same hs
  · rw [if_neg same, ← hi id]
    exact filter_upsert_other same store.persisted

theorem InStep.stored (hi : InStep jobs store) {drafts : List ScheduledJob}
    (hv : ∀ draft ∈ drafts, draft.id = id) {last : ScheduledJob} (same : last.id = id) :
    InStep (jobs.insert id last) (stored store (drafts ++ [last])) := by
  induction drafts generalizing jobs store with
  | nil =>
    subst same
    exact hi.persist last
  | cons draft drafts ih =>
    have hf := hi.persist draft
    rw [hv draft mem_cons_self] at hf
    have rest := ih hf fun other mem => hv other (mem_cons_of_mem draft mem)
    rw [insert_insert] at rest
    exact rest

section

variable {W : Type} [WorkerDispatch W]

theorem inMemoryJobStore_reliable : Reliable InMemoryJobStore := fun _ _ => rfl

theorem InStep.moved {now : DateTime} (view after : View InMemoryJobStore W) (move : Move now view after)
    (hi : InStep view.jobs view.store) : InStep after.jobs after.store := by
  have changed {kind : ScheduledJob → ScheduledJob → Prop} (step : Changed kind view after) :
      InStep after.jobs after.store := by
    cases step with
    | intro job moved drafts held hc same hv => exact hi.stored hv same
  cases move with
  | promoted step | changed step => exact changed step
  | dispatched job held hp result step =>
    cases step with
    | handed time worker ha => exact hi.persist (job.withState .running time)
    | refused time later worker err hr =>
      have hv : ∀ draft ∈ [job.withState .running time], draft.id = job.id := forall_mem_singleton.mpr rfl
      exact hi.stored hv rfl
    | lost time drafts worker err hs hb => exact absurd inMemoryJobStore_reliable hs

variable [Ulid] [TimeArithmetic] (clock : Nat → DateTime) (hash : HashOrder (JobId × ScheduledJob))

theorem store_in_step (capacity : Nat) (dispatcher : W) (calls : List SchedulerCall) :
    let last := Machine.final (serve clock hash) (Scheduler.new capacity ⟨[]⟩ dispatcher) calls
    InStep last.queue.jobs last.store := by
  refine (reached_invariant clock hash (fun _ sched => InStep sched.view.jobs sched.view.store)
    (.new capacity _ dispatcher) (fun _ => rfl) ?_ calls).2
  intro _ first call last hs hi
  rcases hs.moves with ⟨job, _, he⟩ | moves
  · rw [he]
    exact hi.persist job
  · exact moves_invariant InStep.moved moves hi

end

end Veloxide.JobScheduler
