import Veloxide.Library.BinaryHeap
import Veloxide.Library.StoreSimulation
import Veloxide.Scheduler.Job

namespace Veloxide.JobScheduler

open OrderedStore List

structure QueueEntry where
  priority : JobPriority
  dueAt : DateTime
  jobId : JobId
deriving DecidableEq

def QueueEntry.cmp (left right : QueueEntry) : Ordering :=
  (compare left.priority.rank right.priority.rank).then (compare right.dueAt left.dueAt)

theorem QueueEntry.isLE_cmp {left right : QueueEntry} :
    (left.cmp right).isLE = true ↔ left.priority.rank < right.priority.rank ∨
      (left.priority = right.priority ∧ right.dueAt ≤ left.dueAt) := by
  have hr : compare left.priority.rank right.priority.rank = .eq ↔ left.priority = right.priority := by
    rw [Nat.compare_eq_eq]
    exact ⟨JobPriority.rank_injective, congrArg JobPriority.rank⟩
  rw [cmp, Ordering.isLE_then_iff_or, Nat.compare_eq_lt, hr, Int.isLE_compare]

instance : Std.TransCmp QueueEntry.cmp where
  eq_swap := by
    intro left right
    rw [QueueEntry.cmp, QueueEntry.cmp, Ordering.swap_then, ← Std.OrientedCmp.eq_swap, ← Std.OrientedCmp.eq_swap]
  isLE_trans := by
    intro first second third
    simp only [QueueEntry.isLE_cmp]
    intro below above
    rcases below with less | ⟨same, early⟩
    · rcases above with later | ⟨next, _⟩
      · exact .inl (Nat.lt_trans less later)
      · exact .inl (next ▸ less)
    · rcases above with later | ⟨next, earlier⟩
      · exact .inl (same ▸ later)
      · exact .inr ⟨same.trans next, Int.le_trans earlier early⟩

structure SchedulerQueue where
  heap : List QueueEntry
  jobs : Store JobId ScheduledJob
  capacity : Nat

namespace SchedulerQueue

def new (capacity : Nat) : SchedulerQueue := ⟨[], ∅, capacity⟩

def entryOf (job : ScheduledJob) : QueueEntry := ⟨job.priority, job.dueAt, job.id⟩

def len (queue : SchedulerQueue) : Nat := queue.jobs.size

def Holds (queue : SchedulerQueue) (job : ScheduledJob) : Prop := queue.jobs[job.id]? = some job

instance (queue : SchedulerQueue) (job : ScheduledJob) : Decidable (queue.Holds job) :=
  inferInstanceAs (Decidable (queue.jobs[job.id]? = some job))

def insert (queue : SchedulerQueue) (job : ScheduledJob) : Except SchedulerError SchedulerQueue :=
  if queue.capacity ≤ queue.len then .error .queueFull
  else .ok { queue with heap := queue.heap ++ [entryOf job], jobs := queue.jobs.insert job.id job }

def getState (queue : SchedulerQueue) (jobId : JobId) : Option JobState := queue.jobs[jobId]?.map ScheduledJob.state

def listByState (hash : HashOrder (JobId × ScheduledJob)) (queue : SchedulerQueue) (state : JobState) :
    List ScheduledJob :=
  ((hash.iterate queue.jobs.toList).map Prod.snd).filter fun job => job.state = state

section

variable {queue : SchedulerQueue} (hash : HashOrder (JobId × ScheduledJob))
  (keyed : ∀ (id : JobId) (job : ScheduledJob), queue.jobs[id]? = some job → job.id = id)

include keyed

theorem mem_listByState {state : JobState} {job : ScheduledJob} :
    job ∈ queue.listByState hash state ↔ queue.Holds job ∧ job.state = state := by
  rw [listByState, mem_filter, decide_eq_true_iff, mem_map]
  refine and_congr_left fun _ => ?_
  constructor
  · rintro ⟨⟨id, found⟩, mem, rfl⟩
    have held := (mem_entries queue.jobs id found).mp ((hash.perm _).mem_iff.mp mem)
    rw [Holds, keyed id found held]
    exact held
  · intro held
    exact ⟨(job.id, job), (hash.perm _).mem_iff.mpr ((mem_entries queue.jobs job.id job).mpr held), rfl⟩

theorem nodup_listByState (state : JobState) : ((queue.listByState hash state).map ScheduledJob.id).Nodup := by
  have ids : queue.jobs.toList.map (fun entry => entry.2.id) = queue.jobs.toList.map Prod.fst := by
    refine map_congr_left ?_
    intro entry mem
    exact keyed entry.1 entry.2 ((mem_entries queue.jobs entry.1 entry.2).mp mem)
  have all : (((hash.iterate queue.jobs.toList).map Prod.snd).map ScheduledJob.id).Nodup := by
    rw [map_map]
    refine ((hash.perm queue.jobs.toList).map _).nodup_iff.mpr ?_
    exact ids ▸ nodup_keys queue.jobs
  exact all.sublist (filter_sublist.map _)

end

def rebuildHeapEntry (queue : SchedulerQueue) (jobId : JobId) : SchedulerQueue :=
  let kept := queue.heap.filter fun entry => entry.jobId ≠ jobId
  match queue.jobs[jobId]? with
  | some job => { queue with heap := kept ++ [⟨job.priority, job.dueAt, jobId⟩] }
  | none => { queue with heap := kept }

def rebuildHeapEntryWithDue (queue : SchedulerQueue) (jobId : JobId) (dueAt : DateTime) : SchedulerQueue :=
  let kept := queue.heap.filter fun entry => entry.jobId ≠ jobId
  match queue.jobs[jobId]? with
  | some job => { queue with heap := kept ++ [⟨job.priority, dueAt, jobId⟩] }
  | none => { queue with heap := kept }

theorem rebuildHeapEntry_insert (queue : SchedulerQueue) (job : ScheduledJob) :
    { queue with jobs := queue.jobs.insert job.id job }.rebuildHeapEntry job.id = { queue with
      heap := (queue.heap.filter fun entry => entry.jobId ≠ job.id) ++ [entryOf job]
      jobs := queue.jobs.insert job.id job } := by
  simp [rebuildHeapEntry, entryOf]

theorem rebuildHeapEntryWithDue_insert (queue : SchedulerQueue) (job : ScheduledJob) :
    { queue with jobs := queue.jobs.insert job.id job }.rebuildHeapEntryWithDue job.id job.dueAt = { queue with
      heap := (queue.heap.filter fun entry => entry.jobId ≠ job.id) ++ [entryOf job]
      jobs := queue.jobs.insert job.id job } := by
  simp [rebuildHeapEntryWithDue, entryOf]

section

variable [Ulid] (queue : SchedulerQueue)

def lookup (jobId : JobId) : Except SchedulerError ScheduledJob :=
  queue.jobs[jobId]?.okOr (.jobNotFound (Ulid.toText jobId))

theorem lookup_cases (jobId : JobId) : (∃ job, queue.jobs[jobId]? = some job ∧ queue.lookup jobId = .ok job) ∨
    queue.lookup jobId = .error (.jobNotFound (Ulid.toText jobId)) := by
  rw [lookup]
  cases queue.jobs[jobId]? with
  | none => exact .inr rfl
  | some job => exact .inl ⟨job, rfl, rfl⟩

def remove (jobId : JobId) : Except SchedulerError (ScheduledJob × SchedulerQueue) := do
  let job ← queue.lookup jobId
  return (job, { queue with
    heap := queue.heap.filter fun entry => entry.jobId ≠ jobId
    jobs := queue.jobs.erase jobId })

def updateState (jobId : JobId) (newState : JobState) (now : DateTime) : Except SchedulerError SchedulerQueue := do
  let job ← queue.lookup jobId
  let moved ← job.transition newState now
  return { queue with jobs := queue.jobs.insert jobId moved }

variable [TimeArithmetic]

def nextDueAt (schedule : SchedulePolicy) (now : DateTime) : DateTime := match schedule with
  | .atTime time => time
  | .after delay => now + (TimeArithmetic.fromStd delay).toOption.getD 0
  | .immediate => now
  | .cron _ => now

def updateSchedule (queue : SchedulerQueue) (jobId : JobId) (newSchedule : SchedulePolicy) (now : DateTime) :
    Except SchedulerError SchedulerQueue := do
  let job ← queue.lookup jobId
  if job.state = .running || job.state = .completed then
    throw (.invalidTransition job.state.toText "update_schedule")
  let moved := { job with schedulePolicy := newSchedule, dueAt := nextDueAt newSchedule now }
  return { queue with jobs := queue.jobs.insert jobId moved }.rebuildHeapEntry jobId

def retryTransition (queue : SchedulerQueue) (jobId : JobId) (failure : String) (due now : DateTime) :
    Except SchedulerError SchedulerQueue := do
  let job ← queue.lookup jobId
  let moved ← job.applyRetryableFailure failure due now
  return { queue with jobs := queue.jobs.insert jobId moved }.rebuildHeapEntryWithDue jobId moved.dueAt

end

section

variable (order : HeapOrder QueueEntry.cmp)

def popDue (queue : SchedulerQueue) (now : DateTime) : Option ScheduledJob × SchedulerQueue :=
  match _top : order.peek queue.heap with
  | none => (none, queue)
  | some entry =>
    if now < entry.dueAt then (none, queue)
    else
      let popped := { queue with heap := queue.heap.erase entry }
      match queue.jobs[entry.jobId]? with
      | some job =>
        if job.dueAt ≤ now then (some job, { popped with jobs := queue.jobs.erase entry.jobId })
        else popDue popped now
      | none => popDue popped now
termination_by queue.heap.length
decreasing_by
  all_goals
    have mem := order.mem_of_peek _top
    rw [length_erase_of_mem mem]
    exact Nat.sub_lt (length_pos_of_mem mem) Nat.zero_lt_one

end

end SchedulerQueue

end Veloxide.JobScheduler
