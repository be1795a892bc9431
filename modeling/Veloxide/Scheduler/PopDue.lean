import Veloxide.Library.Execution
import Veloxide.Scheduler.Queue

namespace Veloxide.JobScheduler

open OrderedStore Machine List

namespace SchedulerQueue

/-- The heap has one entry for each job, with its priority and due time. -/
structure Synced (queue : SchedulerQueue) : Prop where
  keyed : ∀ (id : JobId) (job : ScheduledJob), queue.jobs[id]? = some job → job.id = id
  nodup : queue.heap.Nodup
  entries : ∀ entry, entry ∈ queue.heap ↔ ∃ job, queue.jobs[entry.jobId]? = some job ∧ entryOf job = entry

namespace Synced

variable {queue : SchedulerQueue}

theorem new (capacity : Nat) : Synced (.new capacity) where
  keyed := by simp [SchedulerQueue.new]
  nodup := nodup_nil
  entries := by simp [SchedulerQueue.new]

theorem entry_of_job (hs : Synced queue) {job : ScheduledJob} (held : queue.Holds job) : entryOf job ∈ queue.heap :=
  (hs.entries (entryOf job)).mpr ⟨job, held, rfl⟩

theorem replace (hs : Synced queue) (job : ScheduledJob) : Synced { queue with
      heap := (queue.heap.filter fun entry => entry.jobId ≠ job.id) ++ [entryOf job]
      jobs := queue.jobs.insert job.id job } where
  keyed := forall_insert hs.keyed rfl
  nodup := by
    refine nodup_append.mpr ⟨hs.nodup.filter _, nodup_singleton _, ?_⟩
    intro entry kept new ha same
    rw [mem_singleton.mp ha] at same
    have hd := (mem_filter.mp kept).2
    rw [same] at hd
    exact absurd rfl (of_decide_eq_true hd)
  entries := by
    intro entry
    rw [mem_append, mem_filter, mem_singleton, hs.entries, get_insert]
    by_cases same : job.id = entry.jobId
    · simp only [same, ne_eq, not_true_eq_false, decide_false, Bool.false_eq_true, and_false, false_or, ↓reduceIte,
        Option.some.injEq, exists_eq_left']
      exact eq_comm
    · have ho : entry ≠ entryOf job := fun he => same (congrArg QueueEntry.jobId he).symm
      simp [same, ho, Ne.symm same]

theorem drop (hs : Synced queue) (id : JobId) : Synced { queue with
      heap := queue.heap.filter fun entry => entry.jobId ≠ id
      jobs := queue.jobs.erase id } where
  keyed := by
    intro other job held
    rw [get_erase] at held
    split_ifs at held
    exact hs.keyed other job held
  nodup := hs.nodup.filter _
  entries := by
    intro entry
    rw [mem_filter, hs.entries, get_erase]
    by_cases same : id = entry.jobId
    · simp [same]
    · simp [same, Ne.symm same]

theorem erase_eq_filter (hs : Synced queue) {top : QueueEntry} (mem : top ∈ queue.heap) :
    queue.heap.erase top = queue.heap.filter fun entry => entry.jobId ≠ top.jobId := by
  rw [hs.nodup.erase_eq_filter]
  refine filter_congr ?_
  intro entry held
  have only : entry.jobId = top.jobId ↔ entry = top := by
    refine ⟨fun same => ?_, congrArg QueueEntry.jobId⟩
    obtain ⟨job, hf, he⟩ := (hs.entries entry).mp held
    obtain ⟨other, kept, hl⟩ := (hs.entries top).mp mem
    rw [same, kept] at hf
    cases hf
    exact he.symm.trans hl
  rw [Bool.eq_iff_iff, bne_iff_ne, decide_eq_true_iff, ne_eq, ne_eq, only]

end Synced

section

variable (order : HeapOrder QueueEntry.cmp) {queue : SchedulerQueue} {now : DateTime}

theorem popDue_cases (hs : Synced queue) (now : DateTime) : (queue.heap = [] ∧ popDue order queue now = (none, queue)) ∨
    ∃ top job, order.peek queue.heap = some top ∧ queue.Holds job ∧ entryOf job = top ∧
      ((now < job.dueAt ∧ popDue order queue now = (none, queue)) ∨
        (job.dueAt ≤ now ∧ popDue order queue now = (some job, { queue with
          heap := queue.heap.filter fun entry => entry.jobId ≠ job.id
          jobs := queue.jobs.erase job.id }))) := by
  cases top : order.peek queue.heap with
  | none =>
    refine .inl ⟨order.eq_nil_of_peek top, ?_⟩
    rw [popDue]
    split
    · rfl
    · rename_i entry hf
      rw [top] at hf
      cases hf
  | some entry =>
    obtain ⟨job, held, he⟩ := (hs.entries entry).mp (order.mem_of_peek top)
    have id : job.id = entry.jobId := hs.keyed _ job held
    have due : job.dueAt = entry.dueAt := congrArg QueueEntry.dueAt he
    refine .inr ⟨entry, job, rfl, by rw [Holds, id]; exact held, he, ?_⟩
    rw [popDue]
    split
    · rename_i hf
      rw [top] at hf
      cases hf
    · rename_i hf
      rw [top] at hf
      cases hf
      by_cases ha : now < entry.dueAt
      · exact .inl ⟨due ▸ ha, if_pos ha⟩
      · have hr : job.dueAt ≤ now := due ▸ not_lt.mp ha
        refine .inr ⟨hr, ?_⟩
        rw [if_neg ha]
        simp only [held, if_pos hr, hs.erase_eq_filter (order.mem_of_peek top), id]

theorem Synced.popDue (hs : Synced queue) (now : DateTime) : Synced (popDue order queue now).2 := by
  rcases popDue_cases order hs now with ⟨_, idle⟩ | ⟨top, job, _, _, _, ⟨_, idle⟩ | ⟨_, hp⟩⟩
  · rw [idle]
    exact hs
  · rw [idle]
    exact hs
  · rw [hp]
    exact hs.drop job.id

/-- What `pop_due` is to answer: a job exactly if one is due, and the most urgent and then earliest of these. -/
structure Exact (queue : SchedulerQueue) (now : DateTime) (popped : Option ScheduledJob) : Prop where
  isSome_iff : popped.isSome ↔ ∃ job, queue.Holds job ∧ job.dueAt ≤ now
  due : ∀ job, popped = some job → queue.Holds job ∧ job.dueAt ≤ now
  first : ∀ job, popped = some job → ∀ other, queue.Holds other → other.dueAt ≤ now →
    job.priority.rank < other.priority.rank ∨ (job.priority = other.priority ∧ job.dueAt ≤ other.dueAt)

def LeastUrgentDue (queue : SchedulerQueue) (now : DateTime) : Prop :=
  ∀ job other, queue.Holds job → queue.Holds other → job.dueAt ≤ now → other.priority.rank ≤ job.priority.rank

theorem exact_iff (hs : Synced queue) (now : DateTime) :
    Exact queue now (queue.popDue order now).1 ↔ LeastUrgentDue queue now := by
  rcases popDue_cases order hs now with ⟨hm, idle⟩ | ⟨top, job, hp, held, he, ho⟩
  · have hn : ∀ job, ¬ queue.Holds job := by
      intro job held
      have mem := hs.entry_of_job held
      rw [hm] at mem
      cases mem
    rw [idle]
    refine iff_of_true ⟨?_, ?_, ?_⟩ fun job _ held => absurd held (hn job)
    · simp [hn]
    · simp
    · simp
  have hg : ∀ other, queue.Holds other → other.priority.rank < job.priority.rank ∨
      (other.priority = job.priority ∧ job.dueAt ≤ other.dueAt) := by
    intro other found
    have hb := order.le_of_peek hp (hs.entry_of_job found)
    rw [← he] at hb
    exact QueueEntry.isLE_cmp.mp hb
  rcases ho with ⟨ha, idle⟩ | ⟨hr, hc⟩
  · rw [idle]
    constructor
    · intro exact other _ found _ due
      cases exact.isSome_iff.mpr ⟨other, found, due⟩
    · intro hl
      have none : ¬ ∃ other, queue.Holds other ∧ other.dueAt ≤ now := by
        rintro ⟨other, found, due⟩
        rcases hg other found with less | ⟨_, hd⟩
        · exact absurd (hl other job found held due) (Nat.not_le.mpr less)
        · exact absurd (Int.le_trans hd due) (Int.not_le.mpr ha)
      exact ⟨iff_of_false (by simp) none, by simp, by simp⟩
  · rw [hc]
    constructor
    · intro exact other third found kept due
      have hf : job.priority.rank ≤ other.priority.rank := by
        rcases exact.first job rfl other found due with less | ⟨same, _⟩
        · exact Nat.le_of_lt less
        · exact Nat.le_of_eq (congrArg JobPriority.rank same)
      rcases hg third kept with less | ⟨same, _⟩
      · exact Nat.le_trans (Nat.le_of_lt less) hf
      · exact same ▸ hf
    · intro hl
      refine ⟨iff_of_true rfl ⟨job, held, hr⟩, ?_, ?_⟩
      · intro found same
        cases same
        exact ⟨held, hr⟩
      · intro found same other
        cases same
        intro found due
        have hf := hl other job found held due
        rcases hg other found with less | ⟨same, hd⟩
        · exact absurd hf (Nat.not_le.mpr less)
        · exact .inr ⟨same.symm, hd⟩

theorem popped_later (hy : Synced queue) {job : ScheduledJob} (held : queue.Holds job)
    (due : ∀ other, queue.Holds other → other.dueAt ≤ now) : ∃ count found, found.id = job.id ∧
      (popDue order ((fun queue => (popDue order queue now).2)^[count] queue) now).1 = some found := by
  induction size : queue.heap.length using Nat.strongRecOn generalizing queue with
  | ind bound ih =>
    rcases popDue_cases order hy now with ⟨he, _⟩ | ⟨top, other, _, kept, _, ⟨ha, _⟩ | ⟨hb, hp⟩⟩
    · have mem := hy.entry_of_job held
      rw [he] at mem
      cases mem
    · exact absurd (due other kept) (not_le.mpr ha)
    · by_cases same : other.id = job.id
      · exact ⟨0, other, same, by rw [Function.iterate_zero, id, hp]⟩
      have ht : (popDue order queue now).2.Holds job := by
        rw [hp, Holds, get_erase, if_neg same]
        exact held
      have hs : (popDue order queue now).2.heap.length < bound := by
        rw [hp, ← size]
        exact length_filter_lt_length_iff_exists.mpr ⟨entryOf other, hy.entry_of_job kept, by simp [entryOf]⟩
      have hr : ∀ third, (popDue order queue now).2.Holds third → third.dueAt ≤ now := by
        intro third found
        rw [hp, Holds, get_erase] at found
        split_ifs at found
        exact due third found
      obtain ⟨count, found, hm, last⟩ := ih _ hs (hy.popDue order now) ht hr rfl
      exact ⟨count + 1, found, hm, by rw [Function.iterate_succ_apply]; exact last⟩

end

end SchedulerQueue

open SchedulerQueue

inductive QueueCall
  | insert (job : ScheduledJob)
  | remove (jobId : JobId)
  | updateSchedule (jobId : JobId) (newSchedule : SchedulePolicy) (now : DateTime)
  | retryTransition (jobId : JobId) (failure : String) (due now : DateTime)
  | popDue (now : DateTime)

inductive QueueReply
  | done (result : Except SchedulerError Unit)
  | removed (result : Except SchedulerError ScheduledJob)
  | popped (job : Option ScheduledJob)

def QueueCall.insertedId? : QueueCall → Option JobId
  | .insert job => some job.id
  | _ => none

section

variable [Ulid] [TimeArithmetic] (order : HeapOrder QueueEntry.cmp)

def answer (queue : SchedulerQueue) : Except SchedulerError SchedulerQueue → QueueReply × SchedulerQueue
  | .ok after => (.done (.ok ()), after)
  | .error failure => (.done (.error failure), queue)

def serveQueue (queue : SchedulerQueue) : QueueCall → QueueReply × SchedulerQueue
  | .insert job => answer queue (queue.insert job)
  | .remove jobId =>
    match queue.remove jobId with
    | .ok (job, after) => (.removed (.ok job), after)
    | .error failure => (.removed (.error failure), queue)
  | .updateSchedule jobId newSchedule now => answer queue (queue.updateSchedule jobId newSchedule now)
  | .retryTransition jobId failure due now => answer queue (queue.retryTransition jobId failure due now)
  | .popDue now => (.popped (queue.popDue order now).1, (queue.popDue order now).2)

abbrev QueueEvent := Event SchedulerQueue QueueCall QueueReply

/-- The job with the id was inserted, and neither removed nor popped. -/
structure Left (history : List QueueEvent) (id : JobId) : Prop where
  inserted : ∃ here ∈ history, ∃ job, here.call = .insert job ∧ job.id = id ∧ here.reply = .done (.ok ())
  notRemoved : ∀ here ∈ history, ∀ job, here.reply = .removed (.ok job) → job.id ≠ id
  notPopped : ∀ here ∈ history, ∀ job, here.reply = .popped (some job) → job.id ≠ id

/-- What a call does: nothing, a new job, another version of a job, or one job less. -/
inductive QueueStep (queue : SchedulerQueue) (call : QueueCall) : QueueReply × SchedulerQueue → Prop
  | idle (reply : QueueReply) (refused : ∀ job, call = .insert job → reply ≠ .done (.ok ())) :
    QueueStep queue call (reply, queue)
  | added (job : ScheduledJob) (inserted : call = .insert job) : QueueStep queue call (.done (.ok ()), { queue with
      heap := queue.heap ++ [entryOf job]
      jobs := queue.jobs.insert job.id job })
  | replaced (job : ScheduledJob) (held : (queue.jobs[job.id]?).isSome = true) (update : call.insertedId? = none) :
    QueueStep queue call (.done (.ok ()), { queue with
      heap := (queue.heap.filter fun entry => entry.jobId ≠ job.id) ++ [entryOf job]
      jobs := queue.jobs.insert job.id job })
  | dropped (job : ScheduledJob) (reply : QueueReply) (held : queue.Holds job)
    (taken : reply = .removed (.ok job) ∨ reply = .popped (some job)) :
    QueueStep queue call (reply, { queue with
      heap := queue.heap.filter fun entry => entry.jobId ≠ job.id
      jobs := queue.jobs.erase job.id })

theorem serveQueue_step {queue : SchedulerQueue} (hs : Synced queue) (call : QueueCall) :
    QueueStep queue call (serveQueue order queue call) := by
  cases call with
  | insert job =>
    rw [serveQueue, SchedulerQueue.insert]
    by_cases full : queue.capacity ≤ queue.len
    · rw [if_pos full]
      exact .idle _ fun _ _ => (by simp)
    · rw [if_neg full]
      exact .added job rfl
  | remove jobId =>
    rcases lookup_cases queue jobId with ⟨job, held, hf⟩ | missing
    · have same := hs.keyed jobId job held
      subst same
      rw [serveQueue, SchedulerQueue.remove, hf]
      exact .dropped job _ held (.inl rfl)
    · rw [serveQueue, SchedulerQueue.remove, missing]
      exact .idle _ fun _ hi => (by cases hi)
  | updateSchedule jobId newSchedule now =>
    rcases lookup_cases queue jobId with ⟨job, held, hf⟩ | missing
    · have same := hs.keyed jobId job held
      subst same
      have some : (queue.jobs[job.id]?).isSome = true := by rw [held]; rfl
      by_cases busy : (job.state = .running || job.state = .completed) = true
      · have hr : queue.updateSchedule job.id newSchedule now =
            .error (.invalidTransition job.state.toText "update_schedule") := by
          rw [SchedulerQueue.updateSchedule, hf]
          exact if_pos busy
        rw [serveQueue, hr]
        exact .idle _ fun _ hi => (by cases hi)
      · let moved := { job with schedulePolicy := newSchedule, dueAt := nextDueAt newSchedule now }
        have hu : queue.updateSchedule job.id newSchedule now =
            .ok ({ queue with jobs := queue.jobs.insert moved.id moved }.rebuildHeapEntry moved.id) := by
          rw [SchedulerQueue.updateSchedule, hf]
          exact if_neg busy
        rw [serveQueue, hu, rebuildHeapEntry_insert]
        exact .replaced moved some rfl
    · rw [serveQueue, SchedulerQueue.updateSchedule, missing]
      exact .idle _ fun _ hi => (by cases hi)
  | retryTransition jobId err due now =>
    rcases lookup_cases queue jobId with ⟨job, held, hf⟩ | missing
    · have same := hs.keyed jobId job held
      subst same
      have some : (queue.jobs[job.id]?).isSome = true := by rw [held]; rfl
      cases he : job.applyRetryableFailure err due now with
      | error refusal =>
        rw [serveQueue, SchedulerQueue.retryTransition, hf]
        simp only [he, bind, Except.bind]
        exact .idle _ fun _ hi => (by cases hi)
      | ok moved =>
        have same := ScheduledJob.id_of_retryable he
        have hu : queue.retryTransition job.id err due now =
            .ok ({ queue with jobs := queue.jobs.insert moved.id moved }.rebuildHeapEntryWithDue moved.id moved.dueAt) := by
          rw [SchedulerQueue.retryTransition, hf, same]
          simp only [he, bind, Except.bind]
          rfl
        rw [serveQueue, hu, rebuildHeapEntryWithDue_insert]
        exact .replaced moved (same ▸ some) rfl
    · rw [serveQueue, SchedulerQueue.retryTransition, missing]
      exact .idle _ fun _ hi => (by cases hi)
  | popDue now =>
    rw [serveQueue]
    rcases popDue_cases order hs now with ⟨_, idle⟩ | ⟨top, job, _, held, _, ⟨_, idle⟩ | ⟨_, hp⟩⟩
    · rw [idle]
      exact .idle _ fun _ hi => (by cases hi)
    · rw [idle]
      exact .idle _ fun _ hi => (by cases hi)
    · rw [hp]
      exact .dropped job _ held (.inr rfl)

namespace QueueStep

variable {queue : SchedulerQueue} {call : QueueCall} {result : QueueReply × SchedulerQueue} {id : JobId}

omit [Ulid] [TimeArithmetic] in
theorem synced (step : QueueStep queue call result) (synced : Synced queue)
    (hf : ∀ job, call = .insert job → queue.jobs[job.id]? = none) : Synced result.2 := by
  cases step with
  | idle reply hr => exact synced
  | added job hi =>
    have ho : queue.heap.filter (fun entry => entry.jobId ≠ job.id) = queue.heap := by
      rw [List.filter_eq_self]
      intro entry mem
      obtain ⟨other, held, _⟩ := (synced.entries entry).mp mem
      rw [decide_eq_true_iff]
      intro same
      rw [same, hf job hi] at held
      cases held
    have replaced := synced.replace job
    rwa [ho] at replaced
  | replaced job held hu => exact synced.replace job
  | dropped job reply held ht => exact synced.drop job.id

omit [Ulid] [TimeArithmetic] in
theorem arrived (step : QueueStep queue call result) (held : (result.2.jobs[id]?).isSome) :
    (queue.jobs[id]?).isSome ∨ call.insertedId? = some id := by
  cases step with
  | idle reply hr => exact .inl held
  | added job hi =>
    rw [get_insert] at held
    split_ifs at held with same
    · exact .inr (by rw [hi, QueueCall.insertedId?, same])
    · exact .inl held
  | replaced job hp hu =>
    rw [get_insert] at held
    split_ifs at held with same
    · exact .inl (same ▸ hp)
    · exact .inl held
  | dropped job reply hp ht =>
    rw [get_erase] at held
    split_ifs at held
    · cases held
    · exact .inl held

omit [Ulid] [TimeArithmetic] in
theorem stays (step : QueueStep queue call result) (held : (queue.jobs[id]?).isSome)
    (hn : ∀ job, result.1 = .removed (.ok job) → job.id ≠ id)
    (ha : ∀ job, result.1 = .popped (some job) → job.id ≠ id) : (result.2.jobs[id]?).isSome := by
  cases step with
  | idle reply hr => exact held
  | added job hi | replaced job hp hu =>
    rw [get_insert]
    split_ifs
    · rfl
    · exact held
  | dropped job reply hp ht =>
    have ho : job.id ≠ id := by
      rcases ht with he | popped
      · exact hn job he
      · exact ha job popped
    rw [get_erase, if_neg ho]
    exact held

omit [Ulid] [TimeArithmetic] in
theorem accepted {job : ScheduledJob} (step : QueueStep queue (.insert job) result)
    (done : result.1 = .done (.ok ())) : (result.2.jobs[job.id]?).isSome := by
  cases step with
  | idle reply hr => exact absurd done (hr job rfl)
  | added new hi =>
    cases hi
    rw [get_insert, if_pos rfl]
    rfl
  | replaced new held hu => cases hu
  | dropped new reply held ht =>
    rcases ht with he | popped
    · cases done.symm.trans he
    · cases done.symm.trans popped

end QueueStep

/-- The queue against the calls that were made: only inserted jobs are in it, and all that are left. -/
structure Tracks (history : List QueueEvent) (queue : SchedulerQueue) : Prop where
  synced : Synced queue
  known : ∀ id, (queue.jobs[id]?).isSome → id ∈ (history.map Event.call).filterMap QueueCall.insertedId?
  left : ∀ id, Left history id → (queue.jobs[id]?).isSome

variable {history : List QueueEvent}

omit [Ulid] [TimeArithmetic] in
theorem Left.earlier {here : QueueEvent} {id : JobId} (left : Left (history ++ [here]) id)
    (ho : ∀ job, here.call = .insert job → here.reply = .done (.ok ()) → job.id ≠ id) : Left history id := by
  obtain ⟨⟨event, mem, job, hi, same, ha⟩, hn, hb⟩ := left
  refine ⟨?_, fun event mem => hn event (mem_append_left _ mem), fun event mem => hb event (mem_append_left _ mem)⟩
  rcases mem_append.mp mem with past | last
  · exact ⟨event, past, job, hi, same, ha⟩
  · rw [mem_singleton.mp last] at hi ha
    exact absurd same (ho job hi ha)

theorem Tracks.step {queue : SchedulerQueue} (ht : Tracks history queue) (call : QueueCall)
    (hd : ((history.map Event.call ++ [call]).filterMap QueueCall.insertedId?).Nodup) :
    Tracks (history ++ [event (serveQueue order) queue call]) (serveQueue order queue call).2 := by
  have hf : ∀ job, call = .insert job → queue.jobs[job.id]? = none := by
    intro job inserted
    subst inserted
    rw [filterMap_append, nodup_append] at hd
    by_contra held
    exact hd.2.2 job.id (ht.known job.id (Option.isSome_iff_ne_none.mpr held)) job.id (by simp
      [QueueCall.insertedId?]) rfl
  have hm := serveQueue_step order ht.synced call
  have hs := hm.synced ht.synced hf
  refine ⟨hs, ?_, ?_⟩
  · intro id held
    rw [map_append, filterMap_append, mem_append]
    rcases hm.arrived held with hb | inserted
    · exact .inl (ht.known id hb)
    · exact .inr (by simp [event, inserted])
  · intro id left
    have last : event (serveQueue order) queue call ∈ history ++ [event (serveQueue order) queue call] := by simp
    by_cases inserted : ∃ job, call = .insert job ∧ (serveQueue order queue call).1 = .done (.ok ()) ∧ job.id = id
    · obtain ⟨job, rfl, done, rfl⟩ := inserted
      exact hm.accepted done
    · have hb := ht.left id (left.earlier fun job hi done same => inserted ⟨job, hi, done, same⟩)
      exact hm.stays hb (left.notRemoved _ last) (left.notPopped _ last)

def InsertsDistinct (calls : List QueueCall) : Prop := (calls.filterMap QueueCall.insertedId?).Nodup

instance (calls : List QueueCall) : Decidable (InsertsDistinct calls) :=
  inferInstanceAs (Decidable (calls.filterMap QueueCall.insertedId?).Nodup)

theorem tracks_run (capacity : Nat) (calls : List QueueCall) (hd : InsertsDistinct calls) :
    Tracks (trace (serveQueue order) (.new capacity) calls) (final (serveQueue order) (.new capacity) calls) := by
  refine history_invariant (serveQueue order) (fun _ _ => True)
    (fun history queue => InsertsDistinct (history.map Event.call) → Tracks history queue) (.new capacity)
    ?_ ?_ calls (Guarded.trivial _ _ _) (by rw [trace_calls]; exact hd)
  · intro _
    refine ⟨Synced.new capacity, by simp [SchedulerQueue.new], ?_⟩
    intro id left
    obtain ⟨here, mem, _⟩ := left.inserted
    cases mem
  · intro history queue call he _ hd
    rw [map_append] at hd
    have hb : InsertsDistinct (history.map Event.call) := by
      rw [InsertsDistinct, filterMap_append] at hd
      exact (nodup_append.mp hd).1
    exact (he hb).step order call hd

/-- `pop_due` is exact if no queued job is less urgent than one that is due, and no job is lost. -/
theorem pop_due_exact_iff (capacity : Nat) (calls : List QueueCall) (distinct : InsertsDistinct calls) :
    (∀ now : DateTime, Exact (final (serveQueue order) (.new capacity) calls) now
          ((final (serveQueue order) (.new capacity) calls).popDue order now).1 ↔
        LeastUrgentDue (final (serveQueue order) (.new capacity) calls) now) ∧
      ∀ id : JobId, Left (trace (serveQueue order) (.new capacity) calls) id →
        ∃ time : DateTime, ∀ now : DateTime, time ≤ now → ∃ (count : Nat) (job : ScheduledJob), job.id = id ∧
          (popDue order ((fun queue => (popDue order queue now).2)^[count]
            (final (serveQueue order) (.new capacity) calls)) now).1 = some job := by
  have ht := tracks_run order capacity calls distinct
  generalize final (serveQueue order) (.new capacity) calls = queue at ht ⊢
  refine ⟨exact_iff order ht.synced, ?_⟩
  intro id left
  obtain ⟨job, held⟩ := Option.isSome_iff_exists.mp (ht.left id left)
  have same := ht.synced.keyed id job held
  subst same
  obtain ⟨time, hl⟩ : ∃ time : DateTime, ∀ other, queue.Holds other → other.dueAt ≤ time := by
    obtain ⟨time, hl⟩ := (queue.heap.map QueueEntry.dueAt).toFinset.bddAbove
    refine ⟨time, fun other kept => hl ?_⟩
    rw [Finset.mem_coe, mem_toFinset]
    exact mem_map_of_mem (ht.synced.entry_of_job kept)
  refine ⟨time, fun now late => ?_⟩
  obtain ⟨count, found, hm, hp⟩ := popped_later order ht.synced held
    fun other kept => Int.le_trans (hl other kept) late
  exact ⟨count, found, hm, hp⟩

end

section Sample

attribute [local instance] Ulid.Crockford.codec TimeArithmetic.whole

def plainPolicy : RetryPolicy := ⟨3, ⟨0x4000000000000000⟩, 1000000000, 300000000000⟩

def plainJob (id : JobId) (priority : JobPriority) (dueAt : DateTime) : ScheduledJob :=
  ⟨id, .oneShot, .scheduled, priority, .atTime dueAt, plainPolicy, 0, dueAt, [], none, 0, 0⟩

def urgentJob : ScheduledJob := plainJob 1 .critical 5

def patientJob : ScheduledJob := plainJob 2 .background 100

def sampleQueue : SchedulerQueue :=
  final (serveQueue (.scan QueueEntry.cmp)) (.new 10) [.insert urgentJob, .insert patientJob]

def criticalCalls : List QueueCall := [.insert urgentJob, .insert (plainJob 3 .critical 3)]

theorem pop_due_exact_iff_sample : InsertsDistinct criticalCalls ∧
    (let queue := final (serveQueue (.scan QueueEntry.cmp)) (.new 10) criticalCalls
    queue.Holds urgentJob ∧ urgentJob.dueAt ≤ 5 ∧ Exact queue 5 (queue.popDue (.scan QueueEntry.cmp) 5).1) := by
  refine ⟨by decide, by decide +kernel, by decide, ?_⟩
  refine ((pop_due_exact_iff (.scan QueueEntry.cmp) 10 criticalCalls (by decide)).1 5).mpr ?_
  let queue := final (serveQueue (.scan QueueEntry.cmp)) (.new 10) criticalCalls
  have all : ∀ entry ∈ queue.jobs.toList, entry.2.priority = .critical := by decide +kernel
  have critical {job : ScheduledJob} (held : queue.Holds job) : job.priority = .critical :=
    all (job.id, job) (Std.ExtTreeMap.mem_toList_iff_getElem?_eq_some.mpr held)
  intro job other held kept _
  rw [critical held, critical kept]

/-- The background job is on top: the critical one is not returned before it. -/
theorem background_job_first : (sampleQueue.popDue (.scan QueueEntry.cmp) 10).1 = none ∧ urgentJob.dueAt ≤ 10 ∧
    (sampleQueue.popDue (.scan QueueEntry.cmp) 100).1 = some patientJob ∧ sampleQueue.Holds urgentJob ∧
    ¬ Exact sampleQueue 10 (sampleQueue.popDue (.scan QueueEntry.cmp) 10).1 ∧
    ¬ Exact sampleQueue 100 (sampleQueue.popDue (.scan QueueEntry.cmp) 100).1 := by
  have held : sampleQueue.Holds urgentJob := by decide +kernel
  have kept : sampleQueue.Holds patientJob := by decide +kernel
  have top : (HeapOrder.scan QueueEntry.cmp).peek sampleQueue.heap = some (entryOf patientJob) := by decide +kernel
  have hw : (sampleQueue.popDue (.scan QueueEntry.cmp) 10).1 = none := by
    rw [popDue]
    split
    · rfl
    · rename_i hf
      cases top.symm.trans hf
      rw [if_pos (by decide)]
  have first : (sampleQueue.popDue (.scan QueueEntry.cmp) 100).1 = some patientJob := by
    rw [popDue]
    split
    · rename_i hf
      cases top.symm.trans hf
    · rename_i hf
      cases top.symm.trans hf
      rw [if_neg (by decide)]
      simp only [show sampleQueue.jobs[(entryOf patientJob).jobId]? = some patientJob from kept,
        show patientJob.dueAt ≤ 100 by decide, if_true]
  refine ⟨hw, by decide, first, held, ?_, ?_⟩
  · intro exact
    have ha := exact.isSome_iff.mpr ⟨urgentJob, held, by decide⟩
    rw [hw] at ha
    cases ha
  · intro exact
    rcases exact.first patientJob first urgentJob held (by decide) with less | ⟨same, _⟩
    · exact absurd less (by decide)
    · cases same

end Sample

end Veloxide.JobScheduler
