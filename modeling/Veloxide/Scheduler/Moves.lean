import Veloxide.Library.Execution
import Veloxide.Scheduler.Tick

namespace Veloxide.JobScheduler

open OrderedStore Stateful Relation Machine List

variable {S W : Type}

structure View (S W : Type) where
  jobs : Store JobId ScheduledJob
  store : S
  dispatcher : W

def Scheduler.view (sched : Scheduler S W) : View S W := ⟨sched.queue.jobs, sched.store, sched.dispatcher⟩

def stored [JobStore S] (store : S) (jobs : List ScheduledJob) : S :=
  jobs.foldl (fun store job => (JobStore.persist store job).2) store

def ScheduledJob.withState (job : ScheduledJob) (state : JobState) (time : DateTime) : ScheduledJob :=
  { job with state, updatedAt := time }

def Reliable (S : Type) [JobStore S] : Prop := ∀ (store : S) (job : ScheduledJob), (JobStore.persist store job).1 = .ok ()

def Promotes (now : DateTime) (job moved : ScheduledJob) : Prop :=
  job.state = .scheduled ∧ job.dueAt ≤ now ∧ ∃ time, moved = job.withState .pending time

/-- What a completion or a cancellation makes of a job; `stops` tells whether it can end at an error of the store. -/
inductive Change (stops : Prop) (job : ScheduledJob) : ScheduledJob → Prop
  | completed (time : DateTime) (state : job.state = .running) (last : job.kind ≠ .recurring ∨ stops) :
    Change stops job (job.withState .completed time)
  | rescheduled (time dueAt : DateTime) (state : job.state = .running) (recurring : job.kind = .recurring) :
    Change stops job { job.withState .scheduled time with dueAt, attemptCount := 0, lastError := none }
  | failed (time : DateTime) (error : String) (state : job.state = .running)
    (last : job.retryPolicy.canRetry job.attemptCount = false ∨ stops) :
    Change stops job { job.withState .failed time with lastError := some error }
  | retried (time dueAt : DateTime) (error : String) (state : job.state = .running)
    (retries : job.retryPolicy.canRetry job.attemptCount = true) :
    Change stops job { job.withState .pending time with
      lastError := some error, attemptCount := job.attemptCount + 1, dueAt }
  | cancelled (time : DateTime) (state : job.state.isTerminal = false) : Change stops job (job.withState .cancelled time)

section

variable [JobStore S]

def View.submitted (view : View S W) (job : ScheduledJob) : View S W :=
  ⟨view.jobs.insert job.id job, stored view.store [job], view.dispatcher⟩

/-- A job of the queue gets a new version, which is persisted last. -/
inductive Changed (kind : ScheduledJob → ScheduledJob → Prop) (view : View S W) : View S W → Prop
  | intro (job moved : ScheduledJob) (drafts : List ScheduledJob) (held : view.jobs[job.id]? = some job)
    (change : kind job moved) (same : moved.id = job.id) (versions : ∀ draft ∈ drafts, draft.id = job.id) :
    Changed kind view ⟨view.jobs.insert job.id moved, stored view.store (drafts ++ [moved]), view.dispatcher⟩

/-- A pending job is given to the dispatcher, and the loop over the pending jobs goes on or ends. -/
inductive Dispatched [WorkerDispatch W] (job : ScheduledJob) (view : View S W) : Except DispatchStop Nat → View S W → Prop
  | handed (time : DateTime) (dispatcher : W)
    (accepted : WorkerDispatch.dispatch view.dispatcher (job.withState .running time) = (.ok (), dispatcher)) :
    Dispatched job view (.ok 1) ⟨view.jobs.insert job.id (job.withState .running time),
      stored view.store [job.withState .running time], dispatcher⟩
  | refused (time later : DateTime) (dispatcher : W) (failure : SchedulerError)
    (rejected : WorkerDispatch.dispatch view.dispatcher (job.withState .running time) = (.error failure, dispatcher)) :
    Dispatched job view (.error (.refused failure)) ⟨view.jobs.insert job.id (job.withState .pending later),
      stored view.store [job.withState .running time, job.withState .pending later], dispatcher⟩
  | lost (time : DateTime) (drafts : List ScheduledJob) (dispatcher : W) (failure : SchedulerError)
    (stops : ¬ Reliable S)
    (asked : dispatcher = view.dispatcher ∨ ∃ failure,
      WorkerDispatch.dispatch view.dispatcher (job.withState .running time) = (.error failure, dispatcher)) :
    Dispatched job view (.error (.notPersisted failure))
      ⟨view.jobs.erase job.id, stored view.store drafts, dispatcher⟩

inductive Move [WorkerDispatch W] (now : DateTime) (view after : View S W) : Prop
  | promoted (step : Changed (Promotes now) view after)
  | changed (step : Changed (Change (¬ Reliable S)) view after)
  | dispatched (job : ScheduledJob) (held : view.jobs[job.id]? = some job) (pending : job.state = .pending)
    (result : Except DispatchStop Nat) (step : Dispatched job view result after)

end

/-- Jobs are found under their ids, and there are not more than the queue may hold. -/
structure WellFormed (sched : Scheduler S W) : Prop where
  keyed : ∀ (id : JobId) (job : ScheduledJob), sched.queue.jobs[id]? = some job → job.id = id
  bounded : sched.queue.jobs.size ≤ sched.queue.capacity

structure Follows (step : View S W → View S W → Prop) (first last : Scheduler S W) : Prop where
  wellFormed : WellFormed last
  readings : first.readings ≤ last.readings
  moves : ReflTransGen step first.view last.view

def Leads (step : View S W → View S W → Prop) (first last : Scheduler S W) : Prop :=
  WellFormed first → Follows step first last

variable {last first : Scheduler S W}

section

variable {step : View S W → View S W → Prop}

theorem Follows.refl {sched : Scheduler S W} (hw : WellFormed sched) : Follows step sched sched :=
  ⟨hw, Nat.le_refl _, .refl⟩

theorem Follows.trans {second third : Scheduler S W} (hb : Follows step first second)
    (ha : Follows step second third) : Follows step first third :=
  ⟨ha.wellFormed, Nat.le_trans hb.readings ha.readings, hb.moves.trans ha.moves⟩

theorem Follows.mono {other : View S W → View S W → Prop}
    (hw : ∀ view after, step view after → other view after) (hf : Follows step first last) :
    Follows other first last :=
  ⟨hf.wellFormed, hf.readings, ReflTransGen.mono (fun _ _ => hw _ _) _ _ hf.moves⟩

theorem Leads.refl (sched : Scheduler S W) : Leads step sched sched := Follows.refl

theorem Leads.trans (first second third : Scheduler S W) (hb : Leads step first second)
    (ha : Leads step second third) : Leads step first third :=
  fun hw => (hb hw).trans (ha (hb hw).wellFormed)

end

def Scheduler.withJob (sched : Scheduler S W) (job : ScheduledJob) : Scheduler S W := { sched with
    queue := { sched.queue with
      heap := sched.queue.heap ++ [SchedulerQueue.entryOf job]
      jobs := sched.queue.jobs.insert job.id job } }

variable {sched : Scheduler S W}

theorem insertJob_run (room : sched.queue.len < sched.queue.capacity)
    (job : ScheduledJob) : (insertJob job).run sched = (.ok (), sched.withJob job) := by
  simp only [insertJob, updateQueue, SchedulerQueue.insert, if_neg (Nat.not_le.mpr room), Scheduler.withJob]

theorem persist_run [JobStore S] (sched : Scheduler S W) (job : ScheduledJob) :
    ∃ result, (persist job).run sched = (result, { sched with store := stored sched.store [job] }) ∧
      ∀ err, result = .error err → ¬ Reliable S := by
  refine ⟨_, rfl, ?_⟩
  intro err hf hr
  rw [hr sched.store job] at hf
  cases hf

theorem utcNow_run {ε : Type} (clock : Nat → DateTime) (sched : Scheduler S W) :
    (utcNow clock : Stateful (Scheduler S W) ε DateTime).run sched =
      (.ok (clock sched.readings), { sched with readings := sched.readings + 1 }) := rfl

variable {dispatcher : W}

theorem dispatch_run [WorkerDispatch W] {job : ScheduledJob} {result : Except SchedulerError Unit}
    (ran : WorkerDispatch.dispatch sched.dispatcher job = (result, dispatcher)) :
    (dispatch job).run sched = (result, { sched with dispatcher }) := by
  simp only [dispatch, ran]

section

variable [Ulid] {sched : Scheduler S W} {job : ScheduledJob}

theorem lookupJob_run (held : sched.queue.Holds job) : (lookupJob job.id).run sched = (.ok job, sched) := by
  rw [SchedulerQueue.Holds] at held
  simp only [lookupJob, SchedulerQueue.lookup, held]
  rfl

theorem removeJob_run (held : sched.queue.Holds job) :
    (removeJob job.id).run sched = (.ok job, { sched with queue := { sched.queue with
      heap := sched.queue.heap.filter fun entry => entry.jobId ≠ job.id
      jobs := sched.queue.jobs.erase job.id } }) := by
  rw [SchedulerQueue.Holds] at held
  simp only [removeJob, SchedulerQueue.remove, SchedulerQueue.lookup, held]
  rfl

end

/-- The scheduler while it works on one job: the job is `current`, and some versions of it were persisted. -/
structure Drafted [JobStore S] (start : Scheduler S W) (job current : ScheduledJob) (drafts : List ScheduledJob)
    (here : Scheduler S W) : Prop where
  jobs : here.queue.jobs = start.queue.jobs.insert job.id current
  store : here.store = stored start.store drafts
  dispatcher : here.dispatcher = start.dispatcher
  capacity : here.queue.capacity = start.queue.capacity
  readings : start.readings ≤ here.readings
  same : current.id = job.id
  versions : ∀ draft ∈ drafts, draft.id = job.id

namespace Drafted

variable [JobStore S] {start here : Scheduler S W} {job current : ScheduledJob} {drafts : List ScheduledJob}

theorem initial (held : start.queue.Holds job) : Drafted start job job [] start where
  jobs := (insert_self held).symm
  store := rfl
  dispatcher := rfl
  capacity := rfl
  readings := Nat.le_refl _
  same := rfl
  versions := by simp

theorem holds (hd : Drafted start job current drafts here) : here.queue.Holds current := by
  rw [SchedulerQueue.Holds, hd.jobs, hd.same, get_insert, if_pos rfl]

theorem modifyJob (hd : Drafted start job current drafts here) (change : ScheduledJob → ScheduledJob)
    (same : (change current).id = current.id) :
    ∃ after, (modifyJob job.id change).run here = (.ok (), after) ∧ Drafted start job (change current) drafts after := by
  have held := hd.holds
  rw [SchedulerQueue.Holds, hd.same] at held
  have ran : (JobScheduler.modifyJob job.id change).run here = (.ok (), { here with queue := { here.queue with
      jobs := here.queue.jobs.insert job.id (change current) } }) := by
    simp only [JobScheduler.modifyJob, Stateful.modify, held]
  refine ⟨_, ran, ?_, hd.store, hd.dispatcher, hd.capacity, hd.readings, same.trans hd.same, hd.versions⟩
  simp only [hd.jobs, insert_insert]

theorem utcNow (hd : Drafted start job current drafts here) (clock : Nat → DateTime) :
    ∃ after, (utcNow clock : Action S W DateTime).run here = (.ok (clock here.readings), after) ∧
      Drafted start job current drafts after :=
  ⟨_, rfl, hd.jobs, hd.store, hd.dispatcher, hd.capacity, Nat.le_trans hd.readings (Nat.le_succ _), hd.same, hd.versions⟩

variable [Ulid]

theorem updateState (hd : Drafted start job current drafts here) (clock : Nat → DateTime) (newState : JobState)
    (hv : ScheduledJob.validTransition current.kind current.state newState = true) :
    ∃ time after, (updateState clock job.id newState).run here = (.ok (), after) ∧
      Drafted start job (current.withState newState time) drafts after := by
  have held := hd.holds
  rw [SchedulerQueue.Holds, hd.same] at held
  have ran : (JobScheduler.updateState clock job.id newState).run here = (.ok (), { here with
        queue := { here.queue with
          jobs := here.queue.jobs.insert job.id (current.withState newState (clock here.readings)) }
        readings := here.readings + 1 }) := by
    refine (bind_ok rfl).trans ?_
    simp only [updateQueue, SchedulerQueue.updateState, SchedulerQueue.lookup, held, Option.okOr, bind, Except.bind,
      ScheduledJob.transition, if_pos hv]
    rfl
  refine ⟨clock here.readings, _, ran, ?_, hd.store, hd.dispatcher, hd.capacity,
    Nat.le_trans hd.readings (Nat.le_succ _), hd.same, hd.versions⟩
  simp only [hd.jobs, insert_insert]

theorem persistQueued (hd : Drafted start job current drafts here) :
    ∃ result after, (persistQueued job.id).run here = (result, after) ∧
      Drafted start job current (drafts ++ [current]) after ∧ ∀ err, result = .error err → ¬ Reliable S := by
  have hf := lookupJob_run hd.holds
  rw [hd.same] at hf
  obtain ⟨result, ran, hs⟩ := persist_run here current
  refine ⟨result, _, (bind_ok (attempt_run hf)).trans ran, ?_, hs⟩
  refine ⟨hd.jobs, ?_, hd.dispatcher, hd.capacity, hd.readings, hd.same, ?_⟩
  · rw [stored, hd.store, stored, stored, foldl_append]
  · exact forall_mem_append.mpr ⟨hd.versions, forall_mem_singleton.mpr hd.same⟩

theorem lookup_persist (hd : Drafted start job current drafts here) :
    (lookupJob job.id >>= JobScheduler.persist : Action S W Unit).run here =
      (JobScheduler.persistQueued job.id).run here := by
  have hf := lookupJob_run hd.holds
  rw [hd.same] at hf
  rw [JobScheduler.persistQueued, bind_ok hf, bind_ok (attempt_run hf)]

end Drafted

section

variable {sched : Scheduler S W} {job : ScheduledJob} {now : DateTime} {moved : ScheduledJob}

theorem WellFormed.insert (hw : WellFormed sched) (held : sched.queue.Holds job)
    (same : moved.id = job.id) (jobs : last.queue.jobs = sched.queue.jobs.insert job.id moved)
    (hc : last.queue.capacity = sched.queue.capacity) : WellFormed last where
  keyed := by
    rw [jobs]
    exact forall_insert hw.keyed same
  bounded := by
    rw [SchedulerQueue.Holds] at held
    rw [jobs, hc, size_insert_held (by rw [held]; rfl)]
    exact hw.bounded

variable [JobStore S] {drafts : List ScheduledJob}

theorem Drafted.follows {kind : ScheduledJob → ScheduledJob → Prop}
    (hd : Drafted sched job moved (drafts ++ [moved]) last) (hw : WellFormed sched)
    (held : sched.queue.Holds job) (hc : kind job moved) : Follows (Changed kind) sched last := by
  refine ⟨hw.insert held hd.same hd.jobs hd.capacity, hd.readings, .single ?_⟩
  have view : last.view = ⟨sched.queue.jobs.insert job.id moved, stored sched.store (drafts ++ [moved]),
      sched.dispatcher⟩ := by
    rw [Scheduler.view, hd.jobs, hd.store, hd.dispatcher]
  rw [view]
  exact .intro job moved drafts held hc hd.same fun draft mem =>
    hd.versions draft (mem_append_left _ mem)

variable [Ulid] (clock : Nat → DateTime) {here : Scheduler S W} (jobId : JobId)

section

variable [TimeArithmetic] {current : ScheduledJob}

theorem retryJob_drafted (hd : Drafted sched job current drafts here) (hf : current.state = .failed)
    (old : ScheduledJob) (out : TickOutcome) :
    ∃ time dueAt, Drafted sched job { current.withState .pending time with attemptCount := old.attemptCount + 1, dueAt }
      (drafts ++ [{ current.withState .pending time with attemptCount := old.attemptCount + 1, dueAt }])
      ((retryJob clock job.id old out).run here).2 := by
  have hv : ScheduledJob.validTransition current.kind current.state .retrying = true := by rw [hf]; rfl
  obtain ⟨_, first, hr, he⟩ := hd.updateState clock .retrying hv
  obtain ⟨time, second, hw, hp⟩ := he.updateState clock .pending rfl
  obtain ⟨third, ha, read⟩ := hp.utcNow clock
  let backoff := old.retryPolicy.computeBackoff old.attemptCount
  let dueAt := clock second.readings + (TimeArithmetic.fromStd backoff).toOption.getD oneSecond
  obtain ⟨fourth, hc, ho⟩ :=
    read.modifyJob (fun queued => { queued with attemptCount := old.attemptCount + 1, dueAt }) rfl
  obtain ⟨result, last, hs, done, _⟩ := ho.persistQueued
  have ran : ((retryJob clock job.id old out).run here).2 = last := by
    rw [retryJob, bind_ok hr, bind_ok hw, bind_ok ha, bind_ok hc, bind_pure_state, hs]
  exact ⟨time, dueAt, ran ▸ done⟩

theorem handleFailure_follows (hw : WellFormed sched) (held : sched.queue.Holds job)
    (hu : job.state = .running) (error : String) (out : TickOutcome) :
    Follows (Changed (Change (¬ Reliable S))) sched ((handleFailure clock job.id error out).run sched).2 := by
  have hv : ScheduledJob.validTransition job.kind job.state .failed = true := by rw [hu]; rfl
  obtain ⟨time, first, hf, failed⟩ := (Drafted.initial held).updateState clock .failed hv
  obtain ⟨second, hr, he⟩ := failed.modifyJob (fun queued => { queued with lastError := some error }) rfl
  obtain ⟨result, third, hp, ha, hs⟩ := he.persistQueued
  rw [handleFailure, bind_ok (attempt_run (lookupJob_run held))]
  dsimp only
  rw [bind_ok hf, bind_ok hr]
  rcases result with err | _
  · rw [bind_error hp]
    exact ha.follows hw held (.failed time error hu (.inr (hs err rfl)))
  · rw [bind_ok hp]
    cases ht : job.retryPolicy.canRetry job.attemptCount with
    | false => exact ha.follows hw held (.failed time error hu (.inl ht))
    | true =>
      obtain ⟨later, dueAt, done⟩ := retryJob_drafted clock ha rfl job
        { out with failed := out.failed + 1 }
      rw [if_pos rfl]
      exact done.follows hw held (.retried later dueAt error hu ht)

theorem rescheduleRecurring_drafted (hd : Drafted sched job current drafts here)
    (hc : current.state = .completed) (hr : current.kind = .recurring) (out : TickOutcome) :
    ∃ time dueAt, Drafted sched job
      { current.withState .scheduled time with dueAt, attemptCount := 0, lastError := none }
      (drafts ++ [{ current.withState .scheduled time with dueAt, attemptCount := 0, lastError := none }])
      ((rescheduleRecurring clock current out).run here).2 := by
  have hv : ScheduledJob.validTransition current.kind current.state .scheduled = true := by
    rw [hc, hr]
    rfl
  obtain ⟨first, he, read⟩ := hd.utcNow clock
  obtain ⟨time, second, hs, scheduled⟩ := read.updateState clock .scheduled hv
  let dueAt := nextRun current.schedulePolicy (clock here.readings)
  obtain ⟨third, ha, hb⟩ :=
    scheduled.modifyJob (fun job => { job with dueAt, attemptCount := 0, lastError := none }) rfl
  obtain ⟨result, last, ht, done, _⟩ := hb.persistQueued
  have ran : ((rescheduleRecurring clock current out).run here).2 = last := by
    rw [rescheduleRecurring, hd.same, bind_ok he, bind_ok hs, bind_ok ha, bind_pure_state, ht]
  exact ⟨time, dueAt, ran ▸ done⟩

theorem handleCompletion_follows (hw : WellFormed sched) (held : sched.queue.Holds job)
    (hu : job.state = .running) (out : TickOutcome) :
    Follows (Changed (Change (¬ Reliable S))) sched ((handleCompletion clock job.id out).run sched).2 := by
  have hv : ScheduledJob.validTransition job.kind job.state .completed = true := by rw [hu]; rfl
  obtain ⟨time, first, hc, completed⟩ := (Drafted.initial held).updateState clock .completed hv
  obtain ⟨result, second, hp, he, hs⟩ := completed.persistQueued
  rw [handleCompletion, bind_ok hc]
  rcases result with err | _
  · rw [bind_error hp]
    exact he.follows hw held (.completed time hu (.inr (hs err rfl)))
  · have hf : (lookupJob job.id).run second = (.ok (job.withState .completed time), second) := lookupJob_run he.holds
    rw [bind_ok hp, bind_ok (attempt_run hf)]
    dsimp only
    by_cases hr : job.kind = .recurring
    · rw [if_pos (show (job.withState .completed time).kind = .recurring from hr)]
      obtain ⟨later, dueAt, done⟩ := rescheduleRecurring_drafted clock he rfl hr
        { out with completed := out.completed + 1 }
      exact done.follows hw held (.rescheduled later dueAt hu hr)
    · rw [if_neg (show (job.withState .completed time).kind ≠ .recurring from hr)]
      exact he.follows hw held (.completed time hu (.inl hr))

theorem completeJob_follows (hw : WellFormed sched) (held : sched.queue.Holds job)
    (hr : job.state = .running) (result : CompletionResult) (out : TickOutcome) :
    Follows (Changed (Change (¬ Reliable S))) sched ((completeJob clock job.id result out).run sched).2 := by
  cases result with
  | success => exact handleCompletion_follows clock hw held hr out
  | failed error => exact handleFailure_follows clock hw held hr error out
  | cancelled =>
    have hv : ScheduledJob.validTransition job.kind job.state .cancelled = true := by rw [hr]; rfl
    obtain ⟨time, first, hc, cancelled⟩ := (Drafted.initial held).updateState clock .cancelled hv
    obtain ⟨_, last, hp, he, _⟩ := cancelled.persistQueued
    rw [completeJob, bind_ok hc, bind_pure_state, hp]
    exact he.follows hw held (.cancelled time (by rw [hr]; rfl))

theorem applyCompletion_leads (result : CompletionResult) (out : TickOutcome) :
    Within (Leads (Changed (Change (¬ Reliable S)))) (applyCompletion clock jobId result out : Action S W TickOutcome) := by
  intro sched hw
  have hs : (applyCompletion clock jobId result out).run sched =
      (if sched.queue.getState jobId = some .running then completeJob clock jobId result out
        else pure out).run sched := bind_ok rfl
  rw [hs]
  by_cases hr : sched.queue.getState jobId = some .running
  · rw [if_pos hr]
    obtain ⟨job, held, ht⟩ := Option.map_eq_some_iff.mp hr
    have same := hw.keyed jobId job held
    subst same
    exact completeJob_follows clock hw held ht result out
  · rw [if_neg hr]
    exact .refl hw

theorem applyCompletions_leads (completions : List (JobId × CompletionResult)) (out : TickOutcome) :
    Within (Leads (Changed (Change (¬ Reliable S)))) (applyCompletions clock completions out : Action S W TickOutcome) := by
  induction completions generalizing out with
  | nil => exact Leads.refl
  | cons done completions ih =>
    exact Within.bind Leads.trans (applyCompletion_leads clock done.1 done.2 out) ih

end

variable {jobIds : List JobId}

section

theorem promoteJobs_follows (hi : jobIds.Nodup) (hw : WellFormed sched)
    (hr : ∀ id ∈ jobIds, ∃ job, sched.queue.jobs[id]? = some job ∧ job.state = .scheduled ∧ job.dueAt ≤ now)
    (promoted : Nat) :
    Follows (Changed (Promotes now)) sched ((promoteJobs clock jobIds promoted).run sched).2 := by
  induction jobIds generalizing sched promoted with
  | nil => exact .refl hw
  | cons id jobIds ih =>
    obtain ⟨job, held, hs, due⟩ := hr id mem_cons_self
    have same := hw.keyed id job held
    subst same
    have hv : ScheduledJob.validTransition job.kind job.state .pending = true := by rw [hs]; rfl
    obtain ⟨time, first, hm, moved⟩ := (Drafted.initial held).updateState clock .pending hv
    obtain ⟨_, second, hp, ha, _⟩ := moved.persistQueued
    have hf : Follows (Changed (Promotes now)) sched second := ha.follows hw held ⟨hs, due, time, rfl⟩
    rw [promoteJobs, bind_ok (attempt_run hm)]
    dsimp only
    rw [bind_ok (attempt_run hp)]
    obtain ⟨ho, hi⟩ := nodup_cons.mp hi
    refine hf.trans (ih hi hf.wellFormed ?_ (promoted + 1))
    intro other mem
    have hd : job.id ≠ other := fun he => ho (he ▸ mem)
    rw [ha.jobs, get_insert, if_neg hd]
    exact hr other (mem_cons_of_mem _ mem)

theorem promoteDueJobs_leads (hash : HashOrder (JobId × ScheduledJob)) :
    Within (Leads (Changed (Promotes now))) (promoteDueJobs clock hash now : Action S W Nat) := by
  intro sched hw
  rw [promoteDueJobs, bind_ok (show read.run sched = (.ok sched, sched) from rfl)]
  refine promoteJobs_follows clock ?_ hw ?_ 0
  · exact (SchedulerQueue.nodup_listByState hash hw.keyed .scheduled).sublist (filter_sublist.map _)
  · intro id mem
    obtain ⟨job, hl, rfl⟩ := mem_map.mp mem
    obtain ⟨hl, due⟩ := mem_filter.mp hl
    obtain ⟨held, hs⟩ := (SchedulerQueue.mem_listByState hash hw.keyed).mp hl
    exact ⟨job, held, hs, of_decide_eq_true due⟩

end

section

omit [JobStore S] in
theorem removeJob_missing {jobId : JobId} (hm : sched.queue.jobs[jobId]? = none) :
    (removeJob jobId).run sched = (.error (.jobNotFound (Ulid.toText jobId)), sched) := by
  simp only [removeJob, SchedulerQueue.remove, SchedulerQueue.lookup, hm]
  rfl

structure Drawn (start : Scheduler S W) (job : ScheduledJob) (store : S) (dispatcher : W) (here : Scheduler S W) :
    Prop where
  jobs : here.queue.jobs = start.queue.jobs.erase job.id
  store : here.store = store
  dispatcher : here.dispatcher = dispatcher
  capacity : here.queue.capacity = start.queue.capacity
  readings : start.readings ≤ here.readings

structure Yields (first : Scheduler S W) (after : View S W) (last : Scheduler S W) : Prop where
  wellFormed : WellFormed last
  readings : first.readings ≤ last.readings
  view : last.view = after

omit [JobStore S] [Ulid] in
theorem Drawn.insertJob {store : S} (hd : Drawn sched job store dispatcher here)
    (hw : WellFormed sched) (held : sched.queue.Holds job) {version : ScheduledJob}
    (same : version.id = job.id) : ∃ last, (insertJob version).run here = (.ok (), last) ∧
      Yields sched ⟨sched.view.jobs.insert job.id version, store, dispatcher⟩ last := by
  have hp : (sched.queue.jobs[job.id]?).isSome = true := by
    rw [SchedulerQueue.Holds] at held
    rw [held]
    rfl
  have room : here.queue.len < here.queue.capacity := by
    have hs := size_erase_held hp
    have hb := hw.bounded
    rw [SchedulerQueue.len, hd.jobs, hd.capacity]
    omega
  have jobs : here.queue.jobs.insert version.id version = sched.queue.jobs.insert job.id version := by
    rw [hd.jobs, same, insert_erase]
  refine ⟨_, insertJob_run room version, hw.insert held same jobs hd.capacity, hd.readings, ?_⟩
  simp only [Scheduler.view, Scheduler.withJob, jobs, hd.store, hd.dispatcher]

omit [JobStore S] [Ulid] in
theorem Drawn.yields {store : S} (hd : Drawn sched job store dispatcher here) (hw : WellFormed sched) :
    Yields sched ⟨sched.view.jobs.erase job.id, store, dispatcher⟩ here := by
  refine ⟨⟨?_, ?_⟩, hd.readings, ?_⟩
  · rw [hd.jobs]
    exact forall_erase hw.keyed job.id
  · rw [hd.jobs, hd.capacity]
    exact Nat.le_trans Std.ExtTreeMap.size_erase_le hw.bounded
  · simp only [Scheduler.view, hd.jobs, hd.store, hd.dispatcher]

variable [WorkerDispatch W]

omit [Ulid] in
theorem startJob_spec (hw : WellFormed sched) (held : sched.queue.Holds job)
    (ha : Drawn sched job sched.store sched.dispatcher here) (time : DateTime) :
    ∃ result last after, (startJob clock (job.withState .running time)).run here = (result, last) ∧
      Yields sched after last ∧ Dispatched job sched.view result after := by
  let running := job.withState .running time
  obtain ⟨result, hp, hs⟩ := persist_run here running
  rcases result with err | _
  · have out : Drawn sched job (stored sched.store [running]) sched.dispatcher
        { here with store := stored here.store [running] } :=
      ⟨ha.jobs, by rw [ha.store], ha.dispatcher, ha.capacity, ha.readings⟩
    refine ⟨_, _, _, bind_error (mapError_error hp), out.yields hw, ?_⟩
    exact .lost time [running] sched.dispatcher err (hs err rfl) (.inl rfl)
  · rw [startJob, bind_ok (mapError_ok hp)]
    rcases ran : WorkerDispatch.dispatch sched.dispatcher running with ⟨err | _, dispatcher⟩
    · have hd : (dispatch running).run { here with store := stored here.store [running] } = (.error err, _) :=
        dispatch_run (ha.dispatcher ▸ ran)
      rw [bind_ok (attempt_run hd)]
      dsimp only
      rw [bind_ok (utcNow_run clock _)]
      let reverted := job.withState .pending (clock here.readings)
      obtain ⟨result, hr, hs⟩ := persist_run { here with
        store := stored here.store [running], dispatcher, readings := here.readings + 1 } reverted
      have out : Drawn sched job (stored sched.store [running, reverted]) dispatcher
          { here with
            store := stored (stored here.store [running]) [reverted]
            dispatcher
            readings := here.readings + 1 } :=
        ⟨ha.jobs, by rw [ha.store]; rfl, rfl, ha.capacity, Nat.le_trans ha.readings (Nat.le_succ _)⟩
      rcases result with error | _
      · refine ⟨_, _, _, bind_error (mapError_error hr), out.yields hw, ?_⟩
        exact .lost time [running, reverted] dispatcher error (hs error rfl) (.inr ⟨err, ran⟩)
      · obtain ⟨last, hi, hy⟩ := out.insertJob hw held (show reverted.id = job.id from rfl)
        refine ⟨_, last, _, (bind_ok (mapError_ok hr)).trans (bind_ok (mapError_ok hi)), hy, ?_⟩
        exact .refused time (clock here.readings) dispatcher err ran
    · have hd : (dispatch running).run { here with store := stored here.store [running] } = (.ok (), _) :=
        dispatch_run (ha.dispatcher ▸ ran)
      have out : Drawn sched job (stored sched.store [running]) dispatcher
          { here with store := stored here.store [running], dispatcher } :=
        ⟨ha.jobs, by rw [ha.store], rfl, ha.capacity, ha.readings⟩
      obtain ⟨last, hi, hy⟩ := out.insertJob hw held (show running.id = job.id from rfl)
      rw [bind_ok (attempt_run hd)]
      exact ⟨_, last, _, bind_ok (mapError_ok hi), hy, .handed time dispatcher ran⟩

omit [JobStore S] [WorkerDispatch W] [Ulid] in
theorem transition_running (job : ScheduledJob) (time : DateTime) :
    (job.state ≠ .pending ∧ ∃ err, job.transition .running time = .error err) ∨
      job.state = .pending ∧ job.transition .running time = .ok (job.withState .running time) := by
  by_cases pending : job.state = .pending
  · refine .inr ⟨pending, ?_⟩
    rw [ScheduledJob.transition, pending]
    rfl
  · refine .inl ⟨pending, .invalidTransition job.state.toText JobState.running.toText, ?_⟩
    have hi : ScheduledJob.validTransition job.kind job.state .running = false := by
      cases hs : job.state with
      | pending => exact absurd hs pending
      | _ => rfl
    rw [ScheduledJob.transition, hi]
    rfl

inductive Turn (jobId : JobId) (sched : Scheduler S W) : Except DispatchStop Nat → View S W → Prop
  | skipped (idle : ∀ job, sched.queue.Holds job → job.id = jobId → job.state ≠ .pending) :
    Turn jobId sched (.ok 0) sched.view
  | dispatched (job : ScheduledJob) (held : sched.queue.Holds job) (pending : job.state = .pending)
    (same : job.id = jobId) {result : Except DispatchStop Nat} {after : View S W}
    (step : Dispatched job sched.view result after) : Turn jobId sched result after

theorem dispatchJob_turn (hw : WellFormed sched) (jobId : JobId) :
    ∃ result last after, (dispatchJob clock jobId).run sched = (result, last) ∧ Yields sched after last ∧
      Turn jobId sched result after := by
  cases held : sched.queue.jobs[jobId]? with
  | none =>
    refine ⟨_, _, _, bind_ok (attempt_run (removeJob_missing held)), ⟨hw, Nat.le_refl _, rfl⟩, .skipped ?_⟩
    intro job hf same
    rw [SchedulerQueue.Holds, same, held] at hf
    contradiction
  | some job =>
    have same := hw.keyed jobId job held
    subst same
    rw [dispatchJob, bind_ok (attempt_run (removeJob_run held))]
    dsimp only
    rw [bind_ok (utcNow_run clock _)]
    have hd : Drawn sched job sched.store sched.dispatcher { sched with
        queue := { sched.queue with
          heap := sched.queue.heap.filter fun entry => entry.jobId ≠ job.id
          jobs := sched.queue.jobs.erase job.id }
        readings := sched.readings + 1 } :=
      ⟨rfl, rfl, rfl, rfl, Nat.le_succ _⟩
    rcases transition_running job (clock sched.readings) with ⟨idle, err, hn⟩ | ⟨hp, hv⟩
    · obtain ⟨last, hi, hy⟩ := hd.insertJob hw held rfl
      rw [hn]
      refine ⟨_, last, sched.view, bind_ok (attempt_run hi), ?_, .skipped ?_⟩
      · rw [show sched.view.jobs.insert job.id job = sched.view.jobs from insert_self held] at hy
        exact hy
      · intro other hf same
        rw [SchedulerQueue.Holds, same, held] at hf
        cases hf
        exact idle
    · rw [hv]
      obtain ⟨result, last, after, ran, hy, step⟩ := startJob_spec clock hw held hd (clock sched.readings)
      exact ⟨result, last, after, ran, hy, .dispatched job held hp rfl step⟩

def stopOf : Except DispatchStop Nat → Option DispatchStop
  | .ok _ => none
  | .error stop => some stop

/-- The turns of the dispatch loop, up to its end or to the turn that stopped it. -/
inductive Turns : List JobId → Scheduler S W → Option DispatchStop → Scheduler S W → Prop
  | done (sched : Scheduler S W) : Turns [] sched none sched
  | next {jobId : JobId} {jobIds : List JobId} {first middle last : Scheduler S W} {after : View S W} {count : Nat}
    {stop : Option DispatchStop} (turn : Turn jobId first (.ok count) after) (yields : Yields first after middle)
    (rest : Turns jobIds middle stop last) : Turns (jobId :: jobIds) first stop last
  | stopped {jobId : JobId} {jobIds : List JobId} {first last : Scheduler S W} {after : View S W} {stop : DispatchStop}
    (turn : Turn jobId first (.error stop) after) (yields : Yields first after last) :
    Turns (jobId :: jobIds) first (some stop) last

theorem dispatchJobs_turns (hw : WellFormed sched) (jobIds : List JobId) (dispatched : Nat) :
    Turns jobIds sched (stopOf ((dispatchJobs clock jobIds dispatched).run sched).1)
      ((dispatchJobs clock jobIds dispatched).run sched).2 := by
  induction jobIds generalizing sched dispatched with
  | nil => exact .done sched
  | cons jobId jobIds ih =>
    obtain ⟨result, last, after, ran, hy, turn⟩ := dispatchJob_turn clock hw jobId
    rw [dispatchJobs]
    rcases result with stop | count
    · rw [bind_error ran]
      exact .stopped turn hy
    · rw [bind_ok ran]
      exact .next turn hy (ih hy.wellFormed (dispatched + count))

theorem dispatchPending_turns (hw : WellFormed sched) (hash : HashOrder (JobId × ScheduledJob)) :
    Turns ((sched.queue.listByState hash .pending).map ScheduledJob.id) sched
      (stopOf ((dispatchPending clock hash).run sched).1) ((dispatchPending clock hash).run sched).2 := by
  rw [dispatchPending, bind_ok (show read.run sched = (.ok sched, sched) from rfl)]
  exact dispatchJobs_turns clock hw _ 0

variable {stop : Option DispatchStop}

omit [Ulid] in
theorem Turns.follows (ht : Turns jobIds first stop last) (hw : WellFormed first) : Follows (Move now) first last := by
  have hs {jobId : JobId} {first last : Scheduler S W} {after : View S W} {result : Except DispatchStop Nat}
      (turn : Turn jobId first result after) (hy : Yields first after last) : Follows (Move now) first last := by
    refine ⟨hy.wellFormed, hy.readings, ?_⟩
    rw [hy.view]
    cases turn with
    | skipped idle => exact .refl
    | dispatched job held hp same step => exact .single (.dispatched job held hp result step)
  induction ht with
  | done sched => exact .refl hw
  | next turn hy rest ih => exact (hs turn hy).trans (ih hy.wellFormed)
  | stopped turn hy => exact hs turn hy

omit [Ulid] in
theorem Turns.wellFormed (ht : Turns jobIds first stop last) (wellFormed : WellFormed first) : WellFormed last := by
  induction ht with
  | done sched => exact wellFormed
  | next turn hy rest ih => exact ih hy.wellFormed
  | stopped turn hy => exact hy.wellFormed

end

section

variable (hash : HashOrder (JobId × ScheduledJob))

theorem promoteJobs_ok (jobIds : List JobId) (promoted : Nat) (sched : Scheduler S W) :
    ∃ count, ((promoteJobs clock jobIds promoted).run sched).1 = .ok count := by
  induction jobIds generalizing sched promoted with
  | nil => exact ⟨promoted, rfl⟩
  | cons jobId jobIds ih =>
    rw [promoteJobs]
    rcases ran : (updateState clock jobId .pending).run sched with ⟨err | _, after⟩
    · rw [bind_ok (attempt_run ran)]
      exact ih promoted after
    · rw [bind_ok (attempt_run ran)]
      exact ih (promoted + 1) _

variable [WorkerDispatch W]

def afterPromotion (sched : Scheduler S W) : Scheduler S W :=
  ((promoteDueJobs clock hash (clock sched.readings)).run { sched with readings := sched.readings + 1 }).2

def tickStop (sched : Scheduler S W) : Option DispatchStop :=
  stopOf ((dispatchPending clock hash).run (afterPromotion clock hash sched)).1

/-- A tick promotes, dispatches and then, unless that stopped, applies the completions. -/
structure TickPhases (sched : Scheduler S W) (result : Except SchedulerError TickOutcome) (last : Scheduler S W) :
    Prop where
  promotes : Follows (Changed (Promotes (clock sched.readings))) sched (afterPromotion clock hash sched)
  rest : ∃ dispatched, Turns (((afterPromotion clock hash sched).queue.listByState hash .pending).map ScheduledJob.id)
      (afterPromotion clock hash sched) (tickStop clock hash sched) dispatched ∧
    Follows (Changed (Change (¬ Reliable S))) dispatched last
  finished : ∀ outcome, result = .ok outcome → tickStop clock hash sched = none

theorem tick_phases [TimeArithmetic] (hw : WellFormed sched) (completions : List (JobId × CompletionResult)) :
    TickPhases clock hash sched ((tick clock hash completions).run sched).1
      ((tick clock hash completions).run sched).2 := by
  have read : Follows (Changed (Promotes (clock sched.readings))) sched
      { sched with readings := sched.readings + 1 } :=
    ⟨⟨hw.keyed, hw.bounded⟩, Nat.le_succ _, .refl⟩
  have hp : Follows (Changed (Promotes (clock sched.readings))) sched (afterPromotion clock hash sched) :=
    read.trans (promoteDueJobs_leads clock hash _ read.wellFormed)
  have ht := dispatchPending_turns clock hp.wellFormed hash
  obtain ⟨count, hc⟩ := promoteJobs_ok clock _ 0 { sched with readings := sched.readings + 1 }
  have hr : (promoteDueJobs clock hash (clock sched.readings)).run
      { sched with readings := sched.readings + 1 } = (.ok count, afterPromotion clock hash sched) :=
    Prod.ext hc rfl
  have hw := ht.wellFormed hp.wellFormed
  rw [tick, bind_ok (utcNow_run clock sched), bind_ok hr]
  rcases ran : (dispatchPending clock hash).run (afterPromotion clock hash sched) with ⟨stop | dispatched, here⟩
  · rw [ran] at ht hw
    rw [bind_error (mapError_error ran)]
    refine ⟨hp, ⟨here, ?_, .refl hw⟩, fun out hi => by cases hi⟩
    rw [tickStop, ran]
    exact ht
  · rw [ran] at ht hw
    rw [bind_ok (mapError_ok ran)]
    have stop : tickStop clock hash sched = none := by
      rw [tickStop, ran]
      rfl
    refine ⟨hp, ⟨here, ?_, applyCompletions_leads clock completions _ here hw⟩, fun _ _ => stop⟩
    rw [stop]
    exact ht

omit [WorkerDispatch W] in
theorem submit_full (job : ScheduledJob)
    (full : sched.capacity ≤ sched.queue.len ∨ sched.queue.capacity ≤ sched.queue.len) :
    (submit job).run sched = (.error .queueFull, sched) := by
  rw [submit, bind_ok (show read.run sched = (.ok sched, sched) from rfl)]
  by_cases stop : sched.capacity ≤ sched.queue.len
  · rw [if_pos stop]
    rfl
  · have full : sched.queue.capacity ≤ sched.queue.len := full.resolve_left stop
    rw [if_neg stop]
    refine bind_error ?_
    simp only [insertJob, updateQueue, SchedulerQueue.insert, if_pos full]

omit [WorkerDispatch W] in
theorem submit_inserted (job : ScheduledJob) (ha : sched.queue.len < sched.capacity)
    (room : sched.queue.len < sched.queue.capacity) :
    (submit job).run sched = (do persist job; return job.id : Action S W JobId).run (sched.withJob job) := by
  rw [submit, bind_ok (show read.run sched = (.ok sched, sched) from rfl), if_neg (Nat.not_le.mpr ha),
    bind_ok (insertJob_run room job)]
  refine bind_ok (lookupJob_run ?_)
  rw [SchedulerQueue.Holds, Scheduler.withJob, get_insert, if_pos rfl]

omit [WorkerDispatch W] in
theorem cancel_leads : Within (Leads (Changed (Change (¬ Reliable S)))) (cancel clock jobId : Action S W Unit) := by
  intro sched hw
  rw [cancel, bind_ok (show read.run sched = (.ok sched, sched) from rfl)]
  cases hf : sched.queue.jobs[jobId]? with
  | none =>
    simp only [SchedulerQueue.getState, hf, Option.map_none]
    exact .refl hw
  | some job =>
    have same := hw.keyed jobId job hf
    subst same
    simp only [SchedulerQueue.getState, hf, Option.map_some]
    cases ht : job.state.isTerminal with
    | true => exact .refl hw
    | false =>
      have hv : ScheduledJob.validTransition job.kind job.state .cancelled = true := by
        cases hs : job.state <;> rw [hs] at ht <;> first | rfl | cases ht
      obtain ⟨time, first, hc, ha⟩ := (Drafted.initial hf).updateState clock .cancelled hv
      obtain ⟨_, last, hp, he, _⟩ := ha.persistQueued
      rw [if_neg Bool.false_ne_true, bind_ok hc, ha.lookup_persist, hp]
      exact he.follows hw hf (.cancelled time ht)

structure Served (now : DateTime) (call : SchedulerCall) (first last : Scheduler S W) : Prop where
  wellFormed : WellFormed last
  readings : first.readings ≤ last.readings
  moves : (∃ job, call = .submit job ∧ last.view = first.view.submitted job) ∨
    ReflTransGen (Move now) first.view last.view

theorem serve_served [TimeArithmetic] {sched : Scheduler S W} (hw : WellFormed sched) (call : SchedulerCall) :
    Served (clock sched.readings) call sched (serve clock hash sched call).2 := by
  have moved {last : Scheduler S W} (hf : Follows (Move (clock sched.readings)) sched last) :
      Served (clock sched.readings) call sched last :=
    ⟨hf.wellFormed, hf.readings, .inr hf.moves⟩
  cases call with
  | cancel jobId => exact moved ((cancel_leads clock jobId sched hw).mono fun _ _ => .changed)
  | tick completions =>
    obtain ⟨hp, ⟨dispatched, ht, hc⟩, _⟩ := tick_phases clock hash hw completions
    refine moved ((hp.mono fun _ _ => .promoted).trans ?_)
    exact (ht.follows hp.wellFormed).trans (hc.mono fun _ _ => .changed)
  | submit job =>
    rw [serve]
    by_cases full : sched.capacity ≤ sched.queue.len ∨ sched.queue.capacity ≤ sched.queue.len
    · rw [submit_full job full]
      exact moved (.refl hw)
    · obtain ⟨ha, room⟩ := not_or.mp full
      rw [submit_inserted job (Nat.not_le.mp ha) (Nat.not_le.mp room), bind_pure_state]
      refine ⟨⟨forall_insert hw.keyed rfl, ?_⟩, Nat.le_refl _, .inl ⟨job, rfl, rfl⟩⟩
      exact Nat.le_trans Std.ExtTreeMap.size_insert_le (Nat.not_le.mp room)

end

end

theorem WellFormed.new (capacity : Nat) (store : S) (dispatcher : W) :
    WellFormed (Scheduler.new capacity store dispatcher) :=
  ⟨fun _ _ held => absurd held (by simp [Scheduler.new, SchedulerQueue.new]), Nat.zero_le _⟩

theorem moves_invariant [JobStore S] [WorkerDispatch W] {now : DateTime} {invariant : View S W → Prop}
    (moved : ∀ view after, Move now view after → invariant view → invariant after) {first last : View S W}
    (hm : ReflTransGen (Move now) first last) (hh : invariant first) : invariant last := by
  induction hm with
  | refl => exact hh
  | tail _ move ih => exact moved _ _ move ih

theorem reached_invariant [Ulid] [TimeArithmetic] [JobStore S] [WorkerDispatch W] (clock : Nat → DateTime)
    (hash : HashOrder (JobId × ScheduledJob)) (invariant : List SchedulerCall → Scheduler S W → Prop)
    {start : Scheduler S W} (hw : WellFormed start) (hi : invariant [] start)
    (next : ∀ past first call last, Served (clock first.readings) call first last → invariant past first →
      invariant (past ++ [call]) last) (calls : List SchedulerCall) :
    WellFormed (final (serve clock hash) start calls) ∧ invariant calls (final (serve clock hash) start calls) := by
  refine final_invariant (serve clock hash) (fun past sched => WellFormed sched ∧
    invariant past sched) ⟨hw, hi⟩ ?_ calls
  rintro past sched call ⟨hw, hh⟩
  have hs := serve_served clock hash hw call
  exact ⟨hs.wellFormed, next past sched call _ hs hh⟩

theorem reached_wellFormed [Ulid] [TimeArithmetic] [JobStore S] [WorkerDispatch W] (clock : Nat → DateTime)
    (hash : HashOrder (JobId × ScheduledJob)) (capacity : Nat) (store : S) (dispatcher : W) (calls : List SchedulerCall) :
    WellFormed (final (serve clock hash) (.new capacity store dispatcher) calls) :=
  (reached_invariant clock hash (fun _ _ => True) (.new capacity store dispatcher) trivial
    (fun _ _ _ _ _ _ => trivial) calls).1

end Veloxide.JobScheduler
