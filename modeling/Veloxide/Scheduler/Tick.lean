import Veloxide.Library.Stateful
import Veloxide.Scheduler.Queue

namespace Veloxide.JobScheduler

open OrderedStore Stateful

class JobStore (S : Type) where
  persist : S → ScheduledJob → Except SchedulerError Unit × S

class WorkerDispatch (W : Type) where
  dispatch : W → ScheduledJob → Except SchedulerError Unit × W

inductive CompletionResult
  | success
  | failed (error : String)
  | cancelled

structure TickOutcome where
  promoted : Nat
  dispatched : Nat
  completed : Nat
  failed : Nat
  retried : Nat
  rescheduled : Nat
  cancelled : Nat

def TickOutcome.default : TickOutcome := ⟨0, 0, 0, 0, 0, 0, 0⟩

structure Scheduler (S W : Type) where
  queue : SchedulerQueue
  store : S
  dispatcher : W
  capacity : Nat
  readings : Nat

def Scheduler.new {S W : Type} (capacity : Nat) (store : S) (dispatcher : W) : Scheduler S W :=
  ⟨.new capacity, store, dispatcher, capacity, 0⟩

abbrev Action (S W α : Type) := Stateful (Scheduler S W) SchedulerError α

inductive DispatchStop
  | notPersisted (failure : SchedulerError)
  | notInserted (failure : SchedulerError)
  | refused (failure : SchedulerError)

def DispatchStop.error : DispatchStop → SchedulerError
  | notPersisted failure | notInserted failure | refused failure => failure

section

variable {S W ε : Type}

def utcNow (clock : Nat → DateTime) : Stateful (Scheduler S W) ε DateTime :=
  ⟨fun scheduler => (.ok (clock scheduler.readings), { scheduler with readings := scheduler.readings + 1 })⟩

def persist [JobStore S] (job : ScheduledJob) : Action S W Unit :=
  ⟨fun scheduler => ((JobStore.persist scheduler.store job).1,
    { scheduler with store := (JobStore.persist scheduler.store job).2 })⟩

def dispatch [WorkerDispatch W] (job : ScheduledJob) : Action S W Unit :=
  ⟨fun scheduler => ((WorkerDispatch.dispatch scheduler.dispatcher job).1,
    { scheduler with dispatcher := (WorkerDispatch.dispatch scheduler.dispatcher job).2 })⟩

def updateQueue (update : SchedulerQueue → Except SchedulerError SchedulerQueue) : Action S W Unit := ⟨fun scheduler =>
    match update scheduler.queue with
    | .ok queue => (.ok (), { scheduler with queue })
    | .error failure => (.error failure, scheduler)⟩

def insertJob (job : ScheduledJob) : Action S W Unit := updateQueue fun queue => queue.insert job

def modifyJob (jobId : JobId) (change : ScheduledJob → ScheduledJob) : Action S W Unit := modify fun scheduler =>
    match scheduler.queue.jobs[jobId]? with
    | some job => { scheduler with queue := { scheduler.queue with jobs := scheduler.queue.jobs.insert jobId (change job) } }
    | none => scheduler

variable [Ulid]

def lookupJob (jobId : JobId) : Action S W ScheduledJob := ⟨fun scheduler => (scheduler.queue.lookup jobId, scheduler)⟩

def removeJob (jobId : JobId) : Action S W ScheduledJob := ⟨fun scheduler =>
    match scheduler.queue.remove jobId with
    | .ok (job, queue) => (.ok job, { scheduler with queue })
    | .error failure => (.error failure, scheduler)⟩

def updateState (clock : Nat → DateTime) (jobId : JobId) (newState : JobState) : Action S W Unit := do
  let now ← utcNow clock
  updateQueue fun queue => queue.updateState jobId newState now

variable [JobStore S]

def persistQueued (jobId : JobId) : Action S W Unit := do
  match ← attempt (lookupJob jobId) with
  | .ok job => persist job
  | .error _ => pure ()

end

section

variable {S W : Type} [Ulid] [JobStore S] (clock : Nat → DateTime) (hash : HashOrder (JobId × ScheduledJob))

def submit (job : ScheduledJob) : Action S W JobId := do
  let scheduler ← read
  if scheduler.capacity ≤ scheduler.queue.len then fail .queueFull
  else do
    insertJob job
    persist (← lookupJob job.id)
    return job.id

def cancel (jobId : JobId) : Action S W Unit := do
  let scheduler ← read
  match scheduler.queue.getState jobId with
  | none => fail (.jobNotFound (Ulid.toText jobId))
  | some state =>
    if state.isTerminal then fail (.invalidTransition state.debugText "Cancel")
    else do
      updateState clock jobId .cancelled
      persist (← lookupJob jobId)

def promoteJobs : List JobId → Nat → Action S W Nat
  | [], promoted => pure promoted
  | jobId :: jobIds, promoted => do
    match ← attempt (updateState clock jobId .pending) with
    | .ok () => do
      let _ : Except SchedulerError Unit ← attempt (persistQueued jobId)
      promoteJobs jobIds (promoted + 1)
    | .error _ => promoteJobs jobIds promoted

def promoteDueJobs (now : DateTime) : Action S W Nat := do
  let scheduler ← read
  let due := (scheduler.queue.listByState hash .scheduled).filter fun job => job.dueAt ≤ now
  promoteJobs clock (due.map ScheduledJob.id) 0

section

variable [WorkerDispatch W]

def startJob (running : ScheduledJob) : Stateful (Scheduler S W) DispatchStop Nat := do
  mapError .notPersisted (persist running)
  match ← attempt (dispatch running) with
  | .ok () => do
    mapError .notInserted (insertJob running)
    pure 1
  | .error failure => do
    let reverted := { running with state := .pending, updatedAt := ← utcNow clock }
    mapError .notPersisted (persist reverted)
    mapError .notInserted (insertJob reverted)
    fail (.refused failure)

def dispatchJob (jobId : JobId) : Stateful (Scheduler S W) DispatchStop Nat := do
  match ← attempt (removeJob jobId) with
  | .error _ => pure 0
  | .ok job => do
    match job.transition .running (← utcNow clock) with
    | .error _ => do
      let _ : Except SchedulerError Unit ← attempt (insertJob job)
      pure 0
    | .ok running => startJob clock running

def dispatchJobs : List JobId → Nat → Stateful (Scheduler S W) DispatchStop Nat
  | [], dispatched => pure dispatched
  | jobId :: jobIds, dispatched => do
    let count ← dispatchJob clock jobId
    dispatchJobs jobIds (dispatched + count)

def dispatchPending : Stateful (Scheduler S W) DispatchStop Nat := do
  let scheduler ← read
  dispatchJobs clock ((scheduler.queue.listByState hash .pending).map ScheduledJob.id) 0

end

section

variable [TimeArithmetic]

def oneSecond : Int := 1000000000

def nextRun (policy : SchedulePolicy) (now : DateTime) : DateTime := match policy with
  | .cron _ => now
  | .after delay => now + (TimeArithmetic.fromStd delay).toOption.getD oneSecond
  | .atTime time => time
  | .immediate => now

def rescheduleRecurring (job : ScheduledJob) (outcome : TickOutcome) : Action S W TickOutcome := do
  let nextDueAt := nextRun job.schedulePolicy (← utcNow clock)
  updateState clock job.id .scheduled
  modifyJob job.id fun job => { job with dueAt := nextDueAt, attemptCount := 0, lastError := none }
  persistQueued job.id
  return { outcome with rescheduled := outcome.rescheduled + 1 }

def handleCompletion (jobId : JobId) (outcome : TickOutcome) : Action S W TickOutcome := do
  updateState clock jobId .completed
  persistQueued jobId
  let completed := { outcome with completed := outcome.completed + 1 }
  match ← attempt (lookupJob jobId) with
  | .error _ => pure completed
  | .ok job => if job.kind = .recurring then rescheduleRecurring clock job completed else pure completed

def retryJob (jobId : JobId) (job : ScheduledJob) (outcome : TickOutcome) : Action S W TickOutcome := do
  updateState clock jobId .retrying
  updateState clock jobId .pending
  let backoff := job.retryPolicy.computeBackoff job.attemptCount
  let newDueAt := (← utcNow clock) + (TimeArithmetic.fromStd backoff).toOption.getD oneSecond
  modifyJob jobId fun queued => { queued with attemptCount := job.attemptCount + 1, dueAt := newDueAt }
  persistQueued jobId
  return { outcome with retried := outcome.retried + 1 }

def handleFailure (jobId : JobId) (error : String) (outcome : TickOutcome) : Action S W TickOutcome := do
  match ← attempt (lookupJob jobId) with
  | .error _ => pure outcome
  | .ok job => do
    updateState clock jobId .failed
    modifyJob jobId fun queued => { queued with lastError := some error }
    persistQueued jobId
    let failed := { outcome with failed := outcome.failed + 1 }
    if job.retryPolicy.canRetry job.attemptCount then retryJob clock jobId job failed else pure failed

def completeJob (jobId : JobId) (result : CompletionResult) (outcome : TickOutcome) : Action S W TickOutcome :=
  match result with
  | .success => handleCompletion clock jobId outcome
  | .failed error => handleFailure clock jobId error outcome
  | .cancelled => do
    updateState clock jobId .cancelled
    persistQueued jobId
    return { outcome with cancelled := outcome.cancelled + 1 }

def applyCompletion (jobId : JobId) (result : CompletionResult) (outcome : TickOutcome) : Action S W TickOutcome := do
  let scheduler ← read
  if scheduler.queue.getState jobId = some .running then completeJob clock jobId result outcome else pure outcome

def applyCompletions : List (JobId × CompletionResult) → TickOutcome → Action S W TickOutcome
  | [], outcome => pure outcome
  | (jobId, result) :: completions, outcome => do
    let next ← applyCompletion clock jobId result outcome
    applyCompletions completions next

variable [WorkerDispatch W]

def tick (completions : List (JobId × CompletionResult)) : Action S W TickOutcome := do
  let now ← utcNow clock
  let promoted ← promoteDueJobs clock hash now
  let dispatched ← mapError DispatchStop.error (dispatchPending clock hash)
  applyCompletions clock completions { TickOutcome.default with promoted, dispatched }

inductive SchedulerCall
  | submit (job : ScheduledJob)
  | cancel (jobId : JobId)
  | tick (completions : List (JobId × CompletionResult))

inductive SchedulerReply
  | submitted (result : Except SchedulerError JobId)
  | cancelled (result : Except SchedulerError Unit)
  | ticked (result : Except SchedulerError TickOutcome)

def serve (scheduler : Scheduler S W) : SchedulerCall → SchedulerReply × Scheduler S W
  | .submit job => (.submitted ((submit job).run scheduler).1, ((submit job).run scheduler).2)
  | .cancel jobId => (.cancelled ((cancel clock jobId).run scheduler).1, ((cancel clock jobId).run scheduler).2)
  | .tick completions =>
    (.ticked ((tick clock hash completions).run scheduler).1, ((tick clock hash completions).run scheduler).2)

end

end

structure InMemoryJobStore where
  persisted : List ScheduledJob

namespace InMemoryJobStore

def upsert (job : ScheduledJob) : List ScheduledJob → List ScheduledJob
  | [] => [job]
  | existing :: others => if existing.id = job.id then job :: others else existing :: upsert job others

instance : JobStore InMemoryJobStore where
  persist store job := (.ok (), ⟨upsert job store.persisted⟩)

end InMemoryJobStore

structure RecordingDispatcher where
  dispatched : List JobId
  shouldFail : Bool

namespace RecordingDispatcher

def new : RecordingDispatcher := ⟨[], false⟩

instance : WorkerDispatch RecordingDispatcher where
  dispatch dispatcher job := if dispatcher.shouldFail then (.error .queueFull, dispatcher)
    else (.ok (), { dispatcher with dispatched := dispatcher.dispatched ++ [job.id] })

end RecordingDispatcher

end Veloxide.JobScheduler
