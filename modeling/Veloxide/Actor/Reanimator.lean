import Veloxide.Library.Keyspace
import Veloxide.Types.Envelope

namespace Veloxide.Reanimator

open ByteCodec OrderedStore Unsigned List

section

variable [Ulid]

inductive ReanimatorError
  | storageError (reason : String)
  | corruptKey (reason : String)
  | atomicityViolation (reason : String)
  | instanceNotFound (id : InstanceId)
  | budgetExceeded (reason : String)
  | enqueueFailed (reason : String)
  | alreadyRunning
  | alreadyShutdown

abbrev TimerKey := InstanceId × TimestampMs

structure TimerRecord where
  instanceId : InstanceId
  fireAtMs : TimestampMs
  timerId : Option TimerId
  scheduledAtMs : TimestampMs

def TimerRecord.key (timer : TimerRecord) : TimerKey := (timer.instanceId, timer.fireAtMs)

structure PendingTimer where
  instanceId : InstanceId
  fireAtMs : TimestampMs
  scheduledAtMs : TimestampMs
  markedAtMs : TimestampMs

def PendingTimer.key (timer : PendingTimer) : TimerKey := (timer.instanceId, timer.fireAtMs)

/-- A correct implementation: a marked timer stays pending until it is completed or cleaned up. -/
structure TimerStorage (Storage : Type) where
  scanDueTimers : TimestampMs → TimestampMs → UInt32 → Storage → Except ReanimatorError (List TimerRecord)
  deleteTimer : TimerKey → Storage → Except ReanimatorError Unit × Storage
  recordTimerFired : TimerKey → Storage → Except ReanimatorError Unit × Storage
  markTimerProcessing : TimerKey → TimestampMs → Storage → Except ReanimatorError Unit × Storage
  scanPendingTimers : UInt32 → Storage → Except ReanimatorError (List PendingTimer)
  completeTimerProcessing : TimerKey → Storage → Except ReanimatorError Unit × Storage
  cleanupStalePendingTimers : TimestampMs → Storage → Except ReanimatorError UInt32 × Storage
  /-- The marked timers, in the order of a scan. -/
  pending : Storage → List PendingTimer
  isStale : TimestampMs → PendingTimer → Bool
  stale_of_lt : ∀ olderThan timer, timer.markedAtMs < olderThan → isStale olderThan timer = true
  fresh_of_lt : ∀ olderThan timer, olderThan < timer.markedAtMs → isStale olderThan timer = false
  pending_deleteTimer : ∀ key storage, pending (deleteTimer key storage).2 = pending storage
  pending_recordTimerFired : ∀ key storage, pending (recordTimerFired key storage).2 = pending storage
  pending_markTimerProcessing : ∀ key now storage, (markTimerProcessing key now storage).1 = .ok () →
    ∃ timer ∈ pending (markTimerProcessing key now storage).2, timer.key = key ∧ timer.markedAtMs = now
  kept_markTimerProcessing : ∀ key now storage, ∀ timer ∈ pending storage, timer.key ≠ key →
    timer ∈ pending (markTimerProcessing key now storage).2
  kept_completeTimerProcessing : ∀ key storage, ∀ timer ∈ pending storage, timer.key ≠ key →
    timer ∈ pending (completeTimerProcessing key storage).2
  pending_cleanup : ∀ olderThan storage count, (cleanupStalePendingTimers olderThan storage).1 = .ok count →
    pending (cleanupStalePendingTimers olderThan storage).2 =
      (pending storage).filter fun timer => !isStale olderThan timer
  scanned_pending : ∀ maxResults storage found, scanPendingTimers maxResults storage = .ok found →
    found = (pending storage).take maxResults.toNat

structure WorkQueue (Queue : Type) where
  enqueueResume : InstanceId → Queue → Except String Unit × Queue
  isInstanceTerminal : InstanceId → Queue → Except String Bool

structure ReanimatorConfig where
  maxTimersPerCycle : UInt32
  maxConcurrentResumes : UInt32

structure FairnessBudget where
  maxPerInstance : UInt32
  instanceCounts : Store String UInt32

variable (budget : FairnessBudget)

namespace FairnessBudget

def canResume (instanceId : InstanceId) : Bool := if budget.maxPerInstance = 0 then false
  else
    match budget.instanceCounts[instanceId.text]? with
    | none => true
    | some count => decide (count < budget.maxPerInstance)

def reset : FairnessBudget := { budget with instanceCounts := ∅ }

end FairnessBudget

def validateTimerRecord (record : TimerRecord) : Except ReanimatorError Unit := do
  if record.fireAtMs = 0 then throw (.corruptKey "Timer fire_at_ms is zero")
  if record.scheduledAtMs = 0 then throw (.corruptKey "Timer scheduled_at_ms is zero")
  if record.fireAtMs < record.scheduledAtMs then
    throw (.corruptKey "Timer fire_at_ms is before scheduled_at_ms")
  match record.instanceId.toBytes with
  | .ok bytes =>
    if bytes.all (· == 0) then throw (.corruptKey "Timer instance_id is all zeros (corrupted)")
  | .error _ => pure ()

inductive Stage
  | deleteTimer
  | recordTimerFired
  | enqueueResume
deriving DecidableEq

/-- A cycle between two of its calls, with the keys it deleted, deleted but failed on, and enqueued. -/
structure Cycle (Storage Queue : Type) where
  storage : Storage
  queue : Queue
  waiting : List TimerRecord
  running : List (TimerRecord × Stage)
  deleted : List TimerKey
  dropped : List TimerKey
  resumed : List TimerKey
  processed : UInt32
  failedCount : UInt32

/-- What the executor does next: take a timer off the stream, or let a future make its call. -/
inductive Choice
  | takeNext
  | proceed (position : Nat)

namespace Cycle

variable {Storage Queue : Type} (timers : TimerStorage Storage) (workQueue : WorkQueue Queue)
  (config : ReanimatorConfig)

def start (budget : FairnessBudget) (currentTime : TimestampMs) (storage : Storage) (queue : Queue) :
    Except ReanimatorError (Cycle Storage Queue) := do
  let scanResult ← timers.scanDueTimers 0 currentTime config.maxTimersPerCycle storage
  let accepted := (scanResult.take config.maxTimersPerCycle.toNat).filter fun timer =>
    (validateTimerRecord timer).isOk && budget.reset.canResume timer.instanceId
  pure ⟨storage, queue, accepted, [], [], [], [], 0, 0⟩

variable (cycle : Cycle Storage Queue)

def takeNext : Cycle Storage Queue := match cycle.waiting with
  | [] => cycle
  | timer :: waiting =>
    if config.maxConcurrentResumes = 0 ∨ cycle.running.length < config.maxConcurrentResumes.toNat then
      { cycle with waiting := waiting, running := cycle.running ++ [(timer, .deleteTimer)] }
    else cycle

def proceed (position : Nat) (timer : TimerRecord) : Stage → Cycle Storage Queue
  | .deleteTimer =>
    match timers.deleteTimer timer.key cycle.storage with
    | (.ok (), storage) =>
      { cycle with storage := storage, running := cycle.running.set position (timer, .recordTimerFired)
                   deleted := cycle.deleted ++ [timer.key] }
    | (.error _, storage) =>
      { cycle with storage := storage, running := cycle.running.eraseIdx position
                   failedCount := cycle.failedCount + 1 }
  | .recordTimerFired =>
    match timers.recordTimerFired timer.key cycle.storage with
    | (.ok (), storage) =>
      { cycle with storage := storage, running := cycle.running.set position (timer, .enqueueResume) }
    | (.error _, storage) =>
      { cycle with storage := storage, running := cycle.running.eraseIdx position
                   dropped := cycle.dropped ++ [timer.key], failedCount := cycle.failedCount + 1 }
  | .enqueueResume =>
    match workQueue.enqueueResume timer.instanceId cycle.queue with
    | (.ok (), queue) =>
      { cycle with queue := queue, running := cycle.running.eraseIdx position
                   resumed := cycle.resumed ++ [timer.key], processed := cycle.processed + 1 }
    | (.error _, queue) =>
      { cycle with queue := queue, running := cycle.running.eraseIdx position
                   dropped := cycle.dropped ++ [timer.key], failedCount := cycle.failedCount + 1 }

def step : Choice → Cycle Storage Queue
  | .takeNext => cycle.takeNext config
  | .proceed position =>
    match cycle.running[position]? with
    | none => cycle
    | some (timer, stage) => cycle.proceed timers workQueue position timer stage

def cut (choices : List Choice) : Cycle Storage Queue := choices.foldl (step timers workQueue config) cycle

end Cycle

/-- A recovery between two replays: the keys it has enqueued, and the number of errors it has logged. -/
structure Recovery (Storage Queue : Type) where
  storage : Storage
  queue : Queue
  resumed : List TimerKey
  errors : Nat

def stalePendingThresholdMs : UInt64 := 60000

namespace Recovery

variable {Storage Queue : Type} (timers : TimerStorage Storage) (workQueue : WorkQueue Queue)
  (recovery : Recovery Storage Queue)

def complete (key : TimerKey) : Recovery Storage Queue := match timers.completeTimerProcessing key recovery.storage with
  | (.ok (), storage) => { recovery with storage := storage }
  | (.error _, storage) => { recovery with storage := storage, errors := recovery.errors + 1 }

def replay (pending : PendingTimer) : Recovery Storage Queue :=
  match workQueue.isInstanceTerminal pending.instanceId recovery.queue with
  | .ok true => recovery.complete timers pending.key
  | .ok false =>
    match workQueue.enqueueResume pending.instanceId recovery.queue with
    | (.ok (), queue) =>
      Recovery.complete timers { recovery with queue := queue, resumed := recovery.resumed ++ [pending.key] }
        pending.key
    | (.error _, queue) => { recovery with queue := queue, errors := recovery.errors + 1 }
  | .error _ => { recovery with errors := recovery.errors + 1 }

end Recovery

def runCrashRecovery {Storage Queue : Type} (timers : TimerStorage Storage) (workQueue : WorkQueue Queue)
    (now : TimestampMs) (storage : Storage) (queue : Queue) :
    Except ReanimatorError Unit × Recovery Storage Queue :=
  match timers.cleanupStalePendingTimers (saturatingSub now stalePendingThresholdMs) storage with
  | (.error failure, storage) => (.error failure, ⟨storage, queue, [], 0⟩)
  | (.ok _, storage) =>
    match timers.scanPendingTimers 100 storage with
    | .error failure => (.error failure, ⟨storage, queue, [], 0⟩)
    | .ok pendingTimers => (.ok (), pendingTimers.foldl (Recovery.replay timers workQueue) ⟨storage, queue, [], 0⟩)

end

section

variable [Ulid] {Storage Queue : Type} {timers : TimerStorage Storage} {workQueue : WorkQueue Queue}
  {config : ReanimatorConfig} {cycle : Cycle Storage Queue}

/-- The keys of the futures that have deleted their timer and not yet enqueued it. -/
def inFlight (running : List (TimerRecord × Stage)) : List TimerKey :=
  (running.filter fun flight => flight.2 ≠ .deleteTimer).map fun flight => flight.1.key

variable {running : List (TimerRecord × Stage)} {pos : Nat} {flight : TimerRecord × Stage}

theorem count_inFlight_eraseIdx (hf : running[pos]? = some flight) (key : TimerKey) :
    (inFlight running).count key = (inFlight [flight]).count key + (inFlight (running.eraseIdx pos)).count key := by
  obtain ⟨bound, rfl⟩ := List.getElem?_eq_some_iff.mp hf
  rw [← count_append, inFlight, inFlight, inFlight, ← map_append, ← filter_append]
  exact (((getElem_cons_eraseIdx_perm bound).symm.filter _).map _).count_eq key

theorem count_inFlight_set (hf : running[pos]? = some flight) (next : TimerRecord × Stage) (key : TimerKey) :
    (inFlight (running.set pos next)).count key =
      (inFlight [next]).count key + (inFlight (running.eraseIdx pos)).count key := by
  have bound := (List.getElem?_eq_some_iff.mp hf).1
  rw [← count_append, inFlight, inFlight, inFlight, ← map_append, ← filter_append]
  exact (((set_perm_cons_eraseIdx bound next).filter _).map _).count_eq key

/-- What holds of a cycle over these due timers, in a storage that had these pending timers. -/
structure Cycle.Follows (timers : TimerStorage Storage) (config : ReanimatorConfig) (pending : List PendingTimer)
    (due : List TimerRecord) (cycle : Cycle Storage Queue) : Prop where
  pending_eq : timers.pending cycle.storage = pending
  waiting_due : ∀ timer ∈ cycle.waiting, timer ∈ due
  running_due : ∀ flight ∈ cycle.running, flight.1 ∈ due
  bounded : config.maxConcurrentResumes ≠ 0 → cycle.running.length ≤ config.maxConcurrentResumes.toNat
  deleted_due : ∀ key ∈ cycle.deleted, ∃ timer ∈ due, timer.key = key
  accounted : ∀ key, cycle.deleted.count key =
    cycle.resumed.count key + cycle.dropped.count key + (inFlight cycle.running).count key

namespace Cycle.Follows

variable {pending : List PendingTimer} {due : List TimerRecord}

theorem start {budget : FairnessBudget} {currentTime : TimestampMs} {storage : Storage} {queue : Queue}
    (hs : Cycle.start timers config budget currentTime storage queue = .ok cycle) :
    cycle.Follows timers config (timers.pending storage) cycle.waiting := by
  obtain ⟨scanned, _, rest⟩ := Except.bind_eq_ok.mp hs
  cases rest
  exact ⟨rfl, fun _ mem => mem, by simp, by simp, by simp, by simp [inFlight]⟩

theorem takeNext (hf : cycle.Follows timers config pending due) :
    (cycle.takeNext config).Follows timers config pending due := by
  rw [Cycle.takeNext]
  split
  · exact hf
  · rename_i timer waiting held
    have hi : timer ∈ due := hf.waiting_due timer (by rw [held]; exact mem_cons_self)
    split
    · rename_i room
      refine ⟨hf.pending_eq, ?_, ?_, ?_, hf.deleted_due, ?_⟩
      · intro other mem
        exact hf.waiting_due other (by rw [held]; exact mem_cons_of_mem _ mem)
      · intro flight mem
        rcases mem_append.mp mem with old | new
        · exact hf.running_due flight old
        · rw [mem_singleton.mp new]
          exact hi
      · intro limited
        rw [length_append]
        exact room.resolve_left limited
      · intro key
        rw [hf.accounted key]
        simp [inFlight]
    · exact hf

variable {timer : TimerRecord} {stage : Stage}

theorem running_set (hf : cycle.Follows timers config pending due)
    (ho : cycle.running[pos]? = some (timer, stage)) (next : Stage) :
    ∀ flight ∈ cycle.running.set pos (timer, next), flight.1 ∈ due := by
  intro flight mem
  rcases mem_or_eq_of_mem_set mem with old | rfl
  · exact hf.running_due flight old
  · exact hf.running_due (timer, stage) (mem_of_getElem? ho)

theorem running_erase (hf : cycle.Follows timers config pending due) (pos : Nat) :
    ∀ flight ∈ cycle.running.eraseIdx pos, flight.1 ∈ due :=
  fun flight mem => hf.running_due flight (mem_of_mem_eraseIdx mem)

theorem bounded_set (hf : cycle.Follows timers config pending due) (pos : Nat) (next : TimerRecord × Stage)
    (limited : config.maxConcurrentResumes ≠ 0) :
    (cycle.running.set pos next).length ≤ config.maxConcurrentResumes.toNat := by
  rw [length_set]
  exact hf.bounded limited

theorem bounded_erase (hf : cycle.Follows timers config pending due) (pos : Nat)
    (limited : config.maxConcurrentResumes ≠ 0) :
    (cycle.running.eraseIdx pos).length ≤ config.maxConcurrentResumes.toNat :=
  Nat.le_trans (eraseIdx_sublist _ _).length_le (hf.bounded limited)

theorem deleteTimer (hf : cycle.Follows timers config pending due)
    (ho : cycle.running[pos]? = some (timer, .deleteTimer)) :
    (cycle.proceed timers workQueue pos timer .deleteTimer).Follows timers config pending due := by
  have hu := timers.pending_deleteTimer timer.key cycle.storage
  have kept (key : TimerKey) : (inFlight cycle.running).count key = (inFlight (cycle.running.eraseIdx pos)).count key :=
    (count_inFlight_eraseIdx ho key).trans (by simp [inFlight])
  rw [Cycle.proceed]
  split
  · rename_i storage ha
    rw [ha, hf.pending_eq] at hu
    refine ⟨hu, hf.waiting_due, hf.running_set ho _, hf.bounded_set _ _, ?_, ?_⟩
    · intro key mem
      rcases mem_append.mp mem with old | new
      · exact hf.deleted_due key old
      · exact ⟨timer, hf.running_due _ (mem_of_getElem? ho), (mem_singleton.mp new).symm⟩
    · intro key
      have alone : inFlight [(timer, .recordTimerFired)] = [timer.key] := rfl
      simp only [count_append, hf.accounted key, kept key, count_inFlight_set ho, alone]
      omega
  · rename_i failure storage ha
    rw [ha, hf.pending_eq] at hu
    refine ⟨hu, hf.waiting_due, hf.running_erase pos, hf.bounded_erase pos, hf.deleted_due, ?_⟩
    intro key
    rw [hf.accounted key, kept key]

theorem recordTimerFired (hf : cycle.Follows timers config pending due)
    (ho : cycle.running[pos]? = some (timer, .recordTimerFired)) :
    (cycle.proceed timers workQueue pos timer .recordTimerFired).Follows timers config pending due := by
  have hu := timers.pending_recordTimerFired timer.key cycle.storage
  rw [Cycle.proceed]
  split
  · rename_i storage ha
    rw [ha, hf.pending_eq] at hu
    refine ⟨hu, hf.waiting_due, hf.running_set ho _, hf.bounded_set _ _, hf.deleted_due, ?_⟩
    intro key
    rw [hf.accounted key, count_inFlight_eraseIdx ho, count_inFlight_set ho]
    rfl
  · rename_i failure storage ha
    rw [ha, hf.pending_eq] at hu
    refine ⟨hu, hf.waiting_due, hf.running_erase pos, hf.bounded_erase pos, hf.deleted_due, ?_⟩
    intro key
    have alone : inFlight [(timer, .recordTimerFired)] = [timer.key] := rfl
    simp only [hf.accounted key, count_inFlight_eraseIdx ho, count_append, alone]
    omega

theorem enqueueResume (hf : cycle.Follows timers config pending due)
    (ho : cycle.running[pos]? = some (timer, .enqueueResume)) :
    (cycle.proceed timers workQueue pos timer .enqueueResume).Follows timers config pending due := by
  have alone : inFlight [(timer, .enqueueResume)] = [timer.key] := rfl
  rw [Cycle.proceed]
  split
  all_goals
    refine ⟨hf.pending_eq, hf.waiting_due, hf.running_erase pos, hf.bounded_erase pos, hf.deleted_due, ?_⟩
    intro key
    simp only [hf.accounted key, count_inFlight_eraseIdx ho, count_append, alone]
    omega

theorem step (hf : cycle.Follows timers config pending due) (choice : Choice) :
    (cycle.step timers workQueue config choice).Follows timers config pending due := by
  cases choice with
  | takeNext => exact hf.takeNext
  | proceed pos =>
    rw [Cycle.step]
    split
    · exact hf
    · rename_i timer stage ho
      cases stage with
      | deleteTimer => exact hf.deleteTimer ho
      | recordTimerFired => exact hf.recordTimerFired ho
      | enqueueResume => exact hf.enqueueResume ho

theorem cut (hf : cycle.Follows timers config pending due) (choices : List Choice) :
    (cycle.cut timers workQueue config choices).Follows timers config pending due := by
  induction choices generalizing cycle with
  | nil => exact hf
  | cons choice choices ih => exact ih (hf.step choice)

theorem inFlight_le (hf : cycle.Follows timers config pending due) (limited : config.maxConcurrentResumes ≠ 0) :
    (inFlight cycle.running).length ≤ config.maxConcurrentResumes.toNat := by
  rw [inFlight, length_map]
  exact Nat.le_trans (length_filter_le _ _) (hf.bounded limited)

theorem deleted_cases (hf : cycle.Follows timers config pending due) {key : TimerKey} (mem : key ∈ cycle.deleted) :
    key ∈ cycle.resumed ∨ key ∈ cycle.dropped ∨ key ∈ inFlight cycle.running := by
  have total := hf.accounted key
  have some := count_pos_iff.mpr mem
  simp only [← count_pos_iff]
  omega

end Cycle.Follows

end

section

variable [Ulid] {Storage Queue : Type} {timers : TimerStorage Storage} {workQueue : WorkQueue Queue}
  {recovery : Recovery Storage Queue} {key : TimerKey}

namespace Recovery

theorem resumed_complete (recovery : Recovery Storage Queue) (key : TimerKey) :
    (recovery.complete timers key).resumed = recovery.resumed := by
  rw [complete]
  split
  · rfl
  · rfl

theorem no_errors_of_complete (recovery : Recovery Storage Queue)
    (hc : (recovery.complete timers key).errors = 0) : recovery.errors = 0 := by
  rw [complete] at hc
  split at hc
  · exact hc
  · cases hc

theorem replay_clean (hb : ∀ queue, workQueue.isInstanceTerminal key.1 queue ≠ .ok true)
    {pending : PendingTimer} (hc : (recovery.replay timers workQueue pending).errors = 0) : recovery.errors = 0 ∧
      (key ∈ (recovery.replay timers workQueue pending).resumed ↔ key ∈ recovery.resumed ∨ pending.key = key) := by
  rw [replay] at hc ⊢
  split at hc
  · rename_i ht
    have ho : pending.key ≠ key := by
      rintro rfl
      exact hb _ ht
    simp only [resumed_complete, ho, or_false]
    exact ⟨no_errors_of_complete recovery hc, trivial⟩
  · split at hc
    · rename_i queue ha
      simp only [resumed_complete, mem_append, mem_singleton]
      exact ⟨no_errors_of_complete ⟨recovery.storage, queue, _, recovery.errors⟩ hc, or_congr_right eq_comm⟩
    · cases hc
  · cases hc

theorem replays_clean (ha : ∀ queue, workQueue.isInstanceTerminal key.1 queue ≠ .ok true)
    {found : List PendingTimer} (hl : (found.foldl (replay timers workQueue) recovery).errors = 0) :
    recovery.errors = 0 ∧ (key ∈ (found.foldl (replay timers workQueue) recovery).resumed ↔
      key ∈ recovery.resumed ∨ key ∈ found.map PendingTimer.key) := by
  induction found generalizing recovery with
  | nil => simpa using hl
  | cons pending found ih =>
    obtain ⟨hb, he⟩ := ih hl
    obtain ⟨hc, hr⟩ := replay_clean ha hb
    refine ⟨hc, ?_⟩
    rw [foldl_cons, he, hr, map_cons, mem_cons, or_assoc]
    simp only [eq_comm]

end Recovery

def replayable (timers : TimerStorage Storage) (now : TimestampMs) (pending : List PendingTimer) : List TimerKey :=
  ((pending.filter fun timer => !timers.isStale (saturatingSub now stalePendingThresholdMs) timer).take 100).map
    PendingTimer.key

theorem runCrashRecovery_resumed {now : TimestampMs} {storage : Storage} {queue : Queue}
    (ha : ∀ queue, workQueue.isInstanceTerminal key.1 queue ≠ .ok true)
    (hr : runCrashRecovery timers workQueue now storage queue = (.ok (), recovery)) (hl : recovery.errors = 0) :
    key ∈ recovery.resumed ↔ key ∈ replayable timers now (timers.pending storage) := by
  have hc := timers.pending_cleanup (saturatingSub now stalePendingThresholdMs) storage
  rw [runCrashRecovery] at hr
  split at hr
  · cases hr
  · rename_i count swept hn
    split at hr
    · cases hr
    · rename_i found hs
      have seen := timers.scanned_pending 100 swept found hs
      rw [hn] at hc
      rw [hc count rfl] at seen
      cases hr
      rw [(Recovery.replays_clean ha hl).2, seen]
      simp only [not_mem_nil, false_or, replayable, UInt32.reduceToNat]

end

section

variable [Ulid] {Storage Queue : Type}

/-- Delete before dispatch: each deletion of a cut cycle is one enqueue, one failed call or one future that was under
    way, at most as many as may run at once. The cycle marks no timer, so recovery replays only what was marked before. -/
theorem deleted_timers_accounted (timers : TimerStorage Storage) (workQueue : WorkQueue Queue)
    (config : ReanimatorConfig) (budget : FairnessBudget) (currentTime later : TimestampMs) (storage : Storage)
    (queue : Queue) (first : Cycle Storage Queue)
    (started : Cycle.start timers config budget currentTime storage queue = .ok first)
    (active : ∀ timer ∈ first.waiting, ∀ queue, workQueue.isInstanceTerminal timer.instanceId queue ≠ .ok true)
    (choices : List Choice) (last : Cycle Storage Queue) (isCut : first.cut timers workQueue config choices = last)
    (recovery : Recovery Storage Queue)
    (recovered : runCrashRecovery timers workQueue later last.storage last.queue = (.ok (), recovery))
    (clean : recovery.errors = 0) : (∀ key ∈ last.deleted,
        key ∈ last.resumed ++ recovery.resumed ∨ key ∈ last.dropped ∨ key ∈ inFlight last.running) ∧
      (∀ key, last.deleted.count key =
        last.resumed.count key + last.dropped.count key + (inFlight last.running).count key) ∧
      (config.maxConcurrentResumes ≠ 0 → (inFlight last.running).length ≤ config.maxConcurrentResumes.toNat) ∧
      ∀ key ∈ last.deleted, key ∈ recovery.resumed ↔ key ∈ replayable timers later (timers.pending storage) := by
  have hf : last.Follows timers config (timers.pending storage) first.waiting :=
    isCut ▸ (Cycle.Follows.start started).cut choices
  refine ⟨fun key mem => ?_, hf.accounted, hf.inFlight_le, fun key mem => ?_⟩
  · exact (hf.deleted_cases mem).imp_left (mem_append_left _)
  · obtain ⟨timer, due, rfl⟩ := hf.deleted_due key mem
    rw [← hf.pending_eq]
    exact runCrashRecovery_resumed (active timer due) recovered clean

end

section Sample

section

variable [Ulid]

structure ListedTimers where
  due : List TimerRecord
  fired : List TimerKey
  pending : List PendingTimer

def listed : TimerStorage ListedTimers where
  scanDueTimers start stop maxResults storage :=
    .ok ((storage.due.filter fun timer => start ≤ timer.fireAtMs && timer.fireAtMs ≤ stop).take maxResults.toNat)
  deleteTimer key storage := (.ok (), { storage with due := storage.due.filter (·.key ≠ key) })
  recordTimerFired key storage := (.ok (), { storage with fired := storage.fired ++ [key] })
  markTimerProcessing key now storage :=
    (.ok (), { storage with pending := storage.pending ++ [⟨key.1, key.2, now, now⟩] })
  scanPendingTimers maxResults storage := .ok (storage.pending.take maxResults.toNat)
  completeTimerProcessing key storage := (.ok (), { storage with pending := storage.pending.filter (·.key ≠ key) })
  cleanupStalePendingTimers olderThan storage := (.ok (UInt32.ofNat (storage.pending.countP (·.markedAtMs ≤ olderThan))),
      { storage with pending := storage.pending.filter fun timer => !decide (timer.markedAtMs ≤ olderThan) })
  pending storage := storage.pending
  isStale olderThan timer := timer.markedAtMs ≤ olderThan
  stale_of_lt _ _ older := decide_eq_true (UInt64.le_of_lt older)
  fresh_of_lt _ _ newer := decide_eq_false (UInt64.not_le.mpr newer)
  pending_deleteTimer _ _ := rfl
  pending_recordTimerFired _ _ := rfl
  pending_markTimerProcessing key now _ _ := ⟨⟨key.1, key.2, now, now⟩, mem_append_right _ mem_cons_self, rfl, rfl⟩
  kept_markTimerProcessing _ _ _ _ mem _ := mem_append_left _ mem
  kept_completeTimerProcessing _ _ _ mem other := mem_filter.mpr ⟨mem, decide_eq_true other⟩
  pending_cleanup _ _ _ _ := rfl
  scanned_pending _ _ _ scanned := (Except.ok.inj scanned).symm

def accepting : WorkQueue (List InstanceId) where
  enqueueResume id queue := (.ok (), queue ++ [id])
  isInstanceTerminal _ _ := .ok false

end

attribute [local instance] Ulid.Crockford.codec

def sampleTimer : TimerRecord := ⟨.ofUlid 7, 500, none, 400⟩

def sampleConfig : ReanimatorConfig := ⟨100, 10⟩

def sampleBudget : FairnessBudget := ⟨100, ∅⟩

variable (pending : List PendingTimer)

def sampleCycle : Cycle ListedTimers (List InstanceId) :=
  ⟨⟨[sampleTimer], [], pending⟩, [], [sampleTimer], [], [], [], [], 0, 0⟩

theorem sampleCycle_started : Cycle.start listed sampleConfig sampleBudget 1000 ⟨[sampleTimer], [], pending⟩ [] =
    .ok (sampleCycle pending) := by
  have ha : ((validateTimerRecord sampleTimer).isOk &&
      sampleBudget.reset.canResume sampleTimer.instanceId) = true := by decide +kernel
  have kept : ([sampleTimer].filter fun timer =>
      (validateTimerRecord timer).isOk && sampleBudget.reset.canResume timer.instanceId) = [sampleTimer] := by
    simp only [filter_cons, ha, if_true, filter_nil]
  exact congrArg (fun waiting => Except.ok { sampleCycle pending with waiting := waiting }) kept

/-- Cut right after the deletion, the timer is gone whenever the recovery runs. -/
theorem deleted_timer_lost :
    Cycle.start listed sampleConfig sampleBudget 1000 ⟨[sampleTimer], [], []⟩ [] = .ok (sampleCycle []) ∧
      ∀ later : TimestampMs, ∃ recovery, runCrashRecovery listed accepting later
            ((sampleCycle []).cut listed accepting sampleConfig [.takeNext, .proceed 0]).storage
            ((sampleCycle []).cut listed accepting sampleConfig [.takeNext, .proceed 0]).queue = (.ok (), recovery) ∧
          recovery.errors = 0 ∧
          sampleTimer.key ∈ ((sampleCycle []).cut listed accepting sampleConfig [.takeNext, .proceed 0]).deleted ∧
          sampleTimer.key ∉ ((sampleCycle []).cut listed accepting sampleConfig [.takeNext, .proceed 0]).resumed ++
            recovery.resumed := by
  refine ⟨sampleCycle_started [], fun later => ⟨⟨⟨[], [], []⟩, [], [], 0⟩, ?_⟩⟩
  exact ⟨rfl, rfl, mem_cons_self, not_mem_nil⟩

/-- The same cut with a mark of before the cycle: the timer is in flight, and the recovery enqueues it. -/
theorem deleted_timers_accounted_marked : ∃ last recovery,
    (sampleCycle [⟨sampleTimer.instanceId, 500, 400, 900⟩]).cut listed accepting sampleConfig [.takeNext, .proceed 0] =
        last ∧ runCrashRecovery listed accepting 2000 last.storage last.queue = (.ok (), recovery) ∧
      inFlight last.running = [sampleTimer.key] ∧ (inFlight last.running).length ≤ 10 ∧
      sampleTimer.key ∈ recovery.resumed := by
  refine ⟨_, _, rfl, rfl, rfl, ?_⟩
  obtain ⟨_, _, bounded, replayed⟩ := deleted_timers_accounted listed accepting sampleConfig sampleBudget 1000 2000 _ _ _
    (sampleCycle_started [⟨sampleTimer.instanceId, 500, 400, 900⟩]) (fun _ _ _ => (by simp [accepting]))
    [.takeNext, .proceed 0] _ rfl _ rfl rfl
  exact ⟨bounded (by decide), (replayed sampleTimer.key mem_cons_self).mpr mem_cons_self⟩

end Sample

end Veloxide.Reanimator
