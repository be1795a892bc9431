import Veloxide.Types.Workflow

namespace Veloxide.JobScheduler

open ByteCodec

abbrev JobId := BitVec 128

abbrev DateTime := Int

abbrev Duration := Nat

inductive SchedulerError
  | jobNotFound (jobId : String)
  | queueFull
  | schedulerStopped
  | invalidSchedule (reason : String)
  | concurrencyLimitReached
  | storageError (reason : String)
  | invalidTransition (fromState action : String)
  | serializationError (reason : String)
  | invalidJobId (reason : String)
deriving DecidableEq

inductive JobState
  | scheduled
  | pending
  | running
  | completed
  | failed
  | cancelled
  | retrying
deriving DecidableEq

namespace JobState

def isTerminal : JobState → Bool
  | completed | failed | cancelled => true
  | _ => false

def toText : JobState → String
  | scheduled => "scheduled"
  | pending => "pending"
  | running => "running"
  | completed => "completed"
  | failed => "failed"
  | cancelled => "cancelled"
  | retrying => "retrying"

def debugText : JobState → String
  | scheduled => "Scheduled"
  | pending => "Pending"
  | running => "Running"
  | completed => "Completed"
  | failed => "Failed"
  | cancelled => "Cancelled"
  | retrying => "Retrying"

end JobState

inductive JobKind
  | oneShot
  | recurring
  | delayed
deriving DecidableEq

inductive JobPriority
  | critical
  | high
  | normal
  | low
  | background
deriving DecidableEq

def JobPriority.rank : JobPriority → Nat
  | critical => 0
  | high => 1
  | normal => 2
  | low => 3
  | background => 4

theorem JobPriority.rank_injective {left right : JobPriority} (same : left.rank = right.rank) : left = right := by
  cases left <;> cases right <;> first | rfl | cases same

inductive SchedulePolicy
  | atTime (time : DateTime)
  | after (delay : Duration)
  | cron (expression : String)
  | immediate
deriving DecidableEq

section

def isWhitespace (c : Char) : Bool := (9 ≤ c.toNat && c.toNat ≤ 13) || (0x2000 ≤ c.toNat && c.toNat ≤ 0x200A) ||
    [0x20, 0x85, 0xA0, 0x1680, 0x2028, 0x2029, 0x202F, 0x205F, 0x3000].contains c.toNat

def splitWhitespace (chars : List Char) : List (List Char) :=
  (chars.splitOnP isWhitespace).filter fun field => !field.isEmpty

def parseU32 (chars : List Char) : Option Nat := let digits := match chars with
    | '+' :: rest => rest
    | _ => chars
  let value := digits.foldl (fun value c => value * 10 + (c.toNat - '0'.toNat)) 0
  if digits.isEmpty || !digits.all Char.isDigit || 2 ^ 32 ≤ value then none else some value

def invalidSchedule {α : Type} : Except SchedulerError α := .error (.invalidSchedule "invalid schedule")

def validateCronField (field : List Char) (min max : Nat) : Except SchedulerError Bool := match field with
  | ['*'] => .ok true
  | '*' :: '/' :: step =>
    match parseU32 step with
    | none => invalidSchedule
    | some value => if value = 0 || max < value then invalidSchedule else .ok true
  | _ =>
    if '-' ∈ field then
      match parseU32 (field.takeWhile (· ≠ '-')), parseU32 ((field.dropWhile (· ≠ '-')).drop 1) with
      | some first, some last => if first < min || max < last || last < first then invalidSchedule else .ok true
      | _, _ => invalidSchedule
    else match parseU32 field with
      | some value => if min ≤ value && value ≤ max then .ok true else invalidSchedule
      | none => invalidSchedule

def validateCron (expression : String) : Except SchedulerError Unit := match splitWhitespace expression.toList with
  | [minute, hour, dayOfMonth, month, dayOfWeek] => do
    let minuteValid ← validateCronField minute 0 59
    let hourValid ← validateCronField hour 0 23
    let dayOfMonthValid ← validateCronField dayOfMonth 1 31
    let monthValid ← validateCronField month 1 12
    let dayOfWeekValid ← validateCronField dayOfWeek 0 6
    if minuteValid && hourValid && dayOfMonthValid && monthValid && dayOfWeekValid then .ok () else invalidSchedule
  | _ => invalidSchedule

end

structure RetryPolicy where
  maxAttempts : UInt32
  backoffMultiplier : F64
  initialDelay : Duration
  maxDelay : Duration
deriving DecidableEq

/-- The operations on floating point numbers and the conversion of durations that the scheduler calls. -/
class TimeArithmetic where
  asSecsF64 : Duration → F64
  fromSecsF64 : F64 → Duration
  mul : F64 → F64 → F64
  powi : F64 → Int32 → F64
  min : F64 → F64 → F64
  fromStd : Duration → Except String Int

@[reducible] def TimeArithmetic.whole : TimeArithmetic where
  asSecsF64 delay := ⟨UInt64.ofNat delay⟩
  fromSecsF64 x := x.bits.toNat
  mul x _ := x
  powi x _ := x
  min x y := if x.bits ≤ y.bits then x else y
  fromStd delay := .ok delay

namespace RetryPolicy

def computeBackoff [TimeArithmetic] (policy : RetryPolicy) (attempt : UInt32) : Duration :=
  let delaySecs := TimeArithmetic.mul (TimeArithmetic.asSecsF64 policy.initialDelay)
    (TimeArithmetic.powi policy.backoffMultiplier attempt.toInt32)
  TimeArithmetic.fromSecsF64 (TimeArithmetic.min delaySecs (TimeArithmetic.asSecsF64 policy.maxDelay))

def canRetry (policy : RetryPolicy) (attemptCount : UInt32) : Bool := attemptCount < policy.maxAttempts

theorem toNat_succ_of_canRetry {policy : RetryPolicy} {count : UInt32} (hr : policy.canRetry count = true) :
    (count + 1).toNat = count.toNat + 1 ∧ count.toNat + 1 ≤ policy.maxAttempts.toNat := by
  have less : count.toNat < policy.maxAttempts.toNat := by
    simpa [canRetry, UInt32.lt_iff_toNat_lt] using hr
  have hb := policy.maxAttempts.toNat_lt
  rw [UInt32.toNat_add]
  exact ⟨Nat.mod_eq_of_lt (by simpa using Nat.lt_of_le_of_lt less hb), less⟩

end RetryPolicy

structure ScheduledJob where
  id : JobId
  kind : JobKind
  state : JobState
  priority : JobPriority
  schedulePolicy : SchedulePolicy
  retryPolicy : RetryPolicy
  attemptCount : UInt32
  dueAt : DateTime
  payload : Bytes
  lastError : Option String
  createdAt : DateTime
  updatedAt : DateTime
deriving DecidableEq

namespace ScheduledJob

section

variable [TimeArithmetic]

def initialDueAt (schedulePolicy : SchedulePolicy) (now : DateTime) : Except SchedulerError DateTime :=
  match schedulePolicy with
  | .atTime time => .ok time
  | .after delay => ((TimeArithmetic.fromStd delay).mapError .invalidSchedule).map (now + ·)
  | .immediate => .ok now
  | .cron _ => .ok now

def checkSchedule : SchedulePolicy → Except SchedulerError Unit
  | .cron expression => validateCron expression
  | _ => .ok ()

def new (id : JobId) (now : DateTime) (kind : JobKind) (priority : JobPriority) (schedulePolicy : SchedulePolicy)
    (retryPolicy : RetryPolicy) (payload : Bytes) : Except SchedulerError ScheduledJob := do
  checkSchedule schedulePolicy
  let dueAt ← initialDueAt schedulePolicy now
  let state : JobState := if dueAt ≤ now then .pending else .scheduled
  return ⟨id, kind, state, priority, schedulePolicy, retryPolicy, 0, dueAt, payload, none, now, now⟩

def MadeAt (now : DateTime) (job : ScheduledJob) : Prop := ∃ id kind priority schedulePolicy retryPolicy payload,
    new id now kind priority schedulePolicy retryPolicy payload = .ok job

theorem MadeAt.fresh {now : DateTime} {job : ScheduledJob} (made : MadeAt now job) :
    job.attemptCount = 0 ∧ ((job.state = .pending ∧ job.dueAt ≤ now) ∨ job.state = .scheduled) := by
  obtain ⟨id, kind, priority, schedulePolicy, retryPolicy, body, made⟩ := made
  rw [new] at made
  obtain ⟨_, _, made⟩ := Except.bind_eq_ok.mp made
  obtain ⟨dueAt, _, made⟩ := Except.bind_eq_ok.mp made
  cases made
  refine ⟨rfl, ?_⟩
  by_cases due : dueAt ≤ now
  · exact .inl ⟨if_pos due, due⟩
  · exact .inr (if_neg due)

end

def validTransition (kind : JobKind) : JobState → JobState → Bool
  | .scheduled, .pending => true
  | .scheduled, .cancelled => true
  | .pending, .running => true
  | .pending, .cancelled => true
  | .running, .completed => true
  | .running, .failed => true
  | .running, .cancelled => true
  | .failed, .retrying => true
  | .retrying, .pending => true
  | .retrying, .cancelled => true
  | .completed, .scheduled => kind = .recurring
  | _, _ => false

def transition (job : ScheduledJob) (newState : JobState) (now : DateTime) : Except SchedulerError ScheduledJob :=
  if validTransition job.kind job.state newState then .ok { job with state := newState, updatedAt := now }
  else .error (.invalidTransition job.state.toText newState.toText)

def applyRetryableFailure [TimeArithmetic] (job : ScheduledJob) (failure : String) (due now : DateTime) :
    Except SchedulerError ScheduledJob :=
  let refused : Except SchedulerError ScheduledJob :=
    .error (.invalidTransition job.state.toText "apply_retryable_failure")
  if job.state ≠ .running && job.state ≠ .failed then refused
  else if !job.retryPolicy.canRetry job.attemptCount then refused
  else
    let backoff := job.retryPolicy.computeBackoff (job.attemptCount + 1)
    .ok { job with
      attemptCount := job.attemptCount + 1
      state := .retrying
      dueAt := due + ((TimeArithmetic.fromStd backoff).toOption.getD 0)
      lastError := some failure
      updatedAt := now }

theorem id_of_retryable [TimeArithmetic] {job moved : ScheduledJob} {err : String} {due now : DateTime}
    (hr : job.applyRetryableFailure err due now = .ok moved) : moved.id = job.id := by
  rw [applyRetryableFailure] at hr
  split_ifs at hr
  cases hr
  rfl

end ScheduledJob

end Veloxide.JobScheduler
