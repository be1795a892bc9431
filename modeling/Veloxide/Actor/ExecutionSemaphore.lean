import Veloxide.Library.Execution

namespace Veloxide.Actor

open Machine List

structure SemaphoreConfig where
  maxConcurrentBinaries : UInt64
  maxWaitersForShed : UInt64
deriving DecidableEq

inductive BackpressureStatus
  | healthy
  | moderate
  | heavy
  | shedLoad
deriving DecidableEq

def BackpressureStatus.shouldReject : BackpressureStatus → Bool
  | shedLoad => true
  | _ => false

inductive RejectionReason
  | loadShed
  | workflowSaturated
  | timeout
deriving DecidableEq

inductive AdmissionDecision
  | admitted
  | queued (position : UInt64) (estimatedWaitMs : UInt64)
  | rejected (reason : RejectionReason) (retryAfterSecs : UInt32)
deriving DecidableEq

/-- Whether `used as f64 / total as f64` exceeds a number of tenths. -/
class UsageRatio where
  exceeds : UInt64 → UInt64 → Nat → Bool

section

variable [UsageRatio] (availablePermits totalPermits : UInt64)

def usageExceeds (tenths : Nat) : Bool :=
  if 0 < totalPermits then UsageRatio.exceeds (totalPermits - availablePermits) totalPermits tenths
  else tenths < 10

def calculateBackpressureStatus (waitingCount maxWaitersForShed : UInt64) : BackpressureStatus :=
  if maxWaitersForShed ≤ waitingCount then .shedLoad
  else if totalPermits / 2 < waitingCount || usageExceeds availablePermits totalPermits 8 then .heavy
  else if usageExceeds availablePermits totalPermits 5 || totalPermits / 4 < waitingCount then .moderate
  else .healthy

def statusFromConfigAndState (config : SemaphoreConfig) (availablePermits waitingCount : UInt64) : BackpressureStatus :=
  calculateBackpressureStatus availablePermits config.maxConcurrentBinaries waitingCount config.maxWaitersForShed

end

/-- The tokio semaphore: permits that nobody holds, waiters, and waiters that were handed a permit. -/
structure Semaphore where
  permits : Nat
  queued : Nat
  handed : Nat
deriving DecidableEq

namespace Semaphore

def new (permits : Nat) : Semaphore := ⟨permits, 0, 0⟩

variable (semaphore : Semaphore)

def tryAcquire : Option Semaphore :=
  if 0 < semaphore.permits then some { semaphore with permits := semaphore.permits - 1 } else none

def wait : Semaphore := { semaphore with queued := semaphore.queued + 1 }

def addPermit : Semaphore := if 0 < semaphore.queued then
    { semaphore with queued := semaphore.queued - 1, handed := semaphore.handed + 1 }
  else { semaphore with permits := semaphore.permits + 1 }

def poll : Option Semaphore :=
  if 0 < semaphore.handed then some { semaphore with handed := semaphore.handed - 1 } else none

def giveUp : Option Semaphore :=
  if 0 < semaphore.queued then some { semaphore with queued := semaphore.queued - 1 } else none

def free : Nat := semaphore.permits + semaphore.handed

@[simp] theorem wait_free : semaphore.wait.free = semaphore.free := rfl

@[simp] theorem addPermit_free : semaphore.addPermit.free = semaphore.free + 1 := by
  unfold addPermit free
  split
  · simp only
    omega
  · simp only
    omega

theorem tryAcquire_free {semaphore taken : Semaphore} (ha : semaphore.tryAcquire = some taken) :
    taken.free + 1 = semaphore.free := by
  unfold tryAcquire at ha
  split at ha
  · cases ha
    unfold free
    simp only
    omega
  · cases ha

theorem tryAcquire_isSome : semaphore.tryAcquire.isSome = true ↔ 0 < semaphore.permits := by
  unfold tryAcquire
  split_ifs with some
  · exact iff_of_true rfl some
  · exact iff_of_false nofun some

theorem poll_free {semaphore polled : Semaphore} (hr : semaphore.poll = some polled) :
    polled.free + 1 = semaphore.free := by
  unfold poll at hr
  split at hr
  · cases hr
    unfold free
    simp only
    omega
  · cases hr

theorem giveUp_free {semaphore rest : Semaphore} (gone : semaphore.giveUp = some rest) : rest.free = semaphore.free := by
  unfold giveUp at gone
  split at gone
  · cases gone
    rfl
  · cases gone

end Semaphore

structure ExecutionSemaphore where
  semaphore : Semaphore
  config : SemaphoreConfig
  availablePermits : UInt64
  waitingCount : UInt64
deriving DecidableEq

namespace ExecutionSemaphore

def new (config : SemaphoreConfig) : ExecutionSemaphore :=
  ⟨.new config.maxConcurrentBinaries.toNat, config, config.maxConcurrentBinaries, 0⟩

variable (execution : ExecutionSemaphore)

def currentStatus [UsageRatio] (execution : ExecutionSemaphore) : BackpressureStatus :=
  statusFromConfigAndState execution.config execution.availablePermits execution.waitingCount

def tryAcquire (execution : ExecutionSemaphore) : Option ExecutionSemaphore := match execution.semaphore.tryAcquire with
  | some semaphore => some { execution with semaphore, availablePermits := execution.availablePermits - 1 }
  | none => none

def dropPermit : ExecutionSemaphore := { execution with semaphore := execution.semaphore.addPermit }

def releasePermit : ExecutionSemaphore := { execution with semaphore := execution.semaphore.addPermit }

def dropGuard : ExecutionSemaphore := let released := execution.dropPermit.releasePermit
  { released with availablePermits := released.availablePermits + 1 }

def enter [UsageRatio] (execution : ExecutionSemaphore) : Option AdmissionDecision × ExecutionSemaphore :=
  let entered := { execution with waitingCount := execution.waitingCount + 1 }
  if entered.currentStatus.shouldReject then
    (some (.rejected .loadShed 5), { entered with waitingCount := entered.waitingCount - 1 })
  else (none, entered)

variable (semaphore : Semaphore)

def granted : AdmissionDecision × ExecutionSemaphore := let counted := { execution with
    semaphore, waitingCount := execution.waitingCount - 1, availablePermits := execution.availablePermits - 1 }
  (.admitted, counted.dropPermit)

def timedOut : AdmissionDecision × ExecutionSemaphore :=
  (.rejected .timeout 10, { execution with semaphore, waitingCount := execution.waitingCount - 1 })

end ExecutionSemaphore

/-- The semaphore, with the number of permits and of guards that its callers hold. -/
structure Pool where
  execution : ExecutionSemaphore
  permits : Nat
  guards : Nat
deriving DecidableEq

namespace Pool

def new (config : SemaphoreConfig) : Pool := ⟨.new config, 0, 0⟩

/-- A call, a waiting `acquire` that is polled again or times out, or a drop. -/
inductive Call
  | tryAcquire
  | tryAcquireGuard
  | acquire
  | resume
  | expire
  | dropPermit
  | dropGuard
deriving DecidableEq

inductive Reply
  | permit (acquired : Bool)
  | guarded (acquired : Bool)
  | decided (decision : AdmissionDecision)
  | pending
  | dropped
  | nothing
deriving DecidableEq

def settle (pool : Pool) (outcome : AdmissionDecision × ExecutionSemaphore) : Reply × Pool :=
  (.decided outcome.1, { pool with execution := outcome.2 })

def acquire [UsageRatio] (pool : Pool) : Reply × Pool := match pool.execution.enter with
  | (some decision, execution) => pool.settle (decision, execution)
  | (none, execution) =>
    match execution.semaphore.tryAcquire with
    | some semaphore => pool.settle (execution.granted semaphore)
    | none => (.pending, { pool with execution := { execution with semaphore := execution.semaphore.wait } })

def step [UsageRatio] (pool : Pool) : Call → Reply × Pool
  | .tryAcquire =>
    match pool.execution.tryAcquire with
    | some execution => (.permit true, { pool with execution, permits := pool.permits + 1 })
    | none => (.permit false, pool)
  | .tryAcquireGuard =>
    match pool.execution.tryAcquire with
    | some execution => (.guarded true, { pool with execution, guards := pool.guards + 1 })
    | none => (.guarded false, pool)
  | .acquire => pool.acquire
  | .resume =>
    match pool.execution.semaphore.poll with
    | some semaphore => pool.settle (pool.execution.granted semaphore)
    | none => (.nothing, pool)
  | .expire =>
    match pool.execution.semaphore.giveUp with
    | some semaphore => pool.settle (pool.execution.timedOut semaphore)
    | none => (.nothing, pool)
  | .dropPermit =>
    if 0 < pool.permits then
      (.dropped, { pool with execution := pool.execution.dropPermit, permits := pool.permits - 1 })
    else (.nothing, pool)
  | .dropGuard =>
    if 0 < pool.guards then
      (.dropped, { pool with execution := pool.execution.dropGuard, guards := pool.guards - 1 })
    else (.nothing, pool)

/-- What an event does to the permits that are held, those that are free, and the counter. -/
structure Balance where
  held : Nat
  free : Nat
  counter : UInt64

def balance (pool : Pool) : Balance :=
  ⟨pool.permits + pool.guards, pool.execution.semaphore.free, pool.execution.availablePermits⟩

def Balance.Settled (capacity : UInt64) (balance : Balance) : Prop :=
  balance.held + balance.free = capacity.toNat ∧ balance.counter.toNat = balance.free

/-- A move of the balance, by whether a guard is released twice and whether the counter is left behind. -/
inductive Moves (before : Balance) (twice uncounted : Prop) : Balance → Prop
  | quiet (once : ¬ twice) (counted : ¬ uncounted) : Moves before twice uncounted before
  | acquired {free : Nat} (taken : free + 1 = before.free) (once : ¬ twice) (counted : ¬ uncounted) :
      Moves before twice uncounted ⟨before.held + 1, free, before.counter - 1⟩
  | admitted {free : Nat} (taken : free + 1 = before.free) (once : ¬ twice) (left : uncounted) :
      Moves before twice uncounted ⟨before.held, before.free, before.counter - 1⟩
  | permit {held : Nat} (lost : held + 1 = before.held) (once : ¬ twice) (left : uncounted) :
      Moves before twice uncounted ⟨held, before.free + 1, before.counter⟩
  | guarded {held : Nat} (lost : held + 1 = before.held) (released : twice) :
      Moves before twice uncounted ⟨held, before.free + 2, before.counter + 1⟩

section

variable {pool : Pool} {execution : ExecutionSemaphore} {semaphore : Semaphore}

theorem tryAcquire_balance (ha : pool.execution.tryAcquire = some execution) :
    execution.semaphore.free + 1 = pool.execution.semaphore.free ∧
      execution.availablePermits = pool.execution.availablePermits - 1 ∧
      execution.config = pool.execution.config := by
  unfold ExecutionSemaphore.tryAcquire at ha
  split at ha
  · rename_i semaphore ht
    cases ha
    exact ⟨Semaphore.tryAcquire_free ht, rfl, rfl⟩
  · cases ha

theorem granted_moves {twice uncounted : Prop} (ht : semaphore.free + 1 = execution.semaphore.free)
    (same : execution.semaphore.free = pool.execution.semaphore.free)
    (hc : execution.availablePermits = pool.execution.availablePermits) (once : ¬ twice) (left : uncounted) :
    Moves pool.balance twice uncounted (pool.settle (execution.granted semaphore)).2.balance := by
  have ha : (pool.settle (execution.granted semaphore)).2.balance =
      ⟨pool.balance.held, pool.balance.free, pool.balance.counter - 1⟩ := by
    simp [settle, ExecutionSemaphore.granted, ExecutionSemaphore.dropPermit, balance, ht, same, hc]
  rw [ha]
  exact .admitted (ht.trans same) once left

variable {cap : UInt64} {before after : Balance} {twice uncounted : Prop}

theorem Balance.total_iff (hm : Moves before twice uncounted after) (ht : before.held + before.free = cap.toNat) :
    after.held + after.free = cap.toNat ↔ ¬ twice := by
  cases hm with
  | quiet once _ => exact iff_of_true ht once
  | acquired taken once _ | admitted taken once _ | permit taken once _ =>
    refine iff_of_true ?_ once
    simp only
    omega
  | guarded lost released =>
    refine iff_of_false ?_ (not_not.mpr released)
    simp only
    omega

theorem Balance.settled_iff (hm : Moves before twice uncounted after) (hs : before.Settled cap) :
    after.Settled cap ↔ ¬ twice ∧ ¬ uncounted := by
  rw [Settled, total_iff hm hs.1]
  refine and_congr_right fun _ => ?_
  obtain ⟨ht, hc⟩ := hs
  have hl (hp : 0 < before.counter.toNat) : (before.counter - 1).toNat = before.counter.toNat - 1 :=
    UInt64.toNat_sub_of_le _ _ (UInt64.le_iff_toNat_le.mpr hp)
  cases hm with
  | quiet _ counted => exact iff_of_true hc counted
  | acquired taken _ counted =>
    refine iff_of_true ?_ counted
    simp only
    rw [hl (by omega)]
    omega
  | admitted taken _ left =>
    refine iff_of_false ?_ (not_not.mpr left)
    simp only
    rw [hl (by omega)]
    omega
  | permit lost _ left =>
    refine iff_of_false ?_ (not_not.mpr left)
    simp only
    omega
  | guarded lost released => contradiction

end

section

variable [UsageRatio] (pool : Pool) (count : Nat)

def TriesLeft : Prop := (∀ event ∈ trace step pool (List.replicate count .tryAcquire), event.reply = .permit true) ∧
    (step (final step pool (List.replicate count .tryAcquire)) .tryAcquire).1 = .permit false

/-- The acquisitions that would still succeed: tries, and waiting `acquire` calls that were handed a permit. -/
def Further : Prop := ∃ tries, pool.TriesLeft tries ∧ count = tries + pool.execution.semaphore.handed

def Conserved : Prop := ∃ further, pool.Further further ∧
    pool.permits + pool.guards + further = pool.execution.config.maxConcurrentBinaries.toNat ∧
    pool.execution.availablePermits.toNat = further

/-- The capacity part of the law, without the counter. -/
def Whole : Prop := ∃ further, pool.Further further ∧
    pool.permits + pool.guards + further = pool.execution.config.maxConcurrentBinaries.toNat

/-- A guard is dropped: the permit inside it goes back, and `release_permit` adds another. -/
def ReleasesTwice (call : Call) : Prop := call = .dropGuard ∧ 0 < pool.guards

/-- The counter does not come back: a permit is dropped, or an `acquire` gets a permit, which it drops at its end. -/
def LeavesCounter (pool : Pool) : Call → Prop
  | .dropPermit => 0 < pool.permits
  | .acquire => pool.execution.waitingCount + 1 < pool.execution.config.maxWaitersForShed ∧
      0 < pool.execution.semaphore.permits
  | .resume => 0 < pool.execution.semaphore.handed
  | _ => False

theorem tryAcquire_some {pool : Pool} {semaphore : Semaphore}
    (ha : pool.execution.semaphore.tryAcquire = some semaphore) : step pool .tryAcquire = (.permit true, { pool with
      execution := { pool.execution with semaphore, availablePermits := pool.execution.availablePermits - 1 },
      permits := pool.permits + 1 }) := by
  simp only [step, ExecutionSemaphore.tryAcquire, ha]

theorem tryAcquire_none {pool : Pool} (hr : pool.execution.semaphore.tryAcquire = none) :
    step pool .tryAcquire = (.permit false, pool) := by
  simp only [step, ExecutionSemaphore.tryAcquire, hr]

theorem triesLeft_iff : pool.TriesLeft count ↔ pool.execution.semaphore.permits = count := by
  induction count generalizing pool with
  | zero =>
    simp only [TriesLeft, replicate_zero, trace, final, not_mem_nil, false_implies, implies_true, true_and]
    rcases Nat.eq_zero_or_pos pool.execution.semaphore.permits with none | some
    · rw [tryAcquire_none (by simp [Semaphore.tryAcquire, none])]
      simp [none]
    · rw [tryAcquire_some (by rw [Semaphore.tryAcquire, if_pos some])]
      simp only [Reply.permit.injEq, Bool.true_eq_false, false_iff]
      omega
  | succ count ih =>
    simp only [TriesLeft, replicate_succ, trace, final, forall_mem_cons, event]
    rcases Nat.eq_zero_or_pos pool.execution.semaphore.permits with none | some
    · rw [tryAcquire_none (by simp [Semaphore.tryAcquire, none])]
      simp [none]
    · have ht := @tryAcquire_some _ pool _ (by rw [Semaphore.tryAcquire, if_pos some])
      have rest := ih (step pool .tryAcquire).2
      rw [ht] at rest ⊢
      simp only [true_and]
      refine rest.trans ?_
      simp only
      omega

theorem whole_iff : pool.Whole ↔
    pool.balance.held + pool.balance.free = pool.execution.config.maxConcurrentBinaries.toNat := by
  simp only [Whole, Further, triesLeft_iff, balance, Semaphore.free]
  constructor
  · rintro ⟨_, ⟨_, rfl, rfl⟩, ht⟩
    exact ht
  · exact fun ht => ⟨_, ⟨_, rfl, rfl⟩, ht⟩

theorem conserved_iff : pool.Conserved ↔ pool.balance.Settled pool.execution.config.maxConcurrentBinaries := by
  simp only [Conserved, Further, triesLeft_iff, Balance.Settled, balance, Semaphore.free]
  constructor
  · rintro ⟨_, ⟨_, rfl, rfl⟩, ht, hc⟩
    exact ⟨ht, hc⟩
  · rintro ⟨ht, hc⟩
    exact ⟨_, ⟨_, rfl, rfl⟩, ht, hc⟩

theorem shouldReject_iff (execution : ExecutionSemaphore) : execution.currentStatus.shouldReject = true ↔
    execution.config.maxWaitersForShed ≤ execution.waitingCount := by
  unfold ExecutionSemaphore.currentStatus statusFromConfigAndState calculateBackpressureStatus
  split_ifs with shed
  · exact iff_of_true rfl shed
  all_goals exact iff_of_false nofun shed

theorem enter_balance (execution : ExecutionSemaphore) : execution.enter.2.semaphore = execution.semaphore ∧
    execution.enter.2.availablePermits = execution.availablePermits ∧ execution.enter.2.config = execution.config ∧
    (execution.enter.1 = none ↔ execution.waitingCount + 1 < execution.config.maxWaitersForShed) := by
  unfold ExecutionSemaphore.enter
  simp only [shouldReject_iff]
  split_ifs with shed
  · exact ⟨rfl, rfl, rfl, iff_of_false nofun (UInt64.not_lt.mpr shed)⟩
  · exact ⟨rfl, rfl, rfl, iff_of_true rfl (UInt64.not_le.mp shed)⟩

theorem acquire_moves :
    Moves pool.balance (pool.ReleasesTwice .acquire) (pool.LeavesCounter .acquire) pool.acquire.2.balance := by
  obtain ⟨semaphore, hc, _, room⟩ := enter_balance pool.execution
  have once : ¬ pool.ReleasesTwice .acquire := fun twice => nomatch twice.1
  have free := pool.execution.semaphore.tryAcquire_isSome
  unfold acquire
  rcases he : pool.execution.enter with ⟨shed | shed, execution⟩
  · rw [he] at semaphore hc room
    simp only at semaphore hc room ⊢
    rw [← semaphore] at free
    split
    · rename_i taken ha
      rw [ha, semaphore] at free
      exact granted_moves (Semaphore.tryAcquire_free ha) (by rw [semaphore]) hc once ⟨room.mp trivial, free.mp rfl⟩
    · rename_i full
      rw [full, semaphore] at free
      have same : Pool.balance
          { pool with execution := { execution with semaphore := execution.semaphore.wait } } = pool.balance := by
        simp [balance, semaphore, hc]
      rw [same]
      exact .quiet once fun left => nomatch free.mpr left.2
  · rw [he] at semaphore hc room
    simp only [reduceCtorEq, false_iff] at semaphore hc room
    have same : (pool.settle (shed, execution)).2.balance = pool.balance := by
      simp [settle, balance, semaphore, hc]
    rw [same]
    exact .quiet once fun left => room left.1

variable (call : Call)

theorem step_moves :
    Moves pool.balance (pool.ReleasesTwice call) (pool.LeavesCounter call) (step pool call).2.balance := by
  have once (other : call ≠ .dropGuard) : ¬ pool.ReleasesTwice call := fun twice => other twice.1
  cases call with
  | tryAcquire =>
    unfold step
    cases ha : pool.execution.tryAcquire with
    | none => exact .quiet (once nofun) id
    | some execution =>
      obtain ⟨ht, hc, _⟩ := tryAcquire_balance ha
      have same : Pool.balance { pool with execution, permits := pool.permits + 1 } =
          ⟨pool.balance.held + 1, execution.semaphore.free, pool.balance.counter - 1⟩ := by
        simp [balance, hc, Nat.add_right_comm]
      rw [same]
      exact .acquired ht (once nofun) id
  | tryAcquireGuard =>
    unfold step
    cases ha : pool.execution.tryAcquire with
    | none => exact .quiet (once nofun) id
    | some execution =>
      obtain ⟨ht, hc, _⟩ := tryAcquire_balance ha
      have same : Pool.balance { pool with execution, guards := pool.guards + 1 } =
          ⟨pool.balance.held + 1, execution.semaphore.free, pool.balance.counter - 1⟩ := by
        simp [balance, hc, Nat.add_assoc]
      rw [same]
      exact .acquired ht (once nofun) id
  | acquire => exact acquire_moves pool
  | resume =>
    simp only [step, Semaphore.poll]
    split_ifs with handed
    · exact granted_moves (Semaphore.poll_free (if_pos handed)) rfl rfl (once nofun) handed
    · exact .quiet (once nofun) handed
  | expire =>
    unfold step
    cases gone : pool.execution.semaphore.giveUp with
    | none => exact .quiet (once nofun) id
    | some semaphore =>
      have same : (pool.settle (pool.execution.timedOut semaphore)).2.balance = pool.balance := by
        simp [settle, ExecutionSemaphore.timedOut, balance, Semaphore.giveUp_free gone]
      simp only [same]
      exact .quiet (once nofun) id
  | dropPermit =>
    unfold step
    simp only
    split_ifs with held
    · have same : Pool.balance { pool with execution := pool.execution.dropPermit, permits := pool.permits - 1 } =
          ⟨pool.permits - 1 + pool.guards, pool.balance.free + 1, pool.balance.counter⟩ := by
        simp [balance, ExecutionSemaphore.dropPermit]
      rw [same]
      refine .permit ?_ (once nofun) held
      simp only [balance]
      omega
    · exact .quiet (once nofun) held
  | dropGuard =>
    unfold step
    simp only
    split_ifs with held
    · have same : Pool.balance { pool with execution := pool.execution.dropGuard, guards := pool.guards - 1 } =
          ⟨pool.permits + (pool.guards - 1), pool.balance.free + 2, pool.balance.counter + 1⟩ := by
        simp [balance, ExecutionSemaphore.dropGuard, ExecutionSemaphore.dropPermit, ExecutionSemaphore.releasePermit]
      rw [same]
      refine .guarded ?_ ⟨rfl, held⟩
      simp only [balance]
      omega
    · exact .quiet (fun twice => held twice.2) id

theorem step_config : (step pool call).2.execution.config = pool.execution.config := by
  have he := (enter_balance pool.execution).2.2.1
  cases call with
  | tryAcquire | tryAcquireGuard =>
    unfold step
    cases ha : pool.execution.tryAcquire with
    | none => rfl
    | some execution => exact (tryAcquire_balance ha).2.2
  | acquire =>
    unfold step acquire
    rcases ho : pool.execution.enter with ⟨shed | shed, execution⟩
    · rw [ho] at he
      simp only
      split
      · exact he
      · exact he
    · rw [ho] at he
      exact he
  | resume | expire | dropPermit | dropGuard =>
    unfold step
    simp only
    split
    · rfl
    · rfl

/-- The capacity is kept at every moment of exactly the runs that drop no guard. The counter agrees with it as well in
    exactly those that also drop no permit and give none to an `acquire`. -/
theorem permits_conserved_iff (config : SemaphoreConfig) (calls : List Call) :
    (((new config).Whole ∧ ∀ event ∈ trace step (new config) calls, event.after.Whole) ↔
        ∀ event ∈ trace step (new config) calls, ¬ event.before.ReleasesTwice event.call) ∧
      (((new config).Conserved ∧ ∀ event ∈ trace step (new config) calls, event.after.Conserved) ↔
        ∀ event ∈ trace step (new config) calls,
          ¬ event.before.ReleasesTwice event.call ∧ ¬ event.before.LeavesCounter event.call) := by
  have start : (new config).balance.Settled config.maxConcurrentBinaries := by
    simp [Balance.Settled, balance, new, ExecutionSemaphore.new, Semaphore.new, Semaphore.free]
  have whole : (new config).Whole := (whole_iff _).mpr start.1
  have conserved : (new config).Conserved := (conserved_iff _).mpr start
  constructor
  · refine Iff.trans (and_iff_right whole) ?_
    refine forall_trace_iff step (fun _ _ => True) Whole (fun event => event.after.Whole)
      (fun event => ¬ event.before.ReleasesTwice event.call) ?_ whole (Guarded.trivial step _ calls)
    intro pool call hw _
    have exact : (step pool call).2.Whole ↔ ¬ pool.ReleasesTwice call := by
      rw [whole_iff, step_config]
      exact Balance.total_iff (step_moves pool call) ((whole_iff pool).mp hw)
    exact ⟨exact, exact.mpr⟩
  · refine Iff.trans (and_iff_right conserved) ?_
    refine forall_trace_iff step (fun _ _ => True) Conserved (fun event => event.after.Conserved)
      (fun event => ¬ event.before.ReleasesTwice event.call ∧ ¬ event.before.LeavesCounter event.call) ?_ conserved
      (Guarded.trivial step _ calls)
    intro pool call hc _
    have exact : (step pool call).2.Conserved ↔ ¬ pool.ReleasesTwice call ∧ ¬ pool.LeavesCounter call := by
      rw [conserved_iff, step_config]
      exact Balance.settled_iff (step_moves pool call) ((conserved_iff pool).mp hc)
    exact ⟨exact, exact.mpr⟩

end

section Sample

def sampleConfig : SemaphoreConfig := ⟨2, 100⟩

@[reducible] def sampleRatio : UsageRatio := ⟨fun used total tenths => total.toNat * tenths < used.toNat * 10⟩

def sampleAfter (calls : List Call) : Pool := final (@step sampleRatio) (new sampleConfig) calls

/-- A guard that is dropped leaves three permits out of two. -/
theorem permit_leaks : ¬ @Whole sampleRatio (sampleAfter [.tryAcquireGuard, .dropGuard]) ∧
    ¬ @Conserved sampleRatio (sampleAfter [.tryAcquireGuard, .dropGuard]) ∧
    @TriesLeft sampleRatio (sampleAfter [.tryAcquireGuard, .dropGuard]) 3 := by
  simp only [whole_iff, conserved_iff, triesLeft_iff, Balance.Settled]
  decide +kernel

/-- An admitted `acquire` lowers the counter for good. -/
example : (sampleAfter [.acquire]).execution.availablePermits = 1 ∧
    @TriesLeft sampleRatio (sampleAfter [.acquire]) 2 := by
  simp only [triesLeft_iff]
  decide +kernel

end Sample

end Pool

end Veloxide.Actor
