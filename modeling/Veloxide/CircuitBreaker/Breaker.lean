import Veloxide.Library.Execution
import Veloxide.Library.Keyspace
import Veloxide.Types.Workflow

namespace Veloxide.CircuitBreaker

open OrderedStore

abbrev Instant := Nat

abbrev Duration := Nat

def durationSince (now earlier : Instant) : Duration := now - earlier

inductive RegistrationStatus
  | active
  | deactivated
  | quarantined
  | deleted
deriving DecidableEq

structure CircuitBreakerConfig where
  rateLimitWindow : Duration
  failureWindow : Duration
  failureThreshold : UInt8
deriving DecidableEq

structure FailureRecord where
  hash : BinaryHash
  failedAt : Instant
deriving DecidableEq

structure FailureWindow where
  records : List FailureRecord
deriving DecidableEq

structure RegistrationRequest where
  workflowName : WorkflowName
  binaryHash : BinaryHash
  force : Option String

inductive RegistrationOutcome
  | allowed
  | rateLimited (retryAfterSecs : UInt64)
  | workflowQuarantined (workflowName : WorkflowName)
  | workflowDeactivated (workflowName : WorkflowName)
  | forceUnauthorized
deriving DecidableEq

structure QuarantineEvent where
  workflowName : WorkflowName
deriving DecidableEq

structure UnquarantineResult where
  workflowName : WorkflowName
  previousStatus : RegistrationStatus
  newStatus : RegistrationStatus
  failuresCleared : Nat
deriving DecidableEq

inductive CircuitBreakerError
  | rateLimited (retryAfterSecs : UInt64)
  | workflowQuarantined (workflowName : String)
  | workflowDeactivated (workflowName : String)
  | storageError (reason : String)
  | workflowNotFound (workflowName : String)
  | notQuarantined (workflowName : String) (currentStatus : RegistrationStatus)
deriving DecidableEq

section

def refresh (hash : BinaryHash) (failedAt : Instant) : List FailureRecord → List FailureRecord
  | [] => []
  | record :: records =>
    if record.hash = hash then ⟨record.hash, failedAt⟩ :: records else record :: refresh hash failedAt records

def partitionPoint (failedAt : Instant) (records : List FailureRecord) : Nat :=
  (records.takeWhile fun record => record.failedAt ≤ failedAt).length

def recordFailureInWindow (window : FailureWindow) (hash : BinaryHash) (failedAt : Instant)
    (windowDuration : Duration) : Nat × FailureWindow :=
  let records := window.records.filter fun record => durationSince failedAt record.failedAt ≤ windowDuration
  let records := if records.any fun record => record.hash = hash then
      (refresh hash failedAt records).mergeSort fun first second => first.failedAt ≤ second.failedAt
    else records.insertIdx (partitionPoint failedAt records) ⟨hash, failedAt⟩
  (records.length, ⟨records⟩)

end

def checkRateLimit (lastRegistration : Option Instant) (rateLimitWindow : Duration) (now : Instant) : Option UInt64 :=
  match lastRegistration with
  | none => none
  | some last =>
    let elapsed := durationSince now last
    if rateLimitWindow ≤ elapsed then none
    else
      let remaining := rateLimitWindow - elapsed
      some (UInt64.ofNat (remaining / 10 ^ 9) + if 0 < remaining % 10 ^ 9 then 1 else 0)

def updateRateLimit (now : Instant) : Instant := now

structure CircuitBreakerState where
  statuses : Store WorkflowName RegistrationStatus
  rateLimiter : Store WorkflowName Instant
  failureTracker : Store WorkflowName FailureWindow
  operatorTokens : Store String Unit

namespace CircuitBreakerState

def new : CircuitBreakerState := ⟨∅, ∅, ∅, ∅⟩

def getStatus (state : CircuitBreakerState) (workflowName : WorkflowName) : RegistrationStatus :=
  state.statuses[workflowName]?.getD .active

def setStatus (state : CircuitBreakerState) (workflowName : WorkflowName) (status : RegistrationStatus) :
    CircuitBreakerState :=
  { state with statuses := state.statuses.insert workflowName status }

def setRateLimit (state : CircuitBreakerState) (workflowName : WorkflowName) (timestamp : Instant) :
    CircuitBreakerState :=
  { state with rateLimiter := state.rateLimiter.insert workflowName timestamp }

def getFailureCount (state : CircuitBreakerState) (workflowName : WorkflowName) : Nat :=
  (state.failureTracker[workflowName]?.map fun window => window.records.length).getD 0

end CircuitBreakerState

def evaluateRegistration (config : CircuitBreakerConfig) (state : CircuitBreakerState) (request : RegistrationRequest)
    (now : Instant) : Except CircuitBreakerError RegistrationOutcome × CircuitBreakerState :=
  let workflowName := request.workflowName
  match request.force with
  | some token =>
    if token ∉ state.operatorTokens then (.ok .forceUnauthorized, state)
    else (.ok .allowed, state.setRateLimit workflowName (updateRateLimit now))
  | none =>
    match state.getStatus workflowName with
    | .quarantined => (.ok (.workflowQuarantined workflowName), state)
    | .deactivated => (.ok (.workflowDeactivated workflowName), state)
    | .deleted => (.ok (.workflowDeactivated workflowName), state)
    | .active =>
      match state.rateLimiter[workflowName]? with
      | some last =>
        match checkRateLimit (some last) config.rateLimitWindow now with
        | some retryAfterSecs => (.ok (.rateLimited retryAfterSecs), state)
        | none => (.ok .allowed, state.setRateLimit workflowName (updateRateLimit now))
      | none => (.ok .allowed, state.setRateLimit workflowName (updateRateLimit now))

def recordFailure (config : CircuitBreakerConfig) (state : CircuitBreakerState) (workflowName : WorkflowName)
    (binaryHash : BinaryHash) (now : Instant) :
    Except CircuitBreakerError (Option QuarantineEvent) × CircuitBreakerState :=
  if state.getStatus workflowName = .quarantined then (.ok none, state)
  else
    let window := state.failureTracker[workflowName]?.getD ⟨[]⟩
    let (uniqueCount, window) := recordFailureInWindow window binaryHash now config.failureWindow
    let state := { state with failureTracker := state.failureTracker.insert workflowName window }
    if config.failureThreshold.toNat ≤ uniqueCount then
      (.ok (some ⟨workflowName⟩), state.setStatus workflowName .quarantined)
    else (.ok none, state)

def unquarantine (state : CircuitBreakerState) (workflowName : WorkflowName) (_operator : String) :
    Except CircuitBreakerError UnquarantineResult × CircuitBreakerState :=
  match state.statuses[workflowName]? with
  | none => (.error (.workflowNotFound workflowName.value), state)
  | some currentStatus =>
    if currentStatus ≠ .quarantined then (.error (.notQuarantined workflowName.value currentStatus), state)
    else
      let failuresCleared := state.getFailureCount workflowName
      let state := state.setStatus workflowName .active
      let state := { state with
        failureTracker := state.failureTracker.erase workflowName
        rateLimiter := state.rateLimiter.erase workflowName }
      (.ok ⟨workflowName, .quarantined, .active, failuresCleared⟩, state)

section

inductive Call
  | evaluateRegistration (request : RegistrationRequest) (now : Instant)
  | recordFailure (workflowName : WorkflowName) (binaryHash : BinaryHash) (now : Instant)
  | unquarantine (workflowName : WorkflowName) (operator : String)

inductive Reply
  | evaluated (result : Except CircuitBreakerError RegistrationOutcome)
  | recorded (result : Except CircuitBreakerError (Option QuarantineEvent))
  | unquarantined (result : Except CircuitBreakerError UnquarantineResult)
deriving DecidableEq

def Call.workflowName : Call → WorkflowName
  | .evaluateRegistration request _ => request.workflowName
  | .recordFailure workflowName _ _ => workflowName
  | .unquarantine workflowName _ => workflowName

def Call.time : Call → Option Instant
  | .evaluateRegistration _ now => some now
  | .recordFailure _ _ now => some now
  | .unquarantine _ _ => none

def step (config : CircuitBreakerConfig) (state : CircuitBreakerState) : Call → Reply × CircuitBreakerState
  | .evaluateRegistration request now => (evaluateRegistration config state request now).map .evaluated id
  | .recordFailure workflowName binaryHash now =>
    (CircuitBreaker.recordFailure config state workflowName binaryHash now).map .recorded id
  | .unquarantine workflowName operator => (CircuitBreaker.unquarantine state workflowName operator).map .unquarantined id

abbrev Event := Machine.Event CircuitBreakerState Call Reply

def Timed (calls : List Call) : Prop := (calls.filterMap Call.time).Pairwise (· ≤ ·)

end

section

structure Account where
  status : Option RegistrationStatus
  lastRegistration : Option Instant
  window : Option FailureWindow

def CircuitBreakerState.account (state : CircuitBreakerState) (workflowName : WorkflowName) : Account :=
  ⟨state.statuses[workflowName]?, state.rateLimiter[workflowName]?, state.failureTracker[workflowName]?⟩

def Account.standing (account : Account) : RegistrationStatus := account.status.getD .active

def Account.records (account : Account) : List FailureRecord := (account.window.getD ⟨[]⟩).records

variable (config : CircuitBreakerConfig) (tokens : Store String Unit)

inductive Moves : Account → Call → Reply → Account → Prop
  | unauthorized {account : Account} {request : RegistrationRequest} {now : Instant} {token : String}
      (forced : request.force = some token) (unknown : token ∉ tokens) :
      Moves account (.evaluateRegistration request now) (.evaluated (.ok .forceUnauthorized)) account
  | forced {account : Account} {request : RegistrationRequest} {now : Instant} {token : String}
      (forced : request.force = some token) (known : token ∈ tokens) :
      Moves account (.evaluateRegistration request now) (.evaluated (.ok .allowed))
        { account with lastRegistration := some now }
  | blocked {account : Account} {request : RegistrationRequest} {now : Instant} {outcome : RegistrationOutcome}
      (unforced : request.force = none) (inactive : account.standing ≠ .active)
      (outcome_eq : outcome = .workflowQuarantined request.workflowName ∨
        outcome = .workflowDeactivated request.workflowName) :
      Moves account (.evaluateRegistration request now) (.evaluated (.ok outcome)) account
  | limited {account : Account} {request : RegistrationRequest} {now last : Instant} {retryAfterSecs : UInt64}
      (unforced : request.force = none) (active : account.standing = .active)
      (registered : account.lastRegistration = some last)
      (limited : checkRateLimit (some last) config.rateLimitWindow now = some retryAfterSecs) :
      Moves account (.evaluateRegistration request now) (.evaluated (.ok (.rateLimited retryAfterSecs))) account
  | registered {account : Account} {request : RegistrationRequest} {now : Instant}
      (unforced : request.force = none) (active : account.standing = .active)
      (free : checkRateLimit account.lastRegistration config.rateLimitWindow now = none) :
      Moves account (.evaluateRegistration request now) (.evaluated (.ok .allowed))
        { account with lastRegistration := some now }
  | ignored {account : Account} {workflowName : WorkflowName} {hash : BinaryHash} {now : Instant}
      (quarantined : account.standing = .quarantined) :
      Moves account (.recordFailure workflowName hash now) (.recorded (.ok none)) account
  | counted {account : Account} {workflowName : WorkflowName} {hash : BinaryHash} {now : Instant} {count : Nat}
      {window : FailureWindow} (open_ : account.standing ≠ .quarantined)
      (recorded : recordFailureInWindow ⟨account.records⟩ hash now config.failureWindow = (count, window))
      (below : count < config.failureThreshold.toNat) :
      Moves account (.recordFailure workflowName hash now) (.recorded (.ok none)) { account with window := some window }
  | tripped {account : Account} {workflowName : WorkflowName} {hash : BinaryHash} {now : Instant} {count : Nat}
      {window : FailureWindow} (open_ : account.standing ≠ .quarantined)
      (recorded : recordFailureInWindow ⟨account.records⟩ hash now config.failureWindow = (count, window))
      (reached : config.failureThreshold.toNat ≤ count) :
      Moves account (.recordFailure workflowName hash now) (.recorded (.ok (some ⟨workflowName⟩)))
        { account with status := some .quarantined, window := some window }
  | refused {account : Account} {workflowName : WorkflowName} {operator : String} {failure : CircuitBreakerError}
      (other : account.standing ≠ .quarantined) :
      Moves account (.unquarantine workflowName operator) (.unquarantined (.error failure)) account
  | released {account : Account} {workflowName : WorkflowName} {operator : String} {result : UnquarantineResult}
      (quarantined : account.standing = .quarantined) :
      Moves account (.unquarantine workflowName operator) (.unquarantined (.ok result)) ⟨some .active, none, none⟩

variable {config tokens} (state : CircuitBreakerState)

theorem getStatus_eq (workflowName : WorkflowName) :
    state.getStatus workflowName = (state.account workflowName).standing := rfl

theorem account_setRateLimit (workflowName : WorkflowName) (now : Instant) :
    (state.setRateLimit workflowName now).account workflowName =
      { state.account workflowName with lastRegistration := some now } := by
  simp [CircuitBreakerState.account, CircuitBreakerState.setRateLimit]

theorem evaluateRegistration_moves (request : RegistrationRequest) (now : Instant) :
    Moves config state.operatorTokens (state.account request.workflowName) (.evaluateRegistration request now)
      (.evaluated (evaluateRegistration config state request now).1)
      ((evaluateRegistration config state request now).2.account request.workflowName) := by
  rw [evaluateRegistration]
  cases hf : request.force with
  | some token =>
    dsimp only
    split_ifs with known
    · rw [account_setRateLimit]
      exact .forced hf known
    · exact .unauthorized hf known
  | none =>
    cases hs : state.getStatus request.workflowName with
    | quarantined => exact .blocked hf (by rw [← getStatus_eq, hs]; simp) (.inl rfl)
    | deactivated | deleted => exact .blocked hf (by rw [← getStatus_eq, hs]; simp) (.inr rfl)
    | active =>
      cases hr : state.rateLimiter[request.workflowName]? with
      | none =>
        dsimp only
        rw [account_setRateLimit]
        refine .registered hf hs ?_
        rw [show (state.account request.workflowName).lastRegistration = none from hr]
        rfl
      | some last =>
        have same : (state.account request.workflowName).lastRegistration = some last := hr
        cases hc : checkRateLimit (some last) config.rateLimitWindow now with
        | some secs =>
          simp only [hc]
          exact .limited hf hs same hc
        | none =>
          simp only [hc]
          rw [account_setRateLimit]
          exact .registered hf hs (by rw [same, hc])

theorem recordFailure_moves (workflowName : WorkflowName) (hash : BinaryHash) (now : Instant) :
    Moves config state.operatorTokens (state.account workflowName) (.recordFailure workflowName hash now)
      (.recorded (recordFailure config state workflowName hash now).1)
      ((recordFailure config state workflowName hash now).2.account workflowName) := by
  rw [recordFailure]
  split_ifs with quarantined
  · exact .ignored quarantined
  · rcases hr : recordFailureInWindow (state.failureTracker[workflowName]?.getD ⟨[]⟩) hash now
      config.failureWindow with ⟨count, window⟩
    simp only [hr]
    split_ifs with reached
    · have hm := @Moves.tripped config state.operatorTokens (state.account workflowName) workflowName hash now _ _
        quarantined hr reached
      simpa [CircuitBreakerState.account, CircuitBreakerState.setStatus] using hm
    · have hm := @Moves.counted config state.operatorTokens (state.account workflowName) workflowName hash now _ _
        quarantined hr (Nat.not_le.mp reached)
      simpa [CircuitBreakerState.account] using hm

theorem unquarantine_moves (workflowName : WorkflowName) (operator : String) :
    Moves config state.operatorTokens (state.account workflowName) (.unquarantine workflowName operator)
      (.unquarantined (unquarantine state workflowName operator).1)
      ((unquarantine state workflowName operator).2.account workflowName) := by
  rw [unquarantine]
  have hs : (state.account workflowName).standing = state.statuses[workflowName]?.getD .active := rfl
  cases held : state.statuses[workflowName]? with
  | none =>
    rw [held] at hs
    exact .refused (by rw [hs]; simp)
  | some status =>
    rw [held] at hs
    dsimp only
    split_ifs with other
    · exact .refused (by rw [hs]; exact other)
    · have hm := @Moves.released config state.operatorTokens (state.account workflowName) workflowName operator
        ⟨workflowName, .quarantined, .active, state.getFailureCount workflowName⟩ (hs.trans (not_not.mp other))
      simpa [CircuitBreakerState.account, CircuitBreakerState.setStatus] using hm

theorem step_moves (call : Call) :
    Moves config state.operatorTokens (state.account call.workflowName) call (step config state call).1
      ((step config state call).2.account call.workflowName) := by
  cases call with
  | evaluateRegistration request now => exact evaluateRegistration_moves state request now
  | recordFailure workflowName hash now => exact recordFailure_moves state workflowName hash now
  | unquarantine workflowName operator => exact unquarantine_moves state workflowName operator

end

section

variable {config : CircuitBreakerConfig} {workflowName : WorkflowName} {state middle after twin : CircuitBreakerState}

structure Touches (workflowName : WorkflowName) (state after : CircuitBreakerState) : Prop where
  elsewhere : ∀ other, workflowName ≠ other → after.account other = state.account other
  tokens : after.operatorTokens = state.operatorTokens

theorem Touches.refl : Touches workflowName state state := ⟨fun _ _ => rfl, rfl⟩

theorem Touches.trans (hf : Touches workflowName state middle) (hs : Touches workflowName middle after) :
    Touches workflowName state after :=
  ⟨fun other hd => (hs.elsewhere other hd).trans (hf.elsewhere other hd), hs.tokens.trans hf.tokens⟩

theorem setRateLimit_touches (now : Instant) : Touches workflowName state (state.setRateLimit workflowName now) := by
  refine ⟨fun other hd => ?_, rfl⟩
  rw [CircuitBreakerState.account, CircuitBreakerState.setRateLimit, get_insert_of_ne _ hd]
  rfl

theorem setStatus_touches (status : RegistrationStatus) :
    Touches workflowName state (state.setStatus workflowName status) := by
  refine ⟨fun other hd => ?_, rfl⟩
  rw [CircuitBreakerState.account, CircuitBreakerState.setStatus, get_insert_of_ne _ hd]
  rfl

theorem insertWindow_touches (window : FailureWindow) :
    Touches workflowName state { state with failureTracker := state.failureTracker.insert workflowName window } := by
  refine ⟨fun other hd => ?_, rfl⟩
  rw [CircuitBreakerState.account, get_insert_of_ne _ hd]
  rfl

theorem clear_touches : Touches workflowName state { state with
    failureTracker := state.failureTracker.erase workflowName
    rateLimiter := state.rateLimiter.erase workflowName } := by
  refine ⟨fun other hd => ?_, rfl⟩
  rw [CircuitBreakerState.account, get_erase, get_erase, if_neg hd, if_neg hd]
  rfl

theorem evaluateRegistration_touches (request : RegistrationRequest) (now : Instant) :
    Touches request.workflowName state (evaluateRegistration config state request now).2 := by
  rw [evaluateRegistration]
  split
  · split_ifs
    · exact setRateLimit_touches now
    · exact .refl
  · split
    · exact .refl
    · exact .refl
    · exact .refl
    · split
      · split
        · exact .refl
        · exact setRateLimit_touches now
      · exact setRateLimit_touches now

theorem recordFailure_touches (hash : BinaryHash) (now : Instant) :
    Touches workflowName state (recordFailure config state workflowName hash now).2 := by
  rw [recordFailure]
  split_ifs
  · exact .refl
  · dsimp only
    split_ifs
    · exact (insertWindow_touches _).trans (setStatus_touches _)
    · exact insertWindow_touches _

theorem unquarantine_touches (operator : String) :
    Touches workflowName state (unquarantine state workflowName operator).2 := by
  rw [unquarantine]
  split
  · exact .refl
  · split_ifs
    · exact .refl
    · exact (setStatus_touches .active).trans clear_touches

theorem step_touches (call : Call) : Touches call.workflowName state (step config state call).2 := by
  cases call with
  | evaluateRegistration request now => exact evaluateRegistration_touches request now
  | recordFailure workflowName hash now => exact recordFailure_touches hash now
  | unquarantine workflowName operator => exact unquarantine_touches operator

section

variable (same : twin.account workflowName = state.account workflowName)

include same

theorem statuses_congr : twin.statuses[workflowName]? = state.statuses[workflowName]? := congrArg Account.status same

theorem rateLimiter_congr : twin.rateLimiter[workflowName]? = state.rateLimiter[workflowName]? :=
  congrArg Account.lastRegistration same

theorem failureTracker_congr : twin.failureTracker[workflowName]? = state.failureTracker[workflowName]? :=
  congrArg Account.window same

theorem getStatus_congr : twin.getStatus workflowName = state.getStatus workflowName := congrArg Account.standing same

theorem getFailureCount_congr : twin.getFailureCount workflowName = state.getFailureCount workflowName := by
  rw [CircuitBreakerState.getFailureCount, failureTracker_congr same]
  rfl

theorem setRateLimit_congr (now : Instant) : (twin.setRateLimit workflowName now).account workflowName =
      (state.setRateLimit workflowName now).account workflowName := by
  rw [account_setRateLimit, account_setRateLimit, same]

theorem recordFailure_congr (hash : BinaryHash) (now : Instant) :
    (recordFailure config twin workflowName hash now).1 = (recordFailure config state workflowName hash now).1 ∧
      (recordFailure config twin workflowName hash now).2.account workflowName =
        (recordFailure config state workflowName hash now).2.account workflowName := by
  rw [recordFailure, recordFailure, getStatus_congr same, failureTracker_congr same]
  by_cases hq : state.getStatus workflowName = .quarantined
  · rw [if_pos hq, if_pos hq]
    exact ⟨rfl, same⟩
  · rw [if_neg hq, if_neg hq]
    dsimp only
    split_ifs with reached
    · simp [CircuitBreakerState.account, CircuitBreakerState.setStatus, rateLimiter_congr same]
    · simp [CircuitBreakerState.account, rateLimiter_congr same, statuses_congr same]

theorem unquarantine_congr (operator : String) :
    (unquarantine twin workflowName operator).1 = (unquarantine state workflowName operator).1 ∧
      (unquarantine twin workflowName operator).2.account workflowName =
        (unquarantine state workflowName operator).2.account workflowName := by
  rw [unquarantine, unquarantine, statuses_congr same, getFailureCount_congr same]
  cases state.statuses[workflowName]? with
  | none => exact ⟨rfl, same⟩
  | some status =>
    dsimp only
    by_cases ho : status ≠ .quarantined
    · rw [if_pos ho, if_pos ho]
      exact ⟨rfl, same⟩
    · rw [if_neg ho, if_neg ho]
      refine ⟨rfl, ?_⟩
      simp [CircuitBreakerState.account, CircuitBreakerState.setStatus]

end

theorem evaluateRegistration_congr (request : RegistrationRequest) (now : Instant)
    (same : twin.account request.workflowName = state.account request.workflowName)
    (tokens : twin.operatorTokens = state.operatorTokens) :
    (evaluateRegistration config twin request now).1 = (evaluateRegistration config state request now).1 ∧
      (evaluateRegistration config twin request now).2.account request.workflowName =
        (evaluateRegistration config state request now).2.account request.workflowName := by
  rw [evaluateRegistration, evaluateRegistration, tokens, getStatus_congr same, rateLimiter_congr same]
  cases request.force with
  | some token =>
    dsimp only
    by_cases hu : token ∉ state.operatorTokens
    · rw [if_pos hu, if_pos hu]
      exact ⟨rfl, same⟩
    · rw [if_neg hu, if_neg hu]
      exact ⟨rfl, setRateLimit_congr same now⟩
  | none =>
    cases state.getStatus request.workflowName with
    | quarantined | deactivated | deleted => exact ⟨rfl, same⟩
    | active =>
      cases state.rateLimiter[request.workflowName]? with
      | none => exact ⟨rfl, setRateLimit_congr same now⟩
      | some last =>
        dsimp only
        cases checkRateLimit (some last) config.rateLimitWindow now with
        | none => exact ⟨rfl, setRateLimit_congr same now⟩
        | some secs => exact ⟨rfl, same⟩

theorem step_congr (call : Call) (same : twin.account call.workflowName = state.account call.workflowName)
    (tokens : twin.operatorTokens = state.operatorTokens) :
    (step config twin call).1 = (step config state call).1 ∧
      (step config twin call).2.account call.workflowName = (step config state call).2.account call.workflowName := by
  cases call with
  | evaluateRegistration request now =>
    obtain ⟨hr, account⟩ := @evaluateRegistration_congr config state twin request now same tokens
    exact ⟨congrArg Reply.evaluated hr, account⟩
  | recordFailure workflowName hash now =>
    obtain ⟨hr, account⟩ := @recordFailure_congr config workflowName state twin same hash now
    exact ⟨congrArg Reply.recorded hr, account⟩
  | unquarantine workflowName operator =>
    obtain ⟨hr, account⟩ := @unquarantine_congr workflowName state twin same operator
    exact ⟨congrArg Reply.unquarantined hr, account⟩

end

section Sample

def sampleWorkflow : WorkflowName := ⟨"checkout", by decide +kernel⟩

def sampleHash : BinaryHash := ⟨"abcdef01", by decide +kernel⟩

def sampleConfig : CircuitBreakerConfig := ⟨60 * 10 ^ 9, 600 * 10 ^ 9, 1⟩

end Sample

end Veloxide.CircuitBreaker
