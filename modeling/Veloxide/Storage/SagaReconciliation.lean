import Veloxide.Storage.CompensationSaga

namespace Veloxide.CompensationSaga

open Machine List Function

inductive ReconciliationAction
  | commitCompensation
  | retryCompensation
  | escalateToOperator
  | abandonCompensation
deriving DecidableEq

structure ReconciliationContext where
  effectId : String
  compensationEffectId : Option String
  lastKnownOutcome : Option String
  attempts : UInt32
  lastAttemptAt : Option UInt64

structure RetryReconciler where
  maxAttempts : UInt32

def RetryReconciler.reconcile (reconciler : RetryReconciler) (context : ReconciliationContext) : ReconciliationAction :=
  if context.attempts < reconciler.maxAttempts then .retryCompensation else .escalateToOperator

def CompensationEntry.withTimeout (entry : CompensationEntry) (timeoutMs : UInt64) : CompensationEntry :=
  { entry with timeoutMs := some timeoutMs }

def CompensationEntry.isTimedOut (entry : CompensationEntry) (now : UInt64) : Bool :=
  match entry.startedAt, entry.timeoutMs with
  | some started, some timeout => timeout < Unsigned.saturatingSub now started
  | _, _ => false

variable {entry : CompensationEntry} {action : ReconciliationAction}

namespace CompensationManifest

section

variable (manifest : CompensationManifest)

theorem mem_entries_of_get {manifest : CompensationManifest} {effectId : String}
    (hf : manifest.get effectId = some entry) : effectId ∈ manifest.entries :=
  AList.lookup_isSome.mp (by rw [get] at hf; rw [hf]; rfl)

variable (effectId : String)

def registerWithTimeout (policy : CompensationPolicy) (dependencies : List String) (timeoutMs now : UInt64) :
    Except CompensationError CompensationManifest := do
  let registered ← manifest.register effectId policy dependencies now
  match found : registered.get effectId with
  | none => .error (.notFound effectId)
  | some entry =>
    .ok { registered.replace effectId (entry.withTimeout timeoutMs) (mem_entries_of_get found) with
      version := registered.version }

def fail (now : UInt64) : Except CompensationError CompensationManifest := manifest.transitionTo effectId .failed now

def setAmbiguous (now : UInt64) : Except CompensationError CompensationManifest :=
  manifest.transitionTo effectId .ambiguous now

def setTimedOut (now : UInt64) : Except CompensationError CompensationManifest :=
  manifest.transitionTo effectId .timedOut now

def markAmbiguous (reconcile : ReconciliationContext → ReconciliationAction) (effectId : String) (now : UInt64) :
    Except CompensationError (ReconciliationAction × CompensationManifest) := do
  let marked ← manifest.setAmbiguous effectId now
  match marked.get effectId with
  | none => .error (.notFound effectId)
  | some entry =>
    .ok (reconcile ⟨effectId, entry.compensationEffectId, none, 0, entry.startedAt⟩, marked)

def handleReconciliation (action : ReconciliationAction) (now : UInt64) : Except CompensationError CompensationManifest :=
  match action with
  | .commitCompensation => manifest.transitionTo effectId .succeeded now
  | .retryCompensation => manifest.transitionTo effectId .pending now
  | .escalateToOperator => manifest.transitionTo effectId .failed now
  | .abandonCompensation => manifest.transitionTo effectId .failed now

variable (hash : HashOrder CompensationEntry)

def checkTimeouts (now : UInt64) : List String :=
  ((hash.iterate (manifest.entries.entries.map Sigma.snd)).filter fun entry =>
    entry.status = .inProgress && entry.isTimedOut now).map CompensationEntry.effectId

def expireEach (manifest : CompensationManifest) (now : UInt64) :
    List String → Except CompensationError Unit × CompensationManifest
  | [] => (.ok (), manifest)
  | effectId :: rest =>
    match manifest.setTimedOut effectId now with
    | .ok expired => expireEach expired now rest
    | .error failure => (.error failure, manifest)

def expireTimedOut (now : UInt64) : Except CompensationError Unit × CompensationManifest :=
  manifest.expireEach now (manifest.checkTimeouts hash now)

end

section

variable {manifest after : CompensationManifest} {effectId : String} {now : UInt64} {policy : CompensationPolicy}
  {deps : List String}

theorem register_eq_ok (hr : manifest.register effectId policy deps now = .ok after) :
    manifest.get effectId = none ∧ ∀ other, after.get other =
      if other = effectId then some (.new effectId policy deps now) else manifest.get other := by
  rw [register] at hr
  split_ifs at hr with present
  cases hr
  refine ⟨AList.lookup_eq_none.mpr present, fun other => ?_⟩
  rw [get]
  split_ifs with same
  · subst same
    exact AList.lookup_insert _
  · exact AList.lookup_insert_ne same

theorem registerWithTimeout_eq_ok {timeoutMs : UInt64}
    (hr : manifest.registerWithTimeout effectId policy deps timeoutMs now = .ok after) :
    manifest.get effectId = none ∧ ∀ other, after.get other =
      if other = effectId then some ((CompensationEntry.new effectId policy deps now).withTimeout timeoutMs)
      else manifest.get other := by
  obtain ⟨middle, hf, hs⟩ := Except.bind_eq_ok.mp hr
  obtain ⟨hb, ha⟩ := register_eq_ok hf
  split at hs
  · cases hs
  · rename_i entry ho
    cases hs
    rw [ha, if_pos rfl] at ho
    cases ho
    refine ⟨hb, fun other => ?_⟩
    refine (get_replace _ (mem_entries_of_get ho) other).trans ?_
    split_ifs with same
    · rfl
    · rw [ha, if_neg same]

theorem markAmbiguous_eq_ok {reconcile : ReconciliationContext → ReconciliationAction}
    (hm : manifest.markAmbiguous reconcile effectId now = .ok (action, after)) :
    manifest.transitionTo effectId .ambiguous now = .ok after ∧
      ∃ context : ReconciliationContext, context.attempts = 0 ∧ action = reconcile context := by
  obtain ⟨middle, ho, ha⟩ := Except.bind_eq_ok.mp hm
  split at ha
  · cases ha
  · cases ha
    exact ⟨ho, _, rfl, rfl⟩

theorem get_expireEach (eids : List String) : ∀ manifest : CompensationManifest,
    (manifest.expireEach now eids).2.get effectId = manifest.get effectId ∨
      ∃ entry, manifest.get effectId = some entry ∧ entry.isTerminal = false ∧
        (manifest.expireEach now eids).2.get effectId = some (entry.moved .timedOut now) := by
  induction eids with
  | nil => exact fun manifest => .inl rfl
  | cons first rest ih =>
    intro manifest
    rw [expireEach]
    split
    · rename_i expired hm
      obtain ⟨entry, hf, ha, ho⟩ := transitionTo_eq_ok hm
      have here := ho effectId
      split_ifs at here with same
      · subst same
        rcases ih expired with kept | ⟨_, hp, hr, _⟩
        · exact .inr ⟨entry, hf, ha, kept.trans here⟩
        · rw [here] at hp
          cases hp
          cases hr
      · rw [← here]
        exact ih expired
    · exact .inl rfl

end

end CompensationManifest

/-- The manifest of a saga and, for each effect, the action that its caller has been given and not yet handled. -/
structure Saga where
  manifest : CompensationManifest
  advised : String → Option ReconciliationAction

namespace Saga

inductive Call
  | register (effectId : String) (policy : CompensationPolicy) (dependencies : List String) (now : UInt64)
  | registerWithTimeout (effectId : String) (policy : CompensationPolicy) (dependencies : List String)
      (timeoutMs now : UInt64)
  | queuePending (effectId : String) (now : UInt64)
  | startCompensation (effectId : String) (now : UInt64)
  | succeed (effectId : String) (now : UInt64)
  | fail (effectId : String) (now : UInt64)
  | markAmbiguous (effectId : String) (now : UInt64)
  | handleReconciliation (effectId : String) (action : ReconciliationAction) (now : UInt64)
  | expireTimedOut (now : UInt64)

abbrev Reply := Except CompensationError (Option ReconciliationAction)

def new : Saga := ⟨.empty, fun _ => none⟩

def commit (saga : Saga) (result : Except CompensationError CompensationManifest) : Reply × Saga := match result with
  | .ok manifest => (.ok none, { saga with manifest := manifest })
  | .error failure => (.error failure, saga)

section

variable (hash : HashOrder CompensationEntry) (reconciler : RetryReconciler) (saga : Saga)

def step : Call → Reply × Saga
  | .register effectId policy dependencies now =>
    saga.commit (saga.manifest.register effectId policy dependencies now)
  | .registerWithTimeout effectId policy dependencies timeoutMs now =>
    saga.commit (saga.manifest.registerWithTimeout effectId policy dependencies timeoutMs now)
  | .queuePending effectId now => saga.commit (saga.manifest.queuePending effectId now)
  | .startCompensation effectId now => saga.commit (saga.manifest.startCompensation effectId now)
  | .succeed effectId now => saga.commit (saga.manifest.succeed effectId now)
  | .fail effectId now => saga.commit (saga.manifest.fail effectId now)
  | .markAmbiguous effectId now =>
    match saga.manifest.markAmbiguous reconciler.reconcile effectId now with
    | .ok (action, manifest) => (.ok (some action), ⟨manifest, update saga.advised effectId (some action)⟩)
    | .error failure => (.error failure, saga)
  | .handleReconciliation effectId action now =>
    { saga with advised := update saga.advised effectId none }.commit
      (saga.manifest.handleReconciliation effectId action now)
  | .expireTimedOut now =>
    let (result, manifest) := saga.manifest.expireTimedOut hash now
    (result.map fun _ => none, { saga with manifest := manifest })

/-- An effect is queued once, and what is handled is what `mark_ambiguous` returned for the effect. -/
def Reconciled : Call → Prop
  | .queuePending effectId _ => ∀ entry, saga.manifest.get effectId = some entry → entry.status = .registered
  | .handleReconciliation effectId action _ => saga.advised effectId = some action
  | _ => True

variable (effectId : String)

def isStart (event : Event Saga Call Reply) : Bool := match event.call with
  | .startCompensation other _ => other = effectId && event.reply.isOk
  | _ => false

def restarts (history : List (Event Saga Call Reply)) : Nat := history.countP (isStart effectId) - 1

end

variable {call : Call} {after : Option CompensationEntry}

section

variable {hash : HashOrder CompensationEntry} {reconciler : RetryReconciler} {saga : Saga} {effectId : String}

inductive Outcome (saga : Saga) (effectId : String) : Call → Option CompensationEntry → Prop
  | same (call : Call) : Outcome saga effectId call (saga.manifest.get effectId)
  | registered (call : Call) (entry : CompensationEntry) (absent : saga.manifest.get effectId = none)
      (status : entry.status = .registered) : Outcome saga effectId call (some entry)
  | queued (entry : CompensationEntry) (now : UInt64) (found : saga.manifest.get effectId = some entry)
      (active : entry.isTerminal = false) :
      Outcome saga effectId (.queuePending effectId now) (some (entry.moved .pending now))
  | started (entry : CompensationEntry) (now : UInt64) (found : saga.manifest.get effectId = some entry)
      (status : entry.status = .pending) :
      Outcome saga effectId (.startCompensation effectId now) (some (entry.moved .inProgress now))
  | retried (entry : CompensationEntry) (now : UInt64) (found : saga.manifest.get effectId = some entry)
      (active : entry.isTerminal = false) :
      Outcome saga effectId (.handleReconciliation effectId .retryCompensation now)
        (some (entry.moved .pending now))
  | left (call : Call) (entry : CompensationEntry) (status : SagaCompensationStatus) (now : UInt64)
      (found : saga.manifest.get effectId = some entry) (active : entry.isTerminal = false)
      (away : status = .succeeded ∨ status = .failed ∨ status = .ambiguous ∨ status = .timedOut) :
      Outcome saga effectId call (some (entry.moved status now))

theorem outcome_of_transition {advised : String → Option ReconciliationAction} (target : String)
    (status : SagaCompensationStatus) (now : UInt64)
    (hm : ∀ entry, target = effectId → saga.manifest.get effectId = some entry → entry.isTerminal = false →
      Outcome saga effectId call (some (entry.moved status now))) : Outcome saga effectId call
      ((Saga.commit ⟨saga.manifest, advised⟩ (saga.manifest.transitionTo target status now)).2.manifest.get
        effectId) := by
  cases hr : saga.manifest.transitionTo target status now with
  | error err => exact .same call
  | ok after =>
    obtain ⟨entry, hf, ha, ho⟩ := CompensationManifest.transitionTo_eq_ok hr
    rw [commit, ho]
    split_ifs with same
    · subst same
      exact hm entry rfl hf ha
    · exact .same call

theorem step_outcome (call : Call) :
    Outcome saga effectId call ((step hash reconciler saga call).2.manifest.get effectId) := by
  cases call with
  | register target policy deps now =>
    rw [step]
    cases hr : saga.manifest.register target policy deps now with
    | error err => exact .same _
    | ok after =>
      obtain ⟨ha, ho⟩ := CompensationManifest.register_eq_ok hr
      rw [commit, ho]
      split_ifs with same
      · subst same
        exact .registered _ _ ha rfl
      · exact .same _
  | registerWithTimeout target policy deps timeoutMs now =>
    rw [step]
    cases hr : saga.manifest.registerWithTimeout target policy deps timeoutMs now with
    | error err => exact .same _
    | ok after =>
      obtain ⟨ha, ho⟩ := CompensationManifest.registerWithTimeout_eq_ok hr
      rw [commit, ho]
      split_ifs with same
      · subst same
        exact .registered _ _ ha rfl
      · exact .same _
  | queuePending target now =>
    rw [step, CompensationManifest.queuePending]
    split
    · exact .same _
    · split_ifs
      · exact .same _
      · refine outcome_of_transition target .pending now fun entry same hf hc => ?_
        subst same
        exact .queued entry now hf hc
  | startCompensation target now =>
    rw [step, CompensationManifest.startCompensation]
    split_ifs with unable
    · exact .same _
    · refine outcome_of_transition target .inProgress now fun entry same hf hc => ?_
      subst same
      have able : saga.manifest.canExecute target = true := by simpa using unable
      obtain ⟨present, here, hs⟩ := CompensationManifest.isPending_iff.mp (CompensationManifest.canExecute_iff.mp able).1
      rw [hf] at here
      cases here
      exact .started entry now hf hs
  | succeed target now =>
    exact outcome_of_transition target .succeeded now fun entry _ hf hc =>
      .left _ entry _ now hf hc (.inl rfl)
  | fail target now =>
    exact outcome_of_transition target .failed now fun entry _ hf hc =>
      .left _ entry _ now hf hc (.inr (.inl rfl))
  | markAmbiguous target now =>
    rw [step]
    split
    · rename_i action after hm
      obtain ⟨hr, _⟩ := CompensationManifest.markAmbiguous_eq_ok hm
      obtain ⟨entry, hf, hc, ho⟩ := CompensationManifest.transitionTo_eq_ok hr
      rw [ho]
      split_ifs with same
      · subst same
        exact .left _ entry _ now hf hc (.inr (.inr (.inl rfl)))
      · exact .same _
    · exact .same _
  | handleReconciliation target action now =>
    cases action with
    | commitCompensation =>
      exact outcome_of_transition target .succeeded now fun entry _ hf hc =>
        .left _ entry _ now hf hc (.inl rfl)
    | retryCompensation =>
      refine outcome_of_transition target .pending now fun entry same hf hc => ?_
      subst same
      exact .retried entry now hf hc
    | escalateToOperator | abandonCompensation =>
      exact outcome_of_transition target .failed now fun entry _ hf hc =>
        .left _ entry _ now hf hc (.inr (.inl rfl))
  | expireTimedOut now =>
    rcases CompensationManifest.get_expireEach (saga.manifest.checkTimeouts hash now) saga.manifest with
      kept | ⟨entry, hf, hc, he⟩
    · exact kept ▸ Outcome.same _
    · exact he ▸ Outcome.left _ entry _ now hf hc (.inr (.inr (.inr rfl)))

theorem Outcome.of_terminal (ho : Outcome saga effectId call after)
    (hf : saga.manifest.get effectId = some entry) (ht : entry.isTerminal = true) : after = some entry := by
  have idle : ∀ present, saga.manifest.get effectId = some present → present.isTerminal ≠ false := by
    intro present here
    rw [hf] at here
    cases here
    rw [ht]
    decide
  cases ho with
  | same => exact hf
  | registered call present ha => exact absurd (ha.symm.trans hf) (by simp)
  | queued present _ here hc => exact absurd hc (idle present here)
  | started present _ here hs =>
    exact absurd (by rw [CompensationEntry.isTerminal, hs]) (idle present here)
  | retried present _ here hc | left call present _ _ here hc => exact absurd hc (idle present here)

@[simp] theorem commit_advised (result : Except CompensationError CompensationManifest) :
    (saga.commit result).2.advised = saga.advised := by
  cases result with
  | ok manifest | error err => rfl

theorem advised_step (call : Call) (hd : (step hash reconciler saga call).2.advised effectId = some action) :
    saga.advised effectId = some action ∨
      action = if 0 < reconciler.maxAttempts then .retryCompensation else .escalateToOperator := by
  cases call with
  | markAmbiguous target now =>
    rw [step] at hd
    split at hd
    · rename_i given after hm
      obtain ⟨_, context, hf, ha⟩ := CompensationManifest.markAmbiguous_eq_ok hm
      by_cases same : effectId = target
      · subst same
        have given : given = action := by simpa using hd
        right
        rw [← given, ha, RetryReconciler.reconcile, hf]
      · left
        simpa [update_of_ne same] using hd
    · exact .inl hd
  | handleReconciliation target given now =>
    rw [step, commit_advised] at hd
    by_cases same : effectId = target
    · subst same
      simp at hd
    · left
      simpa [update_of_ne same] using hd
  | expireTimedOut now => exact .inl hd
  | _ =>
    rw [step, commit_advised] at hd
    exact .inl hd

theorem exists_of_isStart (hs : isStart effectId (event (step hash reconciler) saga call)) :
    ∃ entry now, saga.manifest.get effectId = some entry ∧ entry.status = .pending ∧
      (step hash reconciler saga call).2.manifest.get effectId = some (entry.moved .inProgress now) := by
  cases call with
  | startCompensation target now =>
    simp only [isStart, event, Bool.and_eq_true, decide_eq_true_eq] at hs
    obtain ⟨rfl, ha⟩ := hs
    rw [step, CompensationManifest.startCompensation] at ha ⊢
    split_ifs at ha ⊢ with unable
    · cases ha
    · cases hr : saga.manifest.transitionTo target .inProgress now with
      | error err =>
        rw [hr] at ha
        cases ha
      | ok after =>
        obtain ⟨entry, hf, _, ho⟩ := CompensationManifest.transitionTo_eq_ok hr
        have able : saga.manifest.canExecute target = true := by simpa using unable
        obtain ⟨present, here, ht⟩ :=
          CompensationManifest.isPending_iff.mp (CompensationManifest.canExecute_iff.mp able).1
        rw [hf] at here
        cases here
        refine ⟨entry, now, hf, ht, ?_⟩
        rw [commit, ho, if_pos rfl]
  | _ => cases hs

end

section

variable {hash : HashOrder CompensationEntry} {reconciler : RetryReconciler} {saga : Saga} {effectId : String}

/-- Without attempts the reconciler advises no retry, and what was started is neither registered nor pending. -/
structure Unrepeated (history : List (Event Saga Call Reply)) (saga : Saga) : Prop where
  escalated : ∀ effectId action, saga.advised effectId = some action → action = .escalateToOperator
  once : ∀ effectId, history.countP (isStart effectId) ≤ 1
  gone : ∀ effectId, 0 < history.countP (isStart effectId) → ∃ entry, saga.manifest.get effectId = some entry ∧
    entry.status ≠ .registered ∧ entry.status ≠ .pending

theorem Outcome.stays_gone (ho : Outcome saga effectId call after) (hp : Reconciled saga call)
    (he : ∀ action, saga.advised effectId = some action → action = .escalateToOperator)
    (hf : saga.manifest.get effectId = some entry) (hb : entry.status ≠ .registered ∧ entry.status ≠ .pending) :
    ∃ entry, after = some entry ∧ entry.status ≠ .registered ∧ entry.status ≠ .pending := by
  cases ho with
  | same => exact ⟨entry, hf, hb⟩
  | registered call present ha => exact absurd (ha.symm.trans hf) (by simp)
  | queued present now here hc => exact absurd (hp entry hf) hb.1
  | started present now here status =>
    rw [hf] at here
    cases here
    exact absurd status hb.2
  | retried present now here hc => exact absurd (he _ hp) (by decide)
  | left call present status now here hc away =>
    refine ⟨_, rfl, ?_⟩
    rcases away with rfl | rfl | rfl | rfl
    all_goals exact ⟨by simp [CompensationEntry.moved], by simp [CompensationEntry.moved]⟩

theorem Unrepeated.next {past : List (Event Saga Call Reply)} (none : reconciler.maxAttempts = 0)
    (hu : Unrepeated past saga) (hp : Reconciled saga call) :
    Unrepeated (past ++ [event (step hash reconciler) saga call]) (step hash reconciler saga call).2 := by
  have gone : ∀ effectId, isStart effectId (event (step hash reconciler) saga call) = true →
      past.countP (isStart effectId) = 0 := by
    intro effectId hs
    obtain ⟨entry, now, hf, he, _⟩ := exists_of_isStart hs
    by_contra hd
    obtain ⟨present, here, _, ho⟩ := hu.gone effectId (Nat.pos_of_ne_zero hd)
    rw [hf] at here
    cases here
    exact ho he
  refine ⟨fun effectId action ha => ?_, fun effectId => ?_, fun effectId hc => ?_⟩
  · rcases advised_step call ha with hb | fresh
    · exact hu.escalated effectId action hb
    · rw [fresh, none]
      rfl
  · rw [countP_append, countP_singleton]
    split_ifs with hs
    · rw [gone effectId hs]
    · exact hu.once effectId
  · by_cases hs : isStart effectId (event (step hash reconciler) saga call) = true
    · obtain ⟨entry, now, _, _, hr⟩ := exists_of_isStart hs
      exact ⟨_, hr, by simp [CompensationEntry.moved], by simp [CompensationEntry.moved]⟩
    · rw [countP_append, countP_singleton, if_neg hs, Nat.add_zero] at hc
      obtain ⟨entry, hf, hg⟩ := hu.gone effectId hc
      exact (step_outcome call).stays_gone hp (hu.escalated effectId) hf hg

theorem unrepeated_run (none : reconciler.maxAttempts = 0) {calls : List Call}
    (hp : Guarded (step hash reconciler) Reconciled new calls) :
    Unrepeated (trace (step hash reconciler) new calls) (final (step hash reconciler) new calls) := by
  refine history_invariant _ Reconciled Unrepeated new ?_ ?_ calls hp
  · exact ⟨fun _ _ ha => (by cases ha), fun _ => Nat.zero_le 1, fun _ hc => (by cases hc)⟩
  · exact fun _ _ _ hu hl => hu.next none hl

end

section

variable {hash : HashOrder CompensationEntry} {reconciler : RetryReconciler} {saga : Saga} {effectId : String}

theorem exists_moved {manifest : CompensationManifest} (status : SagaCompensationStatus) (now : UInt64)
    (hf : manifest.get effectId = some entry) (ha : entry.isTerminal = false) :
    ∃ after, manifest.transitionTo effectId status now = .ok after ∧
      after.get effectId = some (entry.moved status now) := by
  obtain ⟨after, hm⟩ : ∃ after, manifest.transitionTo effectId status now = .ok after :=
    CompensationManifest.exists_transitionTo hf ha
  obtain ⟨present, here, _, ho⟩ := CompensationManifest.transitionTo_eq_ok hm
  rw [hf] at here
  cases here
  exact ⟨after, hm, by rw [ho, if_pos rfl]⟩

def Ready (effectId : String) (saga : Saga) : Prop :=
  ∃ entry, saga.manifest.get effectId = some entry ∧ entry.status = .pending ∧ entry.dependencies = []

def round (effectId : String) : List Call :=
  [.startCompensation effectId 0, .markAmbiguous effectId 0, .handleReconciliation effectId .retryCompensation 0]

theorem round_ready (hl : 0 < reconciler.maxAttempts) (he : Ready effectId saga) :
    Guarded (step hash reconciler) Reconciled saga (round effectId) ∧
      Ready effectId (final (step hash reconciler) saga (round effectId)) ∧
      (trace (step hash reconciler) saga (round effectId)).countP (isStart effectId) = 1 := by
  obtain ⟨entry, hf, hp, free⟩ := he
  have able : saga.manifest.canExecute effectId = true := by
    rw [CompensationManifest.canExecute, hf]
    simp [hp, free]
  obtain ⟨started, hb, hr⟩ := exists_moved .inProgress 0 hf (by rw [CompensationEntry.isTerminal, hp])
  obtain ⟨marked, mark, ha⟩ := exists_moved .ambiguous 0 hr rfl
  obtain ⟨queued, hc, hg⟩ := exists_moved .pending 0 ha rfl
  have hi : step hash reconciler saga (.startCompensation effectId 0) = (.ok none, ⟨started, saga.advised⟩) := by
    rw [step, CompensationManifest.startCompensation, able]
    simp [hb, commit]
  have hs : step hash reconciler ⟨started, saga.advised⟩ (.markAmbiguous effectId 0) = (.ok (some .retryCompensation),
        ⟨marked, update saga.advised effectId (some .retryCompensation)⟩) := by
    simp [step, CompensationManifest.markAmbiguous, CompensationManifest.setAmbiguous, mark, ha,
      RetryReconciler.reconcile, hl, bind, Except.bind]
  have ht : step hash reconciler ⟨marked, update saga.advised effectId (some .retryCompensation)⟩
      (.handleReconciliation effectId .retryCompensation 0) =
      (.ok none, ⟨queued, update saga.advised effectId none⟩) := by
    simp [step, CompensationManifest.handleReconciliation, hc, commit]
  simp only [round, Guarded, final, trace, event, hi, hs, ht]
  refine ⟨⟨trivial, trivial, ?_, trivial⟩, ⟨_, hg, rfl, free⟩, ?_⟩
  · exact update_self ..
  · simp [isStart, Except.isOk, Except.toBool]

theorem rounds_ready (ha : 0 < reconciler.maxAttempts) (count : Nat) (hr : Ready effectId saga) :
    Guarded (step hash reconciler) Reconciled saga (List.replicate count (round effectId)).flatten ∧
      (trace (step hash reconciler) saga (List.replicate count (round effectId)).flatten).countP
        (isStart effectId) = count := by
  induction count generalizing saga with
  | zero => exact ⟨trivial, rfl⟩
  | succ count ih =>
    obtain ⟨hg, hb, once⟩ : Guarded (step hash reconciler) Reconciled saga (round effectId) ∧ _ := round_ready ha hr
    obtain ⟨hl, hc⟩ := ih hb
    rw [replicate_succ, flatten_cons]
    refine ⟨(Guarded.append_iff ..).mpr ⟨hg, hl⟩, ?_⟩
    rw [trace_append, countP_append, once, hc, Nat.add_comm]

end

def setup : List Call := [.register "charge" .automatic [] 0, .queuePending "charge" 0]

variable (hash : HashOrder CompensationEntry) (reconciler : RetryReconciler)

theorem setup_ready :
    Guarded (step hash reconciler) Reconciled new setup ∧ Ready "charge" (final (step hash reconciler) new setup) := by
  refine ⟨⟨trivial, fun entry hf => ?_, trivial⟩, ⟨_, rfl, rfl, rfl⟩⟩
  cases hf
  rfl

theorem terminal_kept {saga : Saga}
    {effectId : String} (hf : saga.manifest.get effectId = some entry) (ht : entry.isTerminal = true)
    (calls : List Call) : (final (step hash reconciler) saga calls).manifest.get effectId = some entry := by
  refine final_invariant _ (fun _ (later : Saga) => later.manifest.get effectId = some entry) hf ?_ calls
  exact fun _ _ call kept => (step_outcome call).of_terminal kept ht

theorem restarts_bounded_iff (hash : HashOrder CompensationEntry) (reconciler : RetryReconciler) :
    ((∀ calls, Guarded (step hash reconciler) Reconciled new calls → ∀ effectId,
        restarts effectId (trace (step hash reconciler) new calls) ≤ reconciler.maxAttempts.toNat) ↔
      reconciler.maxAttempts = 0) ∧
    ∀ first rest effectId entry, (final (step hash reconciler) new first).manifest.get effectId = some entry →
      entry.isTerminal = true →
      (final (step hash reconciler) new (first ++ rest)).manifest.get effectId = some entry := by
  refine ⟨⟨fun hb => ?_, fun none calls hp effectId => ?_⟩, ?_⟩
  · by_contra ho
    have ha : 0 < reconciler.maxAttempts := UInt32.pos_iff_ne_zero.mpr ho
    obtain ⟨he, hr⟩ := setup_ready hash reconciler
    obtain ⟨hg, hc⟩ := rounds_ready ha (reconciler.maxAttempts.toNat + 2) hr
    have most := hb _ ((Guarded.append_iff ..).mpr ⟨he, hg⟩) "charge"
    rw [restarts, trace_append, countP_append, hc] at most
    omega
  · have once := (unrepeated_run none hp).once effectId
    rw [restarts]
    omega
  · intro first rest effectId entry hf ht
    rw [final_append]
    exact terminal_kept hash reconciler hf ht rest

section Sample

/-- With one attempt allowed, the compensation is started three times. -/
theorem retried_again :
    Guarded (step (.unchanged _) ⟨1⟩) Reconciled new (setup ++ (List.replicate 3 (round "charge")).flatten) ∧
      restarts "charge" (trace (step (.unchanged _) ⟨1⟩) new
        (setup ++ (List.replicate 3 (round "charge")).flatten)) = 2 := by
  obtain ⟨hb, hr⟩ := setup_ready (.unchanged _) ⟨1⟩
  have ha : 0 < (RetryReconciler.mk 1).maxAttempts := by decide
  obtain ⟨hg, _⟩ := rounds_ready ha 3 hr
  exact ⟨(Guarded.append_iff ..).mpr ⟨hb, hg⟩, by decide +kernel⟩

end Sample

end Saga

end Veloxide.CompensationSaga
