import Veloxide.Writer.Message

namespace Veloxide.Writer

open ByteCodec OrderedStore KeyEncoding List

inductive Partition
  | events
  | instances
  | timers
  | snapshots
  | effects
  | leases
deriving DecidableEq

abbrev Keyspaces := Partition → Store Bytes Bytes

def Keyspaces.empty : Keyspaces := fun _ => ∅

abbrev Entry := Partition × Write Bytes Bytes

def apply (db : Keyspaces) (batch : List Entry) : Keyspaces :=
  batch.foldl (fun db entry => Function.update db entry.1 (write (db entry.1) entry.2)) db

theorem apply_append (db : Keyspaces) (first second : List Entry) :
    apply db (first ++ second) = apply (apply db first) second :=
  foldl_append

/-- Why a call ends early: with an error that it returns, or with a panic. -/
inductive Stop
  | failed (failure : TransactionError)
  | panicked
deriving DecidableEq

def unwrap {α : Type} (result : Except ParseError α) : Except Stop α := result.mapError fun _ => .panicked

def newUnchecked (value : UInt64) : Except Stop SequenceNumber :=
  if zero : value = 0 then .error .panicked else .ok ⟨value, zero⟩

section

variable [Ulid]

def idBytes (instanceId : InstanceId) : Except Stop Bytes :=
  instanceId.toBytes.mapError fun _ => .failed (.storageCommitFailed "invalid instance_id")

def encodeEventKey (instanceId : InstanceId) (sequence : SequenceNumber) : Except Stop Bytes :=
  return sequenceKey (← idBytes instanceId) sequence.value

def encodeTimerKey (instanceId : InstanceId) (timerId : TimerId) : Except Stop Bytes :=
  return (← idBytes instanceId) ++ utf8 timerId.value

def encodeLeaseKey (instanceId : InstanceId) (stepId : StepId) : Except Stop Bytes :=
  return (← idBytes instanceId) ++ utf8 stepId.value

theorem idBytes_eq (inst : InstanceId) : idBytes inst = .ok inst.bytes := by
  rw [idBytes, inst.toBytes_eq]
  rfl

def timerEntry (event : EventEnvelope) : TimerOp → Except Stop Entry
  | .upsert timerId fireAt =>
    return (.timers, ← encodeTimerKey (← unwrap (InstanceId.parse event.instanceId)) timerId,
      some (beBytes 8 fireAt.toNat))
  | .delete timerId =>
    return (.timers, ← encodeTimerKey (← unwrap (InstanceId.parse event.instanceId)) timerId, none)

variable [JsonCodec]

def toVec (label : String) (value : Json) : Except Stop Bytes :=
  (JsonCodec.toVec value).mapError fun failure => .failed (.storageCommitFailed (label ++ failure))

omit [Ulid] in
theorem toVec_eq (label : String) (value : Json) : toVec label value = .ok (JsonCodec.bytes value) := by
  rw [toVec, JsonCodec.toVec_eq]
  rfl

variable (serialize : SnapshotData → Bytes)

def transitionEntries (stepId : Option StepId) (instanceStatus : Option InstanceStatus) (timerOps : List TimerOp)
    (snapshot : Option SnapshotData) (event : EventEnvelope) : Except Stop (List Entry) := do
  let statusEntries : List Entry := match instanceStatus with
    | some status => [(.instances, utf8 event.instanceId, some [status.toByte])]
    | none => []
  let leaseEntries : List Entry ← match stepId with
    | some step => do
      let key ← encodeLeaseKey (← unwrap (InstanceId.parse event.instanceId)) step
      pure [(.leases, key, some [])]
    | none => pure []
  let timerEntries ← timerOps.mapM (timerEntry event)
  let snapshotEntries : List Entry ← match snapshot with
    | some snap => do
      let key ← encodeEventKey (← unwrap (InstanceId.parse event.instanceId)) (← newUnchecked event.sequence)
      pure [(.snapshots, key, some (serialize snap))]
    | none => pure []
  let key ← encodeEventKey (← unwrap (InstanceId.parse event.instanceId)) (← newUnchecked event.sequence)
  let value ← toVec "serialize event: " event.toJson
  return statusEntries ++ leaseEntries ++ timerEntries ++ snapshotEntries ++ [(.events, key, some value)]

def entries : DbWriterMessage → Except Stop (List Entry)
  | .appendEvent instanceId sequenceNumber idempotencyKey => do
    let key ← encodeEventKey instanceId sequenceNumber
    let value ← toVec "serialize: " (.string idempotencyKey.value)
    return [(.events, key, some value)]
  | .recordInstanceStatus instanceId statusByte => return [(.instances, ← idBytes instanceId, some [statusByte])]
  | .acquireLease instanceId stepId fence =>
    return [(.leases, ← encodeLeaseKey instanceId stepId, some (beBytes 8 fence.value.toNat))]
  | .releaseLease instanceId stepId => return [(.leases, ← encodeLeaseKey instanceId stepId, none)]
  | .upsertTimer instanceId timerId fireAt =>
    return [(.timers, ← encodeTimerKey instanceId timerId, some (beBytes 8 fireAt.toNat))]
  | .deleteTimer instanceId timerId => return [(.timers, ← encodeTimerKey instanceId timerId, none)]
  | .recordEffect effect => return [(.effects, utf8 effect.intentId, some (← toVec "serialize effect: " effect.toJson))]
  | .takeSnapshot instanceId sequenceNumber snapshotData =>
    return [(.snapshots, ← encodeEventKey instanceId sequenceNumber, some (serialize snapshotData))]
  | .atomicTransition stepId instanceStatus timerOps snapshot event =>
    transitionEntries serialize stepId instanceStatus timerOps snapshot event

omit [JsonCodec] in
def DbWriterMessage.transition? : DbWriterMessage → Option EventEnvelope
  | .atomicTransition _ _ _ _ event => some event
  | _ => none

/-- The shared batch so far, the keyspaces, and the number of batches that were to be committed. -/
structure Progress where
  db : Keyspaces
  batch : List Entry
  commits : Nat

variable (fails : Nat → Option String)

def Progress.commit (acc : Progress) (batch : List Entry) : Except Stop Unit × Progress :=
  match fails acc.commits with
  | some reason => (.error (.failed (.storageCommitFailed ("batch commit: " ++ reason))),
      { acc with commits := acc.commits + 1 })
  | none => (.ok (), { acc with db := apply acc.db batch, commits := acc.commits + 1 })

def commitMessage (acc : Progress) (msg : DbWriterMessage) : Except Stop Unit × Progress :=
  match entries serialize msg with
  | .error stop => (.error stop, acc)
  | .ok own =>
    if msg.transition?.isSome then acc.commit fails own
    else (.ok (), { acc with batch := acc.batch ++ own })

def commitMessages (acc : Progress) : List DbWriterMessage → Except Stop Unit × Progress
  | [] => (.ok (), acc)
  | msg :: msgs =>
    match commitMessage serialize fails acc msg with
    | (.error stop, after) => (.error stop, after)
    | (.ok (), after) => commitMessages after msgs

def commitBatch (db : Keyspaces) (msgs : List DbWriterMessage) : Except Stop Unit × Keyspaces :=
  if msgs.isEmpty then (.ok (), db)
  else match commitMessages serialize fails ⟨db, [], 0⟩ msgs with
    | (.error stop, after) => (.error stop, after.db)
    | (.ok (), after) => ((after.commit fails after.batch).1, (after.commit fails after.batch).2.db)

def applyMessage (db : Keyspaces) (msg : DbWriterMessage) : Except Stop Keyspaces :=
  (entries serialize msg).map (apply db)

/-- An error leaves the keyspaces, and a success leaves what the messages make of them in their order. -/
structure Atomic (db : Keyspaces) (msgs : List DbWriterMessage) : Prop where
  unchanged : ∀ failure, (commitBatch serialize fails db msgs).1 = .error (.failed failure) →
    (commitBatch serialize fails db msgs).2 = db
  applied : (commitBatch serialize fails db msgs).1 = .ok () →
    msgs.foldlM (applyMessage serialize) db = .ok (commitBatch serialize fails db msgs).2

def WellFormed (event : EventEnvelope) : Prop :=
  (∃ instanceId, InstanceId.parse event.instanceId = .ok instanceId) ∧ event.sequence ≠ 0

section

variable {event : EventEnvelope} {inst : InstanceId}

omit [JsonCodec] in
theorem timerEntry_ok (hp : InstanceId.parse event.instanceId = .ok inst) (op : TimerOp) :
    ∃ entry, timerEntry event op = .ok entry := by
  cases op with
  | upsert timer fireAt | delete timer =>
    simp only [timerEntry, hp, encodeTimerKey, idBytes_eq]
    exact ⟨_, rfl⟩

omit [JsonCodec] in
theorem timerEntries_ok (hp : InstanceId.parse event.instanceId = .ok inst) (ops : List TimerOp) :
    ∃ timerEntries, ops.mapM (timerEntry event) = .ok timerEntries := by
  induction ops with
  | nil => exact ⟨[], rfl⟩
  | cons op ops ih =>
    obtain ⟨entry, here⟩ := timerEntry_ok hp op
    obtain ⟨rest, hl⟩ := ih
    rw [mapM_cons, here, hl]
    exact ⟨entry :: rest, rfl⟩

theorem transitionEntries_ok (hw : WellFormed event) (stepId : Option StepId)
    (instanceStatus : Option InstanceStatus) (timerOps : List TimerOp) (snap : Option SnapshotData) :
    ∃ front key value, transitionEntries serialize stepId instanceStatus timerOps snap event =
      .ok (front ++ [(.events, key, some value)]) := by
  obtain ⟨⟨inst, hp⟩, hn⟩ := hw
  obtain ⟨timers, ht⟩ := timerEntries_ok hp timerOps
  simp only [transitionEntries, hp, unwrap, Except.mapError, ht, newUnchecked, hn, ↓reduceDIte,
    encodeEventKey, encodeLeaseKey, idBytes_eq, toVec_eq, bind, Except.bind, pure, Except.pure]
  cases stepId <;> cases snap <;> exact ⟨_, _, _, rfl⟩

theorem transitionEntries_panicked (hm : ¬ WellFormed event) (stepId : Option StepId)
    (instanceStatus : Option InstanceStatus) (timerOps : List TimerOp) (snap : Option SnapshotData) :
    transitionEntries serialize stepId instanceStatus timerOps snap event = .error .panicked := by
  cases hp : InstanceId.parse event.instanceId with
  | error err =>
    have hi : ∀ op, timerEntry event op = .error .panicked := by
      intro op
      cases op with
      | upsert timer fireAt | delete timer => rw [timerEntry, hp]; rfl
    simp only [transitionEntries, hp, unwrap, Except.mapError, bind, Except.bind]
    cases stepId with
    | some step => rfl
    | none =>
      cases timerOps with
      | cons op ops =>
        rw [mapM_cons, hi]
        rfl
      | nil => cases snap <;> rfl
  | ok inst =>
    have zero : event.sequence = 0 := by
      by_contra hn
      exact hm ⟨⟨inst, hp⟩, hn⟩
    obtain ⟨timers, ht⟩ := timerEntries_ok hp timerOps
    simp only [transitionEntries, hp, unwrap, Except.mapError, ht, newUnchecked, zero, ↓reduceDIte,
      encodeLeaseKey, idBytes_eq, bind, Except.bind, pure, Except.pure]
    cases stepId <;> cases snap <;> rfl

theorem entries_cases (msg : DbWriterMessage) : (msg.transition? = none ∧ ∃ own, entries serialize msg = .ok own) ∨
    ∃ event, msg.transition? = some event ∧ ((WellFormed event ∧ ∃ front key value,
          entries serialize msg = .ok (front ++ [(.events, key, some value)])) ∨
        (¬ WellFormed event ∧ entries serialize msg = .error .panicked)) := by
  cases msg with
  | atomicTransition stepId instanceStatus timerOps snap event =>
    refine .inr ⟨event, rfl, ?_⟩
    by_cases hw : WellFormed event
    · exact .inl ⟨hw, transitionEntries_ok serialize hw stepId instanceStatus timerOps snap⟩
    · exact .inr ⟨hw, transitionEntries_panicked serialize hw stepId instanceStatus timerOps snap⟩
  | _ =>
    refine .inl ⟨rfl, ?_⟩
    simp only [entries, encodeEventKey, encodeLeaseKey, encodeTimerKey, idBytes_eq, toVec_eq]
    exact ⟨_, rfl⟩

end

/-- The call goes on to commit another batch: that of the next transition, or the shared one. -/
def Answered : List DbWriterMessage → Prop
  | [] => True
  | msg :: msgs =>
    match msg.transition? with
    | some event => WellFormed event
    | none => Answered msgs

def Splits : List DbWriterMessage → Prop
  | [] => False
  | msg :: msgs =>
    match msg.transition? with
    | some event => WellFormed event ∧ Answered msgs
    | none => Splits msgs

def run (acc : Progress) (msgs : List DbWriterMessage) : Except Stop Unit × Progress :=
  match commitMessages serialize fails acc msgs with
  | (.error stop, after) => (.error stop, after)
  | (.ok (), after) => after.commit fails after.batch

theorem commitBatch_eq (db : Keyspaces) {msgs : List DbWriterMessage} (hn : msgs ≠ []) :
    commitBatch serialize fails db msgs =
      ((run serialize fails ⟨db, [], 0⟩ msgs).1, (run serialize fails ⟨db, [], 0⟩ msgs).2.db) := by
  rw [commitBatch, if_neg (by simpa using hn), run]
  rcases commitMessages serialize fails ⟨db, [], 0⟩ msgs with ⟨stop | done, after⟩
  · rfl
  · rfl

section

variable {acc : Progress} {msg : DbWriterMessage} {msgs : List DbWriterMessage} {own : List Entry}

theorem run_shared (hs : msg.transition? = none) (made : entries serialize msg = .ok own) :
    run serialize fails acc (msg :: msgs) =
      run serialize fails { acc with batch := acc.batch ++ own } msgs := by
  rw [run, commitMessages, commitMessage, made, hs]
  rfl

theorem run_panicked (made : entries serialize msg = .error .panicked) :
    run serialize fails acc (msg :: msgs) = (.error .panicked, acc) := by
  rw [run, commitMessages, commitMessage, made]

theorem run_transition {event : EventEnvelope} (ht : msg.transition? = some event)
    (made : entries serialize msg = .ok own) :
    run serialize fails acc (msg :: msgs) = match acc.commit fails own with
      | (.error stop, after) => (.error stop, after) | (.ok (), after) => run serialize fails after msgs := by
  have hc : commitMessage serialize fails acc msg = acc.commit fails own := by
    rw [commitMessage, made, ht]
    rfl
  rw [run, commitMessages, hc]
  rcases acc.commit fails own with ⟨stop | done, after⟩
  · rfl
  · rfl

omit [Ulid] [JsonCodec] in
theorem commit_cases (batch : List Entry) :
    (∃ reason, acc.commit fails batch = (.error (.failed (.storageCommitFailed ("batch commit: " ++ reason))),
        { acc with commits := acc.commits + 1 })) ∨ acc.commit fails batch =
        (.ok (), { acc with db := apply acc.db batch, commits := acc.commits + 1 }) := by
  rw [Progress.commit]
  cases fails acc.commits with
  | some reason => exact .inl ⟨reason, rfl⟩
  | none => exact .inr rfl

theorem run_not_answered (hs : ¬ Answered msgs) : (run serialize fails acc msgs).1 = .error .panicked := by
  induction msgs generalizing acc with
  | nil => exact absurd trivial hs
  | cons msg msgs ih =>
    rw [Answered] at hs
    rcases entries_cases serialize msg with ⟨hh, own, made⟩ | ⟨event, ht, ⟨hw, _⟩ | ⟨_, made⟩⟩
    · rw [hh] at hs
      rw [run_shared serialize fails hh made]
      exact ih hs
    · rw [ht] at hs
      exact absurd hw hs
    · rw [run_panicked serialize fails made]

theorem run_whole (hh : ¬ Splits msgs) : (run serialize fails acc msgs).1 = .error .panicked ∨
    (∃ err, (run serialize fails acc msgs).1 = .error (.failed err) ∧
      (run serialize fails acc msgs).2.db = acc.db) ∨
    ((run serialize fails acc msgs).1 = .ok () ∧
      msgs.foldlM (applyMessage serialize) (apply acc.db acc.batch) =
        .ok (run serialize fails acc msgs).2.db) := by
  induction msgs generalizing acc with
  | nil =>
    have last : run serialize fails acc [] = acc.commit fails acc.batch := rfl
    rw [last]
    rcases commit_cases fails acc.batch with ⟨reason, hr⟩ | accepted
    · rw [hr]
      exact .inr (.inl ⟨_, rfl, rfl⟩)
    · rw [accepted]
      exact .inr (.inr ⟨rfl, rfl⟩)
  | cons msg msgs ih =>
    rw [Splits] at hh
    rcases entries_cases serialize msg with
      ⟨hs, own, made⟩ | ⟨event, ht, ⟨hw, front, key, value, made⟩ | ⟨_, made⟩⟩
    · rw [hs] at hh
      rw [run_shared serialize fails hs made, foldlM_cons, applyMessage, made]
      have rest := @ih { acc with batch := acc.batch ++ own } hh
      rw [apply_append] at rest
      exact rest
    · rw [ht] at hh
      rw [run_transition serialize fails ht made]
      rcases commit_cases fails (front ++ [(.events, key, some value)]) with ⟨reason, hr⟩ | accepted
      · rw [hr]
        exact .inr (.inl ⟨_, rfl, rfl⟩)
      · rw [accepted]
        exact .inl (run_not_answered serialize fails fun ha => hh ⟨hw, ha⟩)
    · rw [run_panicked serialize fails made]
      exact .inl rfl

omit [Ulid] [JsonCodec] in
def firstOnly : Nat → Option String
  | 0 => none
  | _ + 1 => some "disk full"

omit [Ulid] [JsonCodec] in
theorem commit_firstOnly (hs : 0 < acc.commits) (batch : List Entry) :
    acc.commit firstOnly batch = (.error (.failed (.storageCommitFailed "batch commit: disk full")),
      { acc with commits := acc.commits + 1 }) := by
  rw [Progress.commit, ← Nat.succ_pred_eq_of_pos hs]
  rfl

theorem run_answered (ha : Answered msgs) (hs : 0 < acc.commits) :
    (run serialize firstOnly acc msgs).1 = .error (.failed (.storageCommitFailed "batch commit: disk full")) ∧
      (run serialize firstOnly acc msgs).2.db = acc.db := by
  induction msgs generalizing acc with
  | nil =>
    have last : run serialize firstOnly acc [] = acc.commit firstOnly acc.batch := rfl
    rw [last, commit_firstOnly hs]
    exact ⟨rfl, rfl⟩
  | cons msg msgs ih =>
    rw [Answered] at ha
    rcases entries_cases serialize msg with
      ⟨hh, own, made⟩ | ⟨event, ht, ⟨_, front, key, value, made⟩ | ⟨hm, _⟩⟩
    · rw [hh] at ha
      rw [run_shared serialize firstOnly hh made]
      exact @ih { acc with batch := acc.batch ++ own } ha hs
    · rw [run_transition serialize firstOnly ht made, commit_firstOnly hs]
      exact ⟨rfl, rfl⟩
    · rw [ht] at ha
      exact absurd ha hm

theorem run_splits (hs : Splits msgs) (hf : acc.commits = 0) :
    ∃ front key value, (run serialize firstOnly acc msgs).1 =
        .error (.failed (.storageCommitFailed "batch commit: disk full")) ∧
      (run serialize firstOnly acc msgs).2.db = apply acc.db (front ++ [(.events, key, some value)]) := by
  induction msgs generalizing acc with
  | nil => exact absurd hs id
  | cons msg msgs ih =>
    rw [Splits] at hs
    rcases entries_cases serialize msg with
      ⟨hh, own, made⟩ | ⟨event, ht, ⟨_, front, key, value, made⟩ | ⟨hm, _⟩⟩
    · rw [hh] at hs
      rw [run_shared serialize firstOnly hh made]
      exact @ih { acc with batch := acc.batch ++ own } hs hf
    · rw [ht] at hs
      have ha : acc.commit firstOnly (front ++ [(.events, key, some value)]) =
          (.ok (), ⟨apply acc.db (front ++ [(.events, key, some value)]), acc.batch, acc.commits + 1⟩) := by
        rw [Progress.commit, hf]
        rfl
      rw [run_transition serialize firstOnly ht made, ha]
      exact ⟨front, key, value, run_answered serialize hs.2 (Nat.succ_pos acc.commits)⟩
    · rw [ht] at hs
      exact absurd hs.1 hm

end

omit [Ulid] [JsonCodec] in
theorem apply_ne_empty (front : List Entry) (key value : Bytes) :
    apply .empty (front ++ [(.events, key, some value)]) ≠ .empty := by
  intro same
  have held := congrArg (fun db : Keyspaces => (db .events)[key]?) same
  simp [apply, Keyspaces.empty, write] at held

/-- Batches are atomic exactly if no transition commits its own before another is to be committed. -/
theorem commit_batch_atomic_iff (msgs : List DbWriterMessage) :
    (∀ fails db, Atomic serialize fails db msgs) ↔ ¬ Splits msgs := by
  cases msgs with
  | nil => exact iff_of_true (fun fails db => ⟨fun _ hi => (by cases hi), fun _ => rfl⟩) id
  | cons msg msgs =>
    constructor
    · intro ht hb
      obtain ⟨front, key, value, hr, hc⟩ := @run_splits _ _ serialize ⟨.empty, [], 0⟩ (msg :: msgs) hb rfl
      have hu := (ht firstOnly .empty).unchanged
      rw [commitBatch_eq serialize firstOnly .empty (cons_ne_nil msg msgs)] at hu
      exact apply_ne_empty front key value (hc.symm.trans (hu _ hr))
    · intro hw fails db
      have ho := @run_whole _ _ serialize fails ⟨db, [], 0⟩ (msg :: msgs) hw
      have he := commitBatch_eq serialize fails db (cons_ne_nil msg msgs)
      refine ⟨?_, ?_⟩
      · intro err hf
        rw [he] at hf ⊢
        rcases ho with hp | ⟨_, _, kept⟩ | ⟨done, _⟩
        · cases hp.symm.trans hf
        · exact kept
        · cases done.symm.trans hf
      · intro hs
        rw [he] at hs ⊢
        rcases ho with hp | ⟨_, hf, _⟩ | ⟨_, ha⟩
        · cases hp.symm.trans hs
        · cases hf.symm.trans hs
        · exact ha

end

section Sample

attribute [local instance] Ulid.Crockford.codec Json.Text.codec

def sampleTransition : DbWriterMessage :=
  .atomicTransition none none [] none ⟨1, (InstanceId.ofUlid 1).text, 1, 1000, .null, .default⟩

def sampleAppend : DbWriterMessage := .appendEvent (InstanceId.ofUlid 1) ⟨1, by decide⟩ ⟨"key-1", by decide⟩

def sampleKey : Bytes := sequenceKey (InstanceId.ofUlid 1).bytes 1

def sampleOutcome (fails : Nat → Option String) (msgs : List DbWriterMessage) : Except Stop Unit × Option Bytes :=
  ((commitBatch SnapshotData.stateBytes fails .empty msgs).1,
    ((commitBatch SnapshotData.stateBytes fails .empty msgs).2 .events)[sampleKey]?)

/-- The first call fails and has stored its event; in the second an append overwrites the event. -/
theorem split_batches : ¬ Atomic SnapshotData.stateBytes firstOnly .empty [sampleTransition, sampleAppend] ∧
    ¬ Atomic SnapshotData.stateBytes (fun _ => none) .empty [sampleAppend, sampleTransition] := by
  refine ⟨fun ht => ?_, fun ht => ?_⟩
  · have hr : (sampleOutcome firstOnly [sampleTransition, sampleAppend]).1 =
        .error (.failed (.storageCommitFailed "batch commit: disk full")) := by decide +kernel
    have hs : (sampleOutcome firstOnly [sampleTransition, sampleAppend]).2 ≠ none := by decide +kernel
    apply hs
    rw [sampleOutcome, ht.unchanged _ hr]
    rfl
  · have ha : (sampleOutcome (fun _ => none) [sampleAppend, sampleTransition]).1 = .ok () := by decide +kernel
    have ho : ([sampleAppend, sampleTransition].foldlM (applyMessage SnapshotData.stateBytes) .empty).map
        (fun db => (db .events)[sampleKey]?) ≠
          .ok (sampleOutcome (fun _ => none) [sampleAppend, sampleTransition]).2 := by decide +kernel
    apply ho
    rw [ht.applied ha]
    rfl

end Sample

end Veloxide.Writer
