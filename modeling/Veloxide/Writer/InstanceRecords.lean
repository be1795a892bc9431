import Veloxide.Library.Execution
import Veloxide.Writer.FjallCommitter

namespace Veloxide.Writer

open ByteCodec OrderedStore InstanceIndex List Function

section

variable (partition : Partition)

def writesTo (batch : List Entry) : List (Write Bytes Bytes) :=
  (batch.filter fun entry => entry.1 = partition).map Prod.snd

theorem writesTo_append (first second : List Entry) :
    writesTo partition (first ++ second) = writesTo partition first ++ writesTo partition second := by
  rw [writesTo, filter_append, map_append]
  rfl

theorem writesTo_eq_nil {partition : Partition} {batch : List Entry}
    (he : ∀ entry ∈ batch, entry.1 ≠ partition) : writesTo partition batch = [] := by
  rw [writesTo, map_eq_nil_iff, filter_eq_nil_iff]
  intro entry mem
  simpa using he entry mem

theorem apply_partition (db : Keyspaces) (batch : List Entry) (partition : Partition) :
    apply db batch partition = commit (db partition) (writesTo partition batch) := by
  induction batch generalizing db with
  | nil => rfl
  | cons entry batch ih =>
    have rest := ih (update db entry.1 (write (db entry.1) entry.2))
    have step : apply db (entry :: batch) = apply (update db entry.1 (write (db entry.1) entry.2)) batch := rfl
    rw [step, rest]
    by_cases here : entry.1 = partition
    · subst here
      rw [update_self, writesTo, writesTo, filter_cons_of_pos (by simp)]
      rfl
    · rw [update_of_ne (Ne.symm here), writesTo, writesTo, filter_cons_of_neg (by simpa using here)]

end

section

variable [Ulid]

def DbWriterMessage.statusKey? : DbWriterMessage → Option Bytes
  | .recordInstanceStatus instanceId _ => some instanceId.bytes
  | .atomicTransition _ (some _) _ _ event => some (utf8 event.instanceId)
  | _ => none

def DbWriterMessage.statusFor (instanceId : InstanceId) : DbWriterMessage → Option UInt8
  | .recordInstanceStatus other statusByte => if other = instanceId then some statusByte else none
  | .atomicTransition _ (some status) _ _ event =>
    if InstanceId.parse event.instanceId = .ok instanceId then some status.toByte else none
  | _ => none

def lastStatus (messages : List DbWriterMessage) (instanceId : InstanceId) : Option UInt8 :=
  messages.reverse.findSome? fun msg => msg.statusFor instanceId

/-- Every record has a key of the instance index, one record an instance, with the last status set. -/
structure Readable (messages : List DbWriterMessage) (instances : Store Bytes Bytes) : Prop where
  decodes : ∀ key ∈ instances, ∃ entry, decodeInstanceIndexKey key = .ok entry
  single : ∀ left ∈ instances, ∀ right ∈ instances, ∀ first second, decodeInstanceIndexKey left = .ok first →
    decodeInstanceIndexKey right = .ok second → first.instanceId = second.instanceId → left = right
  status : ∀ key ∈ instances, ∀ entry, decodeInstanceIndexKey key = .ok entry →
    lastStatus messages entry.instanceId = some entry.status.toByte

/-- A call of `commit_batch`, and which of its batches cannot be committed. -/
structure CommitCall where
  messages : List DbWriterMessage
  fails : Nat → Option String

variable [JsonCodec] (serialize : SnapshotData → Bytes)

def commitCall (db : Keyspaces) (call : CommitCall) : Except Stop Keyspaces :=
  match commitBatch serialize call.fails db call.messages with
  | (.error stop, _) => .error stop
  | (.ok (), after) => .ok after

variable {msg : DbWriterMessage} {own : List Entry}

section

variable {event : EventEnvelope}

omit [JsonCodec] in
theorem timerEntry_partition {op : TimerOp} {entry : Entry} (made : timerEntry event op = .ok entry) :
    entry.1 = .timers := by
  cases hp : InstanceId.parse event.instanceId with
  | error err =>
    cases op with
    | upsert timer fireAt | delete timer =>
      rw [timerEntry, hp] at made
      cases made
  | ok inst =>
    cases op with
    | upsert timer fireAt | delete timer =>
      simp only [timerEntry, hp, encodeTimerKey, idBytes_eq] at made
      cases made
      rfl

omit [JsonCodec] in
theorem writesTo_timerEntries {ops : List TimerOp} {timers : List Entry}
    (made : ops.mapM (timerEntry event) = .ok timers) : writesTo .instances timers = [] := by
  apply writesTo_eq_nil
  intro entry mem
  obtain ⟨op, _, here⟩ := (Except.mem_mapM made entry).mp mem
  rw [timerEntry_partition here]
  decide

theorem entries_records (made : entries serialize msg = .ok own) :
    (∃ value, writesTo .instances own = msg.statusKey?.toList.map fun key => (key, some value)) ∧
      ∀ key, msg.statusKey? = some key → key.length ≠ 25 := by
  cases msg with
  | recordInstanceStatus inst statusByte =>
    simp only [entries, idBytes_eq] at made
    cases made
    refine ⟨⟨[statusByte], rfl⟩, ?_⟩
    intro key hr
    cases hr
    rw [InstanceId.length_bytes]
    decide
  | atomicTransition stepId instanceStatus timerOps snap event =>
    have hw : WellFormed event := by
      by_contra hm
      rw [entries, transitionEntries_panicked serialize hm] at made
      cases made
    obtain ⟨⟨inst, hp⟩, hn⟩ := hw
    obtain ⟨timers, ht⟩ := timerEntries_ok hp timerOps
    have hs := writesTo_timerEntries ht
    simp only [entries, transitionEntries, hp, unwrap, Except.mapError, ht, newUnchecked, hn,
      ↓reduceDIte, encodeEventKey, encodeLeaseKey, idBytes_eq, toVec_eq, bind, Except.bind, pure,
      Except.pure] at made
    refine ⟨?_, ?_⟩
    · cases instanceStatus with
      | none =>
        refine ⟨[], ?_⟩
        cases stepId <;> cases snap <;> cases made <;> simp only [writesTo_append, hs] <;> rfl
      | some status =>
        refine ⟨[status.toByte], ?_⟩
        cases stepId <;> cases snap <;> cases made <;> simp only [writesTo_append, hs] <;> rfl
    · intro key hr
      cases instanceStatus with
      | none => cases hr
      | some status =>
        cases hr
        rw [length_utf8, (InstanceId.ulid_of_parse hp).1]
        decide
  | _ =>
    simp only [entries, encodeEventKey, encodeLeaseKey, encodeTimerKey, idBytes_eq, toVec_eq] at made
    cases made
    exact ⟨⟨[], rfl⟩, fun key hr => (by cases hr)⟩

end

/-- The keyspace holds a record under each key that one of the messages writes, and no other. -/
def Recorded (messages : List DbWriterMessage) (instances : Store Bytes Bytes) : Prop :=
  ∀ key, (instances[key]?).isSome ↔ ∃ msg ∈ messages, msg.statusKey? = some key

section

variable {fails : Nat → Option String} {progress : Progress}

theorem isSome_apply (made : entries serialize msg = .ok own) (db : Keyspaces) (key : Bytes) :
    ((apply db own .instances)[key]?).isSome ↔ ((db .instances)[key]?).isSome ∨ msg.statusKey? = some key := by
  obtain ⟨⟨value, hw⟩, _⟩ := entries_records serialize made
  rw [apply_partition, hw, isSome_commit]
  · simp
  · simp

variable {msgs : List DbWriterMessage}

theorem run_made (done : (run serialize fails progress msgs).1 = .ok ()) :
    ∀ msg ∈ msgs, ∃ own, entries serialize msg = .ok own := by
  induction msgs generalizing progress with
  | nil => simp
  | cons msg msgs ih =>
    rw [forall_mem_cons]
    rcases entries_cases serialize msg with
      ⟨hs, own, made⟩ | ⟨event, ht, ⟨_, front, key, value, made⟩ | ⟨_, made⟩⟩
    · rw [run_shared serialize fails hs made] at done
      exact ⟨⟨own, made⟩, ih done⟩
    · rw [run_transition serialize fails ht made] at done
      rcases commit_cases fails (front ++ [(.events, key, some value)]) with ⟨reason, hr⟩ | accepted
      · rw [hr] at done
        cases done
      · rw [accepted] at done
        exact ⟨⟨_, made⟩, ih done⟩
    · rw [run_panicked serialize fails made] at done
      cases done

theorem run_recorded (done : (run serialize fails progress msgs).1 = .ok ())
    (hi : ∀ entry ∈ writesTo .instances progress.batch, entry.2.isSome = true) (key : Bytes) :
    (((run serialize fails progress msgs).2.db .instances)[key]?).isSome ↔
      ((apply progress.db progress.batch .instances)[key]?).isSome ∨ ∃ msg ∈ msgs, msg.statusKey? = some key := by
  induction msgs generalizing progress with
  | nil =>
    have last : run serialize fails progress [] = progress.commit fails progress.batch := rfl
    rw [last] at done ⊢
    rcases commit_cases fails progress.batch with ⟨reason, hr⟩ | accepted
    · rw [hr] at done
      cases done
    · rw [accepted]
      simp
  | cons msg msgs ih =>
    obtain ⟨own, made⟩ := run_made serialize done msg mem_cons_self
    obtain ⟨⟨recorded, hw⟩, _⟩ := entries_records serialize made
    have ho : ∀ entry ∈ writesTo .instances own, entry.2.isSome = true := by
      rw [hw]
      simp
    rw [exists_mem_cons_iff]
    rcases entries_cases serialize msg with ⟨hs, _, _⟩ | ⟨event, ht, _⟩
    · rw [run_shared serialize fails hs made] at done ⊢
      have rest := ih done (by
        rw [writesTo_append, forall_mem_append]
        exact ⟨hi, ho⟩)
      rw [rest, apply_append, isSome_apply serialize made, or_assoc]
    · rw [run_transition serialize fails ht made] at done ⊢
      rcases commit_cases fails own with ⟨reason, hr⟩ | accepted
      · rw [hr] at done
        cases done
      · rw [accepted] at done ⊢
        rw [ih done hi, apply_partition, isSome_commit _ _ hi, isSome_apply serialize made, apply_partition,
          isSome_commit _ _ hi]
        simp only [or_assoc, or_left_comm]

end

theorem commitCall_recorded {db after : Keyspaces} {call : CommitCall} {past : List DbWriterMessage}
    (hr : Recorded past (db .instances)) (done : commitCall serialize db call = .ok after) :
    Recorded (past ++ call.messages) (after .instances) ∧
      ∀ msg ∈ call.messages, ∃ own, entries serialize msg = .ok own := by
  by_cases hn : call.messages = []
  · rw [commitCall, commitBatch, hn] at done
    cases done
    rw [hn, append_nil]
    exact ⟨hr, fun msg mem => absurd mem not_mem_nil⟩
  have he := commitBatch_eq serialize call.fails db hn
  rw [commitCall, he] at done
  cases ho : (run serialize call.fails ⟨db, [], 0⟩ call.messages).1 with
  | error stop =>
    rw [ho] at done
    cases done
  | ok succeeded =>
    rw [ho] at done
    cases done
    refine ⟨?_, run_made serialize ho⟩
    intro key
    have held := run_recorded serialize ho (by simp [writesTo]) key
    simp only [held, mem_append, or_and_right, exists_or, ← hr key]
    rfl

/-- The records can be read exactly if no message of the run sets a status. -/
theorem instance_records_readable_iff (calls : List CommitCall) (db : Keyspaces)
    (ran : calls.foldlM (commitCall serialize) .empty = .ok db) :
    (∀ key ∈ db .instances, decodeInstanceIndexKey key = .error .corruptKey) ∧
      (Readable (calls.flatMap CommitCall.messages) (db .instances) ↔
        ∀ msg ∈ calls.flatMap CommitCall.messages, msg.statusKey? = none) := by
  have hr : Recorded (calls.flatMap CommitCall.messages) (db .instances) ∧
      ∀ msg ∈ calls.flatMap CommitCall.messages, ∃ own, entries serialize msg = .ok own := by
    refine Machine.accepted_invariant (fun calls db => Recorded (calls.flatMap CommitCall.messages) (db .instances) ∧
      ∀ msg ∈ calls.flatMap CommitCall.messages, ∃ own, entries serialize msg = .ok own) ?_ ?_ calls db ran
    · exact ⟨fun key => by simp [Keyspaces.empty], by simp⟩
    · intro calls db call after held done
      obtain ⟨hb, made⟩ := held
      obtain ⟨hr, own⟩ := commitCall_recorded serialize hb done
      rw [flatMap_append, flatMap_singleton, forall_mem_append]
      exact ⟨hr, made, own⟩
  obtain ⟨held, made⟩ := hr
  have hh : ∀ key ∈ db .instances, ∃ msg ∈ calls.flatMap CommitCall.messages, msg.statusKey? = some key := by
    intro key mem
    exact (held key).mp (by simpa using mem)
  have he : ∀ key ∈ db .instances, decodeInstanceIndexKey key = .error .corruptKey := by
    intro key mem
    obtain ⟨msg, sent, hw⟩ := hh key mem
    obtain ⟨own, entry⟩ := made msg sent
    rw [decodeInstanceIndexKey, if_pos ((entries_records serialize entry).2 key hw)]
    rfl
  refine ⟨he, ?_, ?_⟩
  · intro ha msg sent
    cases hw : msg.statusKey? with
    | none => rfl
    | some key =>
      have mem : key ∈ db .instances := by simpa using (held key).mpr ⟨msg, sent, hw⟩
      obtain ⟨entry, hd⟩ := ha.decodes key mem
      rw [he key mem] at hd
      cases hd
  · intro hs
    have empty : ∀ key, key ∉ db .instances := by
      intro key mem
      obtain ⟨msg, sent, hw⟩ := hh key mem
      rw [hs msg sent] at hw
      cases hw
    exact ⟨fun key mem => absurd mem (empty key), fun key mem => absurd mem (empty key),
      fun key mem => absurd mem (empty key)⟩

end

section Sample

attribute [local instance] Ulid.Crockford.codec Json.Text.codec

def recordedStatus : DbWriterMessage := .recordInstanceStatus (InstanceId.ofUlid 1) 2

def singleCall (msg : DbWriterMessage) : CommitCall := ⟨[msg], fun _ => none⟩

theorem instance_records_readable_iff_sample :
    (∃ db, [singleCall sampleAppend, singleCall recordedStatus].foldlM (commitCall SnapshotData.stateBytes) .empty =
        .ok db ∧ (InstanceId.ofUlid 1).bytes ∈ db .instances ∧
      ∀ key ∈ db .instances, decodeInstanceIndexKey key = .error .corruptKey) ∧
    ∃ db, [singleCall sampleAppend].foldlM (commitCall SnapshotData.stateBytes) .empty = .ok db ∧
      Readable [sampleAppend] (db .instances) := by
  refine ⟨⟨_, rfl, by decide +kernel, (instance_records_readable_iff SnapshotData.stateBytes
    [singleCall sampleAppend, singleCall recordedStatus] _ rfl).1⟩, _, rfl, ?_⟩
  refine ((instance_records_readable_iff SnapshotData.stateBytes [singleCall sampleAppend] _ rfl).2).mpr ?_
  intro msg sent
  cases mem_singleton.mp sent
  rfl

/-- A status that is recorded is stored under the sixteen bytes of the id. -/
theorem recorded_status_unreadable :
    ∃ db, [singleCall recordedStatus].foldlM (commitCall SnapshotData.stateBytes) .empty = .ok db ∧
      (InstanceId.ofUlid 1).bytes ∈ db .instances ∧ ¬ Readable [recordedStatus] (db .instances) := by
  refine ⟨_, rfl, by decide +kernel, ?_⟩
  intro hr
  obtain ⟨entry, hd⟩ := hr.decodes (InstanceId.ofUlid 1).bytes (by decide +kernel)
  have he : (decodeInstanceIndexKey (InstanceId.ofUlid 1).bytes).isOk = false := by decide +kernel
  rw [hd] at he
  cases he

end Sample

end Veloxide.Writer
