import Veloxide.Library.JsonText
import Veloxide.Storage.Admission
import Veloxide.Storage.InMemoryDedupe
import Veloxide.Storage.SequenceScan

namespace Veloxide.Admission

open ByteCodec OrderedStore KeyEncoding SequenceScan Unsigned Machine List

section

variable [Ulid]

/-- A call of `atomic_admit_workflow`, the time its clock shows, and whether its batch fails to commit. -/
structure AdmitCall where
  params : AtomicAdmitParams
  nowMs : UInt64
  commitFails : Bool

def AdmitCall.expiresAt (call : AdmitCall) : UInt64 := saturatingAdd call.nowMs call.params.dedupeTtlMs

def AdmitCall.request (call : AdmitCall) : Dedupe.Request := ⟨call.params.instanceId, call.params.dedupeTtlMs, call.nowMs⟩

abbrev Admitting := Event Database AdmitCall (Except AdmissionCommitError AtomicAdmitResult)

def admittedFor (instanceId : InstanceId) (event : Admitting) : Bool :=
  event.reply = .ok .admitted ∧ event.call.params.instanceId = instanceId

theorem nextSequence_eq {events : Store Bytes Bytes} {inst : InstanceId} {count : Nat}
    (hs : Numbered events inst.bytes count) : nextSequence events inst = Numbered.following count := by
  rw [nextSequence, buildEventKey_eq, buildEventKey_eq]
  cases count with
  | zero =>
    simp only [bind, Except.bind, hs.no_key]
    rfl
  | succ count =>
    obtain ⟨value, last⟩ := hs.last_key
    simp only [bind, Except.bind, last, drop_sequenceKey, length_beBytes, ofNat_beNat_beBytes]
    exact Numbered.checkedSucc_following hs.bound

variable [JsonCodec]

def step (db : Database) (call : AdmitCall) : Except AdmissionCommitError AtomicAdmitResult × Database :=
  match atomicAdmitWorkflow db call.params call.nowMs with
  | .error failure => (.error failure, db)
  | .ok (.duplicate owner, after) => (.ok (.duplicate owner), after)
  | .ok (.admitted, after) => if call.commitFails then (.error .batchCommitFailed, db) else (.ok .admitted, after)

theorem step_cases (db : Database) (call : AdmitCall) : ((step db call).1 ≠ .ok .admitted ∧ (step db call).2 = db) ∨
    ∃ key seq, Text.parse DedupeKey.validate call.params.dedupeKeyStr = .ok key ∧
      liveEntry db key call.nowMs = .ok none ∧ nextSequence db.events call.params.instanceId = .ok seq ∧
      step db call = (.ok .admitted, written db call.params call.nowMs key seq) := by
  rw [step]
  cases ok : atomicAdmitWorkflow db call.params call.nowMs with
  | error err => exact .inl ⟨by simp, rfl⟩
  | ok result =>
    obtain ⟨result, after⟩ := result
    cases result with
    | duplicate owner => exact .inl ⟨by simp, atomicAdmitWorkflow_duplicate ok⟩
    | admitted =>
      obtain ⟨key, seq, hp, live, next, same⟩ := atomicAdmitWorkflow_admitted ok
      cases hf : call.commitFails with
      | true => exact .inl ⟨by simp, rfl⟩
      | false => exact .inr ⟨key, seq, hp, live, next, by simp [same]⟩

section

omit [JsonCodec] in
def Holds (db : Database) (key : DedupeKey) (opener : AdmitCall) : Prop :=
  db.dedupe[Dedupe.encodeDedupeKey key]? = some (Dedupe.stored key opener.request)

variable {db : Database} {key : DedupeKey} {opener call : AdmitCall}

omit [JsonCodec] in
theorem Holds.liveEntry (hh : Holds db key opener) {nowMs : UInt64} (he : nowMs < opener.expiresAt) :
    Admission.liveEntry db key nowMs =
      .ok (some ⟨key.value, opener.params.instanceId.text, opener.expiresAt⟩) := by
  have ha : Dedupe.DedupeEntry.isExpired ⟨key.value, opener.params.instanceId.text, opener.expiresAt⟩ nowMs =
      false := decide_eq_false (UInt64.not_le.mpr he)
  rw [Admission.liveEntry, hh]
  show (do
    let entry ← (Dedupe.decodeDedupeEntry (Dedupe.stored key opener.request)).mapError AdmissionCommitError.dedupe
    return if entry.isExpired nowMs then none else some entry) = _
  rw [Dedupe.decode_stored]
  exact congrArg Except.ok (if_neg (by rw [Bool.not_eq_true]; exact ha))

theorem Holds.duplicate (hh : Holds db key opener)
    (hp : Text.parse DedupeKey.validate call.params.dedupeKeyStr = .ok key)
    (he : call.nowMs < opener.expiresAt) : step db call = (.ok (.duplicate opener.params.instanceId.text), db) := by
  have hf : atomicAdmitWorkflow db call.params call.nowMs = .ok (.duplicate opener.params.instanceId.text, db) := by
    simp only [atomicAdmitWorkflow, hp, Except.mapError, bind, Except.bind, hh.liveEntry he]
    rfl
  rw [step, hf]

theorem Holds.step (hh : Holds db key opener) (he : call.nowMs < opener.expiresAt) :
    Holds (step db call).2 key opener := by
  rcases step_cases db call with ⟨_, kept⟩ | ⟨otherKey, seq, _, live, _, ha⟩
  · rw [kept]
    exact hh
  · have hd : otherKey ≠ key := by
      intro same
      rw [same, hh.liveEntry he] at live
      cases live
    rw [ha, Holds, written, get_insert_of_ne]
    · exact hh
    · exact fun same => hd (Dedupe.encodeDedupeKey_injective same)

variable {calls : List AdmitCall}

theorem Holds.run (hh : Holds db key opener) (he : ∀ call ∈ calls, call.nowMs < opener.expiresAt) :
    Holds (final Admission.step db calls) key opener := by
  induction calls generalizing db with
  | nil => exact hh
  | cons call calls ih =>
    exact ih (hh.step (he call mem_cons_self)) fun later mem => he later (mem_cons_of_mem _ mem)

theorem duplicate_in_window (ho : (calls.map AdmitCall.nowMs).Pairwise (· ≤ ·))
    {before middle after : List Admitting} {opener here : Admitting}
    (run : trace step .empty calls = before ++ opener :: (middle ++ here :: after))
    (ha : opener.reply = .ok .admitted) (hs : here.call.params.dedupeKeyStr = opener.call.params.dedupeKeyStr)
    (he : here.call.nowMs < opener.call.expiresAt) :
    here.reply = .ok (.duplicate opener.call.params.instanceId.text) ∧ here.after = here.before := by
  obtain ⟨first, rest, made, _, hc, tail⟩ := trace_split step run
  obtain ⟨second, third, hl, _, hf, _⟩ := trace_split step tail.symm
  have hb : ∀ call ∈ second, call.nowMs < opener.call.expiresAt := by
    intro call mem
    rw [made, hl, map_append, map_cons, map_append, map_cons, pairwise_append] at ho
    have hi := (pairwise_append.mp (pairwise_cons.mp ho.2.1).2).2.2
    exact UInt64.lt_of_le_of_lt (hi _ (mem_map_of_mem mem) _ mem_cons_self) he
  rw [hc] at ha
  rcases step_cases (final step .empty first) opener.call with
    ⟨hr, _⟩ | ⟨key, seq, hp, _, _, hg⟩
  · exact absurd ha hr
  · have hh : Holds opener.after key opener.call := by
      rw [hc, event, hg]
      exact Std.ExtTreeMap.getElem?_insert_self
    have hd := (hh.run hb).duplicate (by rw [hs, hp]) he
    rw [hf, event, hd]
    exact ⟨rfl, rfl⟩

end

section

def Sequenced (history : List Admitting) (db : Database) : Prop :=
  ∀ instanceId : InstanceId, Numbered db.events instanceId.bytes (history.countP (admittedFor instanceId))

variable {history : List Admitting} {db : Database}

omit [JsonCodec] in
theorem Sequenced.next {call : AdmitCall} {seq : UInt64}
    (hs : Sequenced history db) (next : nextSequence db.events call.params.instanceId = .ok seq) :
    history.countP (admittedFor call.params.instanceId) + 1 < 2 ^ 64 ∧
      seq = UInt64.ofNat (history.countP (admittedFor call.params.instanceId) + 1) := by
  rw [nextSequence_eq (hs call.params.instanceId), Numbered.following] at next
  split_ifs at next with room
  exact ⟨room, (Except.ok.inj next).symm⟩

theorem Sequenced.step (hs : Sequenced history db)
    (call : AdmitCall) : Sequenced (history ++ [event step db call]) (step db call).2 := by
  intro inst
  rw [countP_append, countP_singleton]
  rcases step_cases db call with ⟨hr, kept⟩ | ⟨key, seq, _, _, next, ha⟩
  · rw [if_neg (by simp [admittedFor, event, hr]), kept]
    exact hs inst
  · obtain ⟨room, same⟩ := hs.next next
    simp only [admittedFor, event, ha, true_and, written, same]
    by_cases own : call.params.instanceId = inst
    · rw [if_pos (decide_eq_true own), ← own]
      exact (hs _).insert_next (own ▸ room) _
    · rw [if_neg (by simpa using own)]
      exact (hs inst).insert_other (fun ht => own (InstanceId.eq_of_isPrefix ht).symm) _

theorem sequenced_run (calls : List AdmitCall) : Sequenced (trace step .empty calls) (final step .empty calls) :=
  history_invariant step (fun _ _ => True) Sequenced .empty (fun inst => Numbered.empty inst.bytes)
    (fun _ _ call hs _ => hs.step call) calls (Guarded.trivial step .empty calls)

end

/-- A key is taken while its admission lives, and only admissions write, all they should. -/
theorem atomic_admission {calls : List AdmitCall} (ordered : (calls.map AdmitCall.nowMs).Pairwise (· ≤ ·)) :
    (∀ (before middle after : List Admitting) (opener here : Admitting),
      trace step .empty calls = before ++ opener :: (middle ++ here :: after) →
      opener.reply = .ok .admitted → here.call.params.dedupeKeyStr = opener.call.params.dedupeKeyStr →
      here.call.nowMs < opener.call.expiresAt →
        here.reply = .ok (.duplicate opener.call.params.instanceId.text) ∧ here.after = here.before) ∧
    (∀ (before after : List Admitting) (here : Admitting),
      trace step .empty calls = before ++ here :: after → here.reply = .ok .admitted →
      ∃ key, Text.parse DedupeKey.validate here.call.params.dedupeKeyStr = .ok key ∧
        here.after = written here.before here.call.params here.call.nowMs key
          (UInt64.ofNat (before.countP (admittedFor here.call.params.instanceId) + 1))) ∧
    (∀ here ∈ trace step .empty calls, here.reply ≠ .ok .admitted → here.after = here.before) ∧
    ∀ instanceId : InstanceId, (prefixScan (final step .empty calls).events instanceId.bytes).map Prod.fst =
        numberedKeys instanceId.bytes ((trace step .empty calls).countP (admittedFor instanceId)) := by
  refine ⟨?_, ?_, ?_, ?_⟩
  · intro before middle after opener here run admitted hs hb
    exact duplicate_in_window ordered run admitted hs hb
  · intro before after here run admitted
    obtain ⟨first, rest, _, he, hh, _⟩ := trace_split step run
    rw [hh] at admitted ⊢
    rcases step_cases (final step .empty first) here.call with
      ⟨hr, _⟩ | ⟨key, sequence, hp, _, next, ha⟩
    · exact absurd admitted hr
    · obtain ⟨_, same⟩ := (sequenced_run first).next next
      refine ⟨key, hp, ?_⟩
      simp only [he, Machine.event, ha, same]
  · intro here mem hr
    rw [event_of_mem_trace step mem] at hr ⊢
    rcases step_cases here.before here.call with ⟨_, kept⟩ | ⟨key, sequence, _, _, _, ha⟩
    · exact kept
    · exact absurd (congrArg Prod.fst ha) hr
  · intro instanceId
    exact (sequenced_run calls instanceId).scanned_keys

end

section Sample

attribute [local instance] Ulid.Crockford.codec Json.Text.codec

def sampleCall (ulid : BitVec 128) (nowMs : UInt64) (commitFails : Bool) : AdmitCall :=
  ⟨⟨InstanceId.ofUlid ulid, "order-1", 10, nowMs, .null, .default, .running⟩, nowMs, commitFails⟩

/-- An admission, a duplicate of it, and two calls after its window, of which the first cannot commit. -/
def sampleCalls : List AdmitCall :=
  [sampleCall 1 0 false, sampleCall 2 9 false, sampleCall 1 10 true, sampleCall 1 10 false]

theorem atomic_admission_sample : (step (step .empty (sampleCall 1 0 false)).2 (sampleCall 2 9 false)).1 =
      .ok (.duplicate (InstanceId.ofUlid 1).text) ∧
    (prefixScan (final step .empty sampleCalls).events (InstanceId.ofUlid 1).bytes).map Prod.fst =
      numberedKeys (InstanceId.ofUlid 1).bytes 2 := by
  obtain ⟨duplicate, _, _, hn⟩ := @atomic_admission _ _ sampleCalls (by decide)
  refine ⟨?_, (hn (InstanceId.ofUlid 1)).trans ?_⟩
  · have hf := duplicate [] []
      (trace step (step (step .empty (sampleCall 1 0 false)).2 (sampleCall 2 9 false)).2
        [sampleCall 1 10 true, sampleCall 1 10 false])
      (event step .empty (sampleCall 1 0 false))
      (event step (step .empty (sampleCall 1 0 false)).2 (sampleCall 2 9 false)) rfl (by decide +kernel) (Eq.refl
        "order-1") (by decide)
    exact hf.1
  · rw [show (trace step .empty sampleCalls).countP (admittedFor (InstanceId.ofUlid 1)) = 2 by decide +kernel]

end Sample

end Veloxide.Admission
