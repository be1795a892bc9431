import Veloxide.Library.Execution
import Veloxide.Storage.EffectJournal

namespace Veloxide.EffectJournal

open ByteCodec OrderedStore Machine

section

variable [JsonCodec] [Zstd]

def Committed (journal : Journal) (key : Bytes) : Prop :=
  ∃ record, readRecord journal key = .ok (some record) ∧ record.status = .committed ∧ record.committedAt = some 100

variable {journal : Journal} {key : Bytes}

theorem Committed.congr {other : Journal} (hc : Committed journal key) (same : other[key]? = journal[key]?) :
    Committed other key := by
  rw [Committed, readRecord_congr same]
  exact hc

theorem Committed.decodes (done : Committed journal key) :
    ∃ value record, journal[key]? = some value ∧ decodeEffectRecord value = .ok record ∧ record.status = .committed := by
  obtain ⟨record, hr, hs, _⟩ := done
  rw [readRecord] at hr
  split at hr
  · rename_i value ht
    obtain ⟨found, decodes, same⟩ := Except.bind_eq_ok.mp hr
    cases same
    exact ⟨value, record, ht, decodes, hs⟩
  · cases hr

theorem Committed.present (hc : Committed journal key) : journal[key]?.isSome = true := by
  obtain ⟨value, _, hs, _⟩ := hc.decodes
  rw [hs]
  rfl

theorem Committed.nextEntry_ne_ok (hc : Committed journal key) (mode : Conclusion)
    (eid : EffectId) (value : Bytes) : nextEntry mode eid journal key ≠ .ok value := by
  obtain ⟨record, hr, hs, _⟩ := hc
  rw [nextEntry_terminal hr (by rw [hs]; rfl)]
  simp

theorem Committed.not_expired (hc : Committed journal key) {older : UInt64} (he : older ≤ 100)
    {record : EffectRecord} (hr : readRecord journal key = .ok (some record)) : isExpired older record = false := by
  obtain ⟨found, same, _, time⟩ := hc
  rw [same] at hr
  cases hr
  simp only [isExpired, time, Option.any_some, UInt64.not_lt.mpr he, decide_false, Bool.and_false]

variable [Ulid]

theorem Committed.listPending_erase (hc : Committed journal key) (instanceId : InstanceId) :
    listPending (journal.erase key) instanceId = listPending journal instanceId := by
  obtain ⟨value, record, hs, hd, ht⟩ := hc.decodes
  have scan : prefixScan (journal.erase key) (getEffectKeyPrefix instanceId) =
      (prefixScan journal (getEffectKeyPrefix instanceId)).filter fun entry => entry.1 ≠ key := by
    rw [prefixScan, toList_erase, List.filter_comm]
    rfl
  rw [listPending_eq, listPending_eq, scan]
  refine Except.filter_mapM ?_
  intro entry mem here
  have same : entry.1 = key := by simpa using here
  have held := ((mem_prefixScan journal _ entry.1 entry.2).mp mem).1
  rw [same, hs] at held
  cases held
  exact ⟨record, hd, by simp [ht]⟩

theorem commit_committed {eid : EffectId} (he : encodeEffectKey eid = some key)
    (hc : (commit journal eid).1 = some (.ok ())) : Committed (commit journal eid).2 key := by
  obtain ⟨value, next, hi⟩ := conclude_eq_ok he hc
  obtain ⟨record, dec, _, _, _, hd, same⟩ := nextEntry_eq_ok next
  rw [commit, hi]
  exact ⟨dec, readRecord_insert journal key hd, same.status, same.committedAt⟩

theorem Committed.step (hc : Committed journal key) {call : Call}
    (hb : ∀ older, call = .compact older → older ≤ 100) : Committed (EffectJournal.step journal call).2 key := by
  apply hc.congr
  cases call with
  | prepare inst record =>
    rcases prepare_after journal inst record with same | ⟨other, value, ha, hi⟩
    · exact congrArg (·[key]?) same
    · have hd : other ≠ key := by
        intro same
        rw [same] at ha
        simpa [ha] using hc.present
      exact (congrArg (·[key]?) hi).trans (get_insert_of_ne journal hd value)
  | conclude mode eid =>
    rcases conclude_after mode journal eid with same | ⟨other, value, next, hi⟩
    · exact congrArg (·[key]?) same
    · have hd : other ≠ key := by
        intro same
        rw [same] at next
        exact hc.nextEntry_ne_ok mode eid value next
      exact (congrArg (·[key]?) hi).trans (get_insert_of_ne journal hd value)
  | listPending inst => rfl
  | compact older =>
    rcases compact_get journal older key with same | ⟨record, hr, he⟩
    · exact same
    · rw [hc.not_expired (hb older rfl) hr] at he
      cases he

theorem Committed.run (hc : Committed journal key) {calls : List Call}
    (he : ∀ older, Call.compact older ∈ calls → older ≤ 100) :
    Committed (final EffectJournal.step journal calls) key := by
  refine final_invariant EffectJournal.step
    (fun past state => (∀ older, Call.compact older ∈ past → older ≤ 100) → Committed state key)
    (fun _ => hc) ?_ calls he
  intro past state call hh he
  refine (hh fun older mem => he older (List.mem_append_left _ mem)).step ?_
  intro older same
  exact he older (by simp [same])

/-- Until a later compaction, a prepare of a committed effect changes nothing and no listing shows it. -/
theorem committed_never_pending_again {journal : Journal} {effectId : EffectId} {key : Bytes}
    (encoded : encodeEffectKey effectId = some key) (commits : (commit journal effectId).1 = some (.ok ()))
    (calls : List Call) (early : ∀ olderThan, Call.compact olderThan ∈ calls → olderThan ≤ 100) :
    (∀ instanceId record, EffectId.new instanceId record.intentId = .ok effectId →
      prepare (final step (commit journal effectId).2 calls) instanceId record =
        (some (.ok effectId), final step (commit journal effectId).2 calls)) ∧
    ∀ instanceId, listPending ((final step (commit journal effectId).2 calls).erase key) instanceId =
      listPending (final step (commit journal effectId).2 calls) instanceId := by
  have hc := (commit_committed encoded commits).run early
  exact ⟨fun instanceId record hr => prepare_present hr encoded hc.present, hc.listPending_erase⟩

end

section Sample

attribute [local instance] Ulid.Crockford.codec Json.Text.codec Zstd.stored

theorem committed_never_pending_again_sample : (commit sampleJournal sampleEffect).1 = some (.ok ()) ∧
    prepare (final step (commit sampleJournal sampleEffect).2 [.compact 100]) sampleInstance sampleRecord =
      (some (.ok sampleEffect), final step (commit sampleJournal sampleEffect).2 [.compact 100]) := by
  have hc := sample_prepared.conclude_ok .commit
  have kept := committed_never_pending_again sample_prepared.encoded hc [.compact 100] (by simp)
  exact ⟨hc, kept.1 sampleInstance sampleRecord rfl⟩

/-- A prepare of a committed effect succeeds, and after a compaction it makes the effect pending again. -/
theorem committed_prepared_again : (commit sampleJournal sampleEffect).1 = some (.ok ()) ∧
    (prepare (commit sampleJournal sampleEffect).2 sampleInstance sampleRecord).1 = some (.ok sampleEffect) ∧
    (listPending (prepare (compact (commit sampleJournal sampleEffect).2 101).2 sampleInstance sampleRecord).2
      sampleInstance).map (List.map EffectRecord.intentId) = .ok ["fx-1"] := by
  have hc := sample_prepared.conclude_ok .commit
  have hp := (commit_committed sample_prepared.encoded hc).present
  refine ⟨hc, ?_, by decide +kernel⟩
  rw [prepare_present rfl sample_prepared.encoded hp]

end Sample

end Veloxide.EffectJournal
