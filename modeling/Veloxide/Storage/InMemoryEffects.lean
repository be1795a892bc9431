import Veloxide.Library.Execution
import Veloxide.Library.Worklist
import Veloxide.Storage.EffectJournal

namespace Veloxide.EffectJournal.InMemory

open ByteCodec OrderedStore List

abbrev Records := Store String EffectRecord

variable (record : EffectRecord) (key : String)

def ensureNotTerminal : Except EffectJournalError Unit := match record.status with
  | .committed => .error (.alreadyTerminal key record.status.toText)
  | .rolledBack => .error (.alreadyTerminal key record.status.toText)
  | .prepared => .ok ()

variable (target : Conclusion)

def constructNextRecord : Except EffectJournalError EffectRecord :=
  (EffectRecord.new record.intentId record.kind record.paramsJson target.status target.committedAt).okOr
    (.storage "failed to create record")

def validateAndTransition : Except EffectJournalError EffectRecord := do
  ensureNotTerminal record key
  constructNextRecord record target

def startsWith (text start : String) : Bool := (utf8 start).isPrefixOf (utf8 text)

section

variable [Ulid] (hash : HashOrder (String × EffectRecord))

def prepare (records : Records) (inst : InstanceId) (record : EffectRecord) :
    Except EffectJournalError EffectId × Records :=
  match EffectId.new inst record.intentId with
  | .error failure => (.error failure, records)
  | .ok effectId =>
    if records[effectId.text]?.isSome then (.ok effectId, records)
    else (.ok effectId, records.insert effectId.text record)

omit [Ulid] in
def conclude (mode : Conclusion) (records : Records) (effectId : EffectId) :
    Except EffectJournalError Unit × Records :=
  match records[effectId.text]? with
  | none => (.error (.notFound effectId.text), records)
  | some record =>
    match validateAndTransition record effectId.text mode with
    | .error failure => (.error failure, records)
    | .ok next => (.ok (), records.insert effectId.text next)

def listPending (records : Records) (inst : InstanceId) : List EffectRecord :=
  ((hash.iterate records.toList).filter fun entry =>
    startsWith entry.1 (inst.text ++ "::") && entry.2.status = .prepared).map Prod.snd

omit [Ulid] in
def compact (records : Records) (olderThan : UInt64) : Nat × Records := let keysToRemove :=
    ((hash.iterate records.toList).filter fun entry => isExpired olderThan entry.2).map Prod.fst
  (keysToRemove.length, OrderedStore.commit records (keysToRemove.map fun key => (key, none)))

def step (records : Records) : Call → Reply × Records
  | .prepare inst record => (prepare records inst record).map (.prepared ∘ some) id
  | .conclude mode effectId => (conclude mode records effectId).map (.concluded ∘ some) id
  | .listPending inst => (.listed (.ok (listPending hash records inst)), records)
  | .compact olderThan => (compact hash records olderThan).map (.compacted ∘ .ok) id

end

theorem validateAndTransition_eq : validateAndTransition record key target =
    if record.status.isTerminal then .error (.alreadyTerminal key record.status.toText)
    else if record.intentId = "" then .error (.storage "failed to create record")
    else .ok (record.concluded target) := by
  have hc : constructNextRecord record target = if record.intentId = "" then .error (.storage "failed to create record")
      else .ok (record.concluded target) := by
    rw [constructNextRecord, EffectRecord.new]
    split_ifs <;> rfl
  rw [validateAndTransition, ensureNotTerminal, hc]
  cases record.status <;> rfl

section

variable [Ulid]

def effectText (inst : InstanceId) (intentId : String) : String := inst.text ++ "::" ++ intentId

theorem effectText_injective {left right : InstanceId} {leftIntent rightIntent : String}
    (same : effectText left leftIntent = effectText right rightIntent) : left = right ∧ leftIntent = rightIntent := by
  have hb := congrArg utf8 same
  simp only [effectText, utf8_append, append_assoc] at hb
  obtain ⟨ids, rest⟩ := append_inj hb (by rw [left.length_text, right.length_text])
  exact ⟨InstanceId.ext (utf8_injective ids), utf8_injective (append_cancel_left rest)⟩

theorem startsWith_effectText (owner inst : InstanceId) (intent : String) :
    startsWith (effectText owner intent) (inst.text ++ "::") = true ↔ owner = inst := by
  rw [startsWith, isPrefixOf_iff_prefix]
  constructor
  · intro hs
    obtain ⟨rest, same⟩ := hs
    simp only [effectText, utf8_append, append_assoc] at same
    obtain ⟨ids, _⟩ := append_inj same (by rw [owner.length_text, inst.length_text])
    exact (InstanceId.ext (utf8_injective ids)).symm
  · intro same
    rw [same, effectText, utf8_append]
    exact prefix_append _ _

theorem prepare_cases (records : Records) (inst : InstanceId) (record : EffectRecord) :
    ((record.intentId = "" ∨ records[effectText inst record.intentId]?.isSome = true) ∧
        (prepare records inst record).2 = records) ∨
      (record.intentId ≠ "" ∧ records[effectText inst record.intentId]? = none ∧
        (prepare records inst record).2 = records.insert (effectText inst record.intentId) record) := by
  rw [prepare, EffectId.new]
  by_cases he : record.intentId = ""
  · rw [if_pos he]
    exact .inl ⟨.inl he, rfl⟩
  · have hn : inst.text ++ "::" ++ record.intentId = effectText inst record.intentId := rfl
    simp only [he, hn, ↓reduceIte]
    cases held : records[effectText inst record.intentId]? with
    | some other => exact .inl ⟨.inr rfl, rfl⟩
    | none => exact .inr ⟨he, rfl, rfl⟩

omit [Ulid] in
theorem conclude_cases (mode : Conclusion) (records : Records) (eid : EffectId) :
    ((∀ record, records[eid.text]? = some record → record.status.isTerminal = true ∨ record.intentId = "") ∧
        (conclude mode records eid).2 = records) ∨
      ∃ record, records[eid.text]? = some record ∧ record.status.isTerminal = false ∧ record.intentId ≠ "" ∧
        (conclude mode records eid).2 = records.insert eid.text (record.concluded mode) := by
  rw [conclude]
  cases held : records[eid.text]? with
  | none => exact .inl ⟨nofun, rfl⟩
  | some record =>
    simp only [validateAndTransition_eq]
    split_ifs with terminal unnamed
    · exact .inl ⟨fun _ same => .inl (Option.some.inj same ▸ terminal), rfl⟩
    · exact .inl ⟨fun _ same => .inr (Option.some.inj same ▸ unnamed), rfl⟩
    · exact .inr ⟨record, rfl, by simpa using terminal, unnamed, rfl⟩

theorem mem_listPending (hash : HashOrder (String × EffectRecord)) (records : Records) (inst : InstanceId)
    (record : EffectRecord) : record ∈ listPending hash records inst ↔ ∃ text, records[text]? = some record ∧
      startsWith text (inst.text ++ "::") = true ∧ record.status = .prepared := by
  simp only [listPending, mem_map, mem_filter, (hash.perm records.toList).mem_iff, Bool.and_eq_true, decide_eq_true_eq]
  constructor
  · intro hl
    obtain ⟨⟨text, _⟩, ⟨mem, hs, ht⟩, rfl⟩ := hl
    exact ⟨text, (mem_entries records text _).mp mem, hs, ht⟩
  · intro hf
    obtain ⟨text, held, hs, ht⟩ := hf
    exact ⟨(text, record), ⟨(mem_entries records text record).mpr held, hs, ht⟩, rfl⟩

end

section

variable [Ulid]

/-- The record was the first one prepared for its effect, which was neither committed nor rolled
    back since. -/
structure Pending (earlier : List Call) (inst : InstanceId) (record : EffectRecord) : Prop where
  named : record.intentId ≠ ""
  status : record.status = .prepared
  prepared : ∃ before after, earlier = before ++ .prepare inst record :: after ∧
    (∀ other, Call.prepare inst other ∈ before → other.intentId ≠ record.intentId) ∧
    ∀ mode effectId, Call.conclude mode effectId ∈ after →
      effectId.text ≠ effectText inst record.intentId

theorem pending_append_singleton (earlier : List Call) (call : Call) (inst : InstanceId) (record : EffectRecord) :
    Pending (earlier ++ [call]) inst record ↔
      (Pending earlier inst record ∧ ∀ mode eid, call = .conclude mode eid →
        eid.text ≠ effectText inst record.intentId) ∨
      (call = .prepare inst record ∧ record.intentId ≠ "" ∧ record.status = .prepared ∧
        ∀ other, Call.prepare inst other ∈ earlier → other.intentId ≠ record.intentId) := by
  constructor
  · intro hp
    obtain ⟨hn, hs, before, after, ha, hf, hi⟩ := hp
    rcases eq_nil_or_concat after with rfl | ⟨middle, last, rfl⟩
    · obtain ⟨rfl, same⟩ := append_inj' ha rfl
      exact .inr ⟨(List.cons.inj same).1, hn, hs, hf⟩
    · rw [concat_eq_append, ← cons_append, ← append_assoc] at ha
      obtain ⟨rfl, same⟩ := append_inj' ha rfl
      left
      refine ⟨⟨hn, hs, before, middle, rfl, hf, ?_⟩, ?_⟩
      · intro mode eid mem
        exact hi mode eid (by simp [mem])
      · intro mode eid hc
        exact hi mode eid (by simp [← (List.cons.inj same).1, hc])
  · intro ho
    rcases ho with ⟨⟨hn, hs, before, after, rfl, hf, hi⟩, kept⟩ | ⟨rfl, hn, hs, hf⟩
    · refine ⟨hn, hs, before, after ++ [call], by simp, hf, ?_⟩
      intro mode eid mem
      rcases mem_append.mp mem with earlier | last
      · exact hi mode eid earlier
      · exact kept mode eid (mem_singleton.mp last).symm
    · exact ⟨hn, hs, earlier, [], rfl, hf, nofun⟩

def PreparedIn (earlier : List Call) (inst : InstanceId) (intentId : String) : Prop :=
  ∃ record, Call.prepare inst record ∈ earlier ∧ record.intentId = intentId

theorem preparedIn_append_singleton (earlier : List Call) (call : Call) (inst : InstanceId) (intentId : String) :
    PreparedIn (earlier ++ [call]) inst intentId ↔
      PreparedIn earlier inst intentId ∨ ∃ record, call = .prepare inst record ∧ record.intentId = intentId := by
  simp only [PreparedIn, mem_append, mem_singleton, or_and_right, exists_or, eq_comm]

structure Faithful (earlier : List Call) (records : Records) : Prop where
  present : ∀ inst intentId, records[effectText inst intentId]?.isSome = true ↔
    intentId ≠ "" ∧ PreparedIn earlier inst intentId
  named : ∀ text record, records[text]? = some record →
    ∃ inst, text = effectText inst record.intentId ∧ record.intentId ≠ ""
  pending : ∀ inst record, Pending earlier inst record ↔
    records[effectText inst record.intentId]? = some record ∧ record.status = .prepared

variable {earlier : List Call} {call : Call}

theorem Faithful.keep {records : Records} (hf : Faithful earlier records)
    (hp : ∀ inst record, call = .prepare inst record → record.intentId =
      "" ∨ records[effectText inst record.intentId]?.isSome = true)
    (hc : ∀ mode eid, call = .conclude mode eid → ∀ record, records[eid.text]? =
      some record → record.status.isTerminal = true ∨ record.intentId = "") :
    Faithful (earlier ++ [call]) records := by
  refine ⟨?_, hf.named, ?_⟩
  · intro inst intent
    rw [hf.present, preparedIn_append_singleton]
    refine and_congr_right fun hn => (or_iff_left_of_imp ?_).symm
    intro last
    obtain ⟨record, hr, same⟩ := last
    rcases hp inst record hr with empty | held
    · exact absurd (same.symm.trans empty) hn
    · rw [same] at held
      exact ((hf.present inst intent).mp held).2
  · intro inst record
    rw [pending_append_singleton, ← hf.pending]
    constructor
    · intro ho
      rcases ho with ⟨he, _⟩ | ⟨rfl, hn, _, hi⟩
      · exact he
      · rcases hp inst record rfl with empty | held
        · exact absurd empty hn
        · obtain ⟨_, other, mem, same⟩ := (hf.present inst record.intentId).mp held
          exact absurd same (hi other mem)
    · intro he
      refine .inl ⟨he, ?_⟩
      intro mode eid ha same
      have held := ((hf.pending inst record).mp he).1
      rw [← same] at held
      rcases hc mode eid ha record held with ht | empty
      · rw [he.status] at ht
        cases ht
      · exact he.named empty

theorem Faithful.inserted {records : Records} (hf : Faithful earlier records) {inst : InstanceId}
    {record : EffectRecord} (hn : record.intentId ≠ "") (ha : records[effectText inst record.intentId]? = none) :
    Faithful (earlier ++ [.prepare inst record]) (records.insert (effectText inst record.intentId) record) := by
  refine ⟨?_, ?_, ?_⟩
  · intro owner intent
    rw [get_insert]
    split_ifs with here
    · obtain ⟨rfl, rfl⟩ := effectText_injective here
      exact ⟨fun _ => ⟨hn, record, by simp, rfl⟩, fun _ => rfl⟩
    · rw [hf.present, preparedIn_append_singleton]
      refine and_congr_right fun _ => (or_iff_left ?_).symm
      intro last
      obtain ⟨other, hp, same⟩ := last
      obtain ⟨rfl, rfl⟩ := Call.prepare.inj hp
      exact here (by rw [same])
  · exact forall_insert hf.named ⟨inst, rfl, hn⟩
  · intro owner other
    rw [pending_append_singleton, get_insert, hf.pending]
    split_ifs with here
    · obtain ⟨rfl, hb⟩ := effectText_injective here
      rw [← hb, ha]
      constructor
      · intro ho
        rcases ho with ⟨⟨hi, _⟩, _⟩ | ⟨hp, _, hs, _⟩
        · cases hi
        · exact ⟨congrArg some (Call.prepare.inj hp).2, hs⟩
      · intro ho
        obtain ⟨same, hs⟩ := ho
        cases same
        refine .inr ⟨rfl, hn, hs, ?_⟩
        intro other mem same
        have held := (hf.present inst record.intentId).mpr ⟨hn, other, mem, same⟩
        rw [ha] at held
        cases held
    · refine ⟨?_, fun held => .inl ⟨held, nofun⟩⟩
      intro ho
      rcases ho with ⟨held, _⟩ | ⟨hp, _⟩
      · exact held
      · obtain ⟨rfl, rfl⟩ := Call.prepare.inj hp
        exact absurd rfl here

theorem Faithful.replaced {records : Records} (hf : Faithful earlier records) {mode : Conclusion}
    {eid : EffectId} {record : EffectRecord} (held : records[eid.text]? = some record) :
    Faithful (earlier ++ [.conclude mode eid]) (records.insert eid.text (record.concluded mode)) := by
  obtain ⟨owner, text, hn⟩ := hf.named eid.text record held
  refine ⟨?_, ?_, ?_⟩
  · intro inst intent
    have kept : (records.insert eid.text (record.concluded mode))[effectText inst intent]?.isSome =
        records[effectText inst intent]?.isSome := by
      rw [get_insert]
      split_ifs with here
      · rw [← here, held]
        rfl
      · rfl
    rw [kept, hf.present, preparedIn_append_singleton]
    simp
  · exact forall_insert hf.named ⟨owner, text, hn⟩
  · intro inst other
    rw [pending_append_singleton, get_insert, hf.pending]
    split_ifs with here
    · constructor
      · intro ho
        rcases ho with ⟨_, kept⟩ | ⟨hi, _⟩
        · exact absurd here (kept mode eid rfl)
        · cases hi
      · intro ho
        obtain ⟨same, hs⟩ := ho
        cases same
        cases mode <;> cases hs
    · refine ⟨?_, fun ht => .inl ⟨ht, ?_⟩⟩
      · intro ho
        rcases ho with ⟨ht, _⟩ | ⟨hi, _⟩
        · exact ht
        · cases hi
      · intro _ effect hc
        rw [← (Call.conclude.inj hc).2]
        exact here

variable (hash : HashOrder (String × EffectRecord))

theorem Faithful.step {records : Records} (hf : Faithful earlier records) (hu : ∀ older, call ≠ .compact older) :
    Faithful (earlier ++ [call]) (InMemory.step hash records call).2 := by
  cases call with
  | prepare inst record =>
    show Faithful _ (prepare records inst record).2
    rcases prepare_cases records inst record with ⟨hb, same⟩ | ⟨hn, ha, hd⟩
    · rw [same]
      refine hf.keep ?_ (nofun)
      intro owner other hp
      obtain ⟨rfl, rfl⟩ := Call.prepare.inj hp
      exact hb
    · rw [hd]
      exact hf.inserted hn ha
  | conclude mode eid =>
    show Faithful _ (conclude mode records eid).2
    rcases conclude_cases mode records eid with ⟨hb, same⟩ | ⟨record, held, _, _, hr⟩
    · rw [same]
      refine hf.keep (nofun) ?_
      intro other effect hc
      obtain ⟨rfl, rfl⟩ := Call.conclude.inj hc
      exact hb
    · rw [hr]
      exact hf.replaced held
  | listPending inst =>
    exact hf.keep (nofun) (nofun)
  | compact older => exact absurd rfl (hu older)

theorem faithful_run {calls : List Call} (hu : ∀ older, Call.compact older ∉ calls) :
    Faithful calls (Machine.final (InMemory.step hash) ∅ calls) := by
  have hs : Faithful [] ∅ := by
    refine ⟨by simp [PreparedIn], by simp, ?_⟩
    intro inst record
    simp only [Std.ExtTreeMap.getElem?_empty, reduceCtorEq, false_and, iff_false]
    intro hp
    obtain ⟨_, _, before, after, ha, _⟩ := hp
    simp at ha
  refine Machine.final_invariant (InMemory.step hash)
    (fun earlier records => (∀ older, Call.compact older ∉ earlier) → Faithful earlier records)
    (fun _ => hs) ?_ calls hu
  intro earlier records call hf hu
  refine (hf fun older mem => hu older (mem_append_left _ mem)).step hash ?_
  intro older same
  exact hu older (by simp [same])

theorem Faithful.mem_listPending_iff {records : Records} (hf : Faithful earlier records)
    (hash : HashOrder (String × EffectRecord)) (inst : InstanceId) (record : EffectRecord) :
    record ∈ listPending hash records inst ↔ Pending earlier inst record := by
  rw [mem_listPending, hf.pending]
  constructor
  · intro ho
    obtain ⟨text, held, hs, ht⟩ := ho
    obtain ⟨owner, rfl, _⟩ := hf.named text record held
    rw [← (startsWith_effectText owner inst record.intentId).mp hs]
    exact ⟨held, ht⟩
  · intro ho
    exact ⟨effectText inst record.intentId, ho.1, (startsWith_effectText _ _ _).mpr rfl, ho.2⟩

end

end Veloxide.EffectJournal.InMemory
