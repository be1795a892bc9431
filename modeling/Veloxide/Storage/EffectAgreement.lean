import Veloxide.Storage.InMemoryEffects

namespace Veloxide.EffectJournal

open ByteCodec OrderedStore Machine List

theorem EffectRecord.Same.trans {first second third : EffectRecord} (left : first.Same second)
    (hr : second.Same third) : first.Same third :=
  ⟨hr.intentId.trans left.intentId, hr.kind.trans left.kind, left.paramsJson.trans hr.paramsJson,
    hr.status.trans left.status, hr.committedAt.trans left.committedAt⟩

theorem EffectRecord.Same.concluded {left right : EffectRecord} (same : left.Same right) (mode : Conclusion) :
    (left.concluded mode).Same (right.concluded mode) :=
  ⟨same.intentId, same.kind, same.paramsJson, rfl, rfl⟩

theorem splitOnce_colons {front : List Char} (free : ':' ∉ front) (back : List Char) :
    splitOnce [':', ':'] (front ++ ':' :: ':' :: back) = some (front, back) := by
  induction front with
  | nil => rfl
  | cons c front ih =>
    have ho : ':' ≠ c := fun same => free (by rw [same]; exact mem_cons_self)
    rw [cons_append, splitOnce, if_neg (by simp [List.isPrefixOf, ho]), ih fun mem => free (mem_cons_of_mem c mem)]
    rfl

section

variable [Ulid]

structure Effect where
  instanceId : InstanceId
  intentId : String
  proper : ¬ instanceId.IsNil

namespace Effect

def text (effect : Effect) : String := InMemory.effectText effect.instanceId effect.intentId

def key (effect : Effect) : Bytes :=
  effect.instanceId.bytes ++ (beBytes 2 (utf8 effect.intentId).length ++ utf8 effect.intentId)

variable {right left : Effect}

theorem ext (ho : left.instanceId = right.instanceId) (hi : left.intentId = right.intentId) : left = right := by
  cases left
  cases right
  cases ho
  cases hi
  rfl

theorem text_injective (same : left.text = right.text) : left = right := by
  obtain ⟨ho, hi⟩ := InMemory.effectText_injective same
  exact ext ho hi

theorem key_injective (same : left.key = right.key) : left = right := by
  obtain ⟨ids, rest⟩ := append_inj same (by simp)
  obtain ⟨_, hi⟩ := append_inj rest (by simp)
  exact ext (InstanceId.bytes_injective ids) (utf8_injective hi)

theorem prefix_key_iff (instanceId : InstanceId) (effect : Effect) :
    getEffectKeyPrefix instanceId <+: effect.key ↔ effect.instanceId = instanceId := by
  have bytes : getEffectKeyPrefix instanceId = instanceId.bytes := rfl
  rw [bytes]
  constructor
  · intro hs
    obtain ⟨rest, same⟩ := hs
    obtain ⟨ids, _⟩ := append_inj same (by simp)
    exact (InstanceId.bytes_injective ids).symm
  · intro same
    rw [← same]
    exact prefix_append _ _

variable [Ulid.Alphanumeric] {effect : Effect} {eid : EffectId}

theorem standardKey_eq (same : eid.text = effect.text) : standardKey eid = some effect.key := by
  have hc : eid.text.toList = effect.instanceId.text.toList ++ ':' :: ':' :: effect.intentId.toList := by
    rw [same, text, InMemory.effectText, String.toList_append, String.toList_append, append_assoc]
    rfl
  have hs : splitOnce "::".toList eid.text.toList = some (effect.instanceId.text.toList, effect.intentId.toList) := by
    rw [hc]
    exact splitOnce_colons effect.instanceId.colon_not_mem_text effect.intentId.toList
  have hp : (InstanceId.parse (String.ofList effect.instanceId.text.toList)).toOption = some effect.instanceId := by
    rw [String.ofList_toList, InstanceId.parse_text effect.proper]
    rfl
  have he : instanceKey effect.instanceId (String.ofList effect.intentId.toList) = some effect.key := by
    rw [String.ofList_toList, instanceKey, effect.instanceId.toBytes_eq]
    rfl
  rw [standardKey, hs]
  simp only [Option.bind_eq_bind, Option.bind_some, hp, he]

theorem encodeEffectKey_eq (same : eid.text = effect.text) : encodeEffectKey eid = some effect.key := by
  rw [encodeEffectKey, standardKey_eq same]

end Effect

end

section

variable [Ulid] [JsonCodec] [Zstd]

def Holds (record : EffectRecord) (value : Bytes) : Prop :=
  ∃ decoded, decodeEffectRecord value = .ok decoded ∧ record.Same decoded

structure Simulates (journal : Journal) (records : InMemory.Records) : Prop where
  entries : ∀ effect : Effect, Option.Rel Holds records[effect.text]? journal[effect.key]?
  keys : ∀ key value, journal[key]? = some value → ∃ effect : Effect, key = effect.key
  texts : ∀ text record, records[text]? = some record → ∃ effect : Effect, text = effect.text

def SameEffects (stored kept : List EffectRecord) : Prop :=
  (∀ record ∈ stored, ∃ other ∈ kept, other.Same record) ∧ ∀ other ∈ kept, ∃ record ∈ stored, other.Same record

variable {records : InMemory.Records} {journal : Journal}

theorem Simulates.insert (hs : Simulates journal records)
    (effect : Effect) {record : EffectRecord} {value : Bytes} (hh : Holds record value) :
    Simulates (journal.insert effect.key value) (records.insert effect.text record) := by
  refine ⟨?_, ?_, ?_⟩
  · intro other
    by_cases same : effect = other
    · rw [get_insert, get_insert, if_pos (congrArg Effect.text same), if_pos (congrArg Effect.key same)]
      exact .some hh
    · rw [get_insert_of_ne records fun ht => same (Effect.text_injective ht),
        get_insert_of_ne journal fun keys => same (Effect.key_injective keys)]
      exact hs.entries other
  · exact forall_insert hs.keys ⟨effect, rfl⟩
  · exact forall_insert hs.texts ⟨effect, rfl⟩

variable {effect : Effect}

theorem Simulates.absent (hs : Simulates journal records)
    (hm : records[effect.text]? = none) : journal[effect.key]? = none := by
  have he := hs.entries effect
  rw [hm] at he
  generalize journal[effect.key]? = stored at he ⊢
  cases he with
  | none => rfl

theorem Simulates.kept (hs : Simulates journal records) {value : Bytes} (ht : journal[effect.key]? = some value) :
    ∃ record, records[effect.text]? = some record ∧ Holds record value := by
  have he := hs.entries effect
  rw [ht] at he
  generalize records[effect.text]? = kept at he ⊢
  cases he with
  | some hh => exact ⟨_, rfl, hh⟩

theorem Simulates.stored (hs : Simulates journal records)
    {record : EffectRecord} (kept : records[effect.text]? = some record) :
    ∃ value, journal[effect.key]? = some value ∧ Holds record value := by
  have he := hs.entries effect
  rw [kept] at he
  generalize journal[effect.key]? = stored at he ⊢
  cases he with
  | some hh => exact ⟨_, rfl, hh⟩

theorem mem_listPending (inst : InstanceId)
    (hd : ∀ (key value : Bytes), journal[key]? = some value → ∃ record, decodeEffectRecord value = .ok record) :
    ∃ listed, listPending journal inst = .ok listed ∧ ∀ record, record ∈ listed ↔
      ∃ key value : Bytes, journal[key]? = some value ∧ getEffectKeyPrefix inst <+: key ∧
        decodeEffectRecord value = .ok record ∧ record.status = .prepared := by
  have ht : ∀ entry ∈ prefixScan journal (getEffectKeyPrefix inst), ∃ record, decodeEffectRecord entry.2 = .ok record :=
    fun entry mem => hd entry.1 entry.2 ((mem_prefixScan journal _ entry.1 entry.2).mp mem).1
  obtain ⟨records, he⟩ := Except.mapM_total ht
  refine ⟨records.filter fun record => record.status = .prepared, by rw [listPending_eq, he]; rfl, ?_⟩
  intro record
  rw [mem_filter, Except.mem_mapM he, decide_eq_true_eq]
  constructor
  · intro hf
    obtain ⟨⟨⟨key, value⟩, mem, hd⟩, hs⟩ := hf
    obtain ⟨held, ha⟩ := (mem_prefixScan journal _ key value).mp mem
    exact ⟨key, value, held, ha, hd, hs⟩
  · intro hf
    obtain ⟨key, value, held, ha, hd, hs⟩ := hf
    exact ⟨⟨(key, value), (mem_prefixScan journal _ key value).mpr ⟨held, ha⟩, hd⟩, hs⟩

variable (hash : HashOrder (String × EffectRecord))

theorem Simulates.listPending (hs : Simulates journal records) (inst : InstanceId) :
    ∃ listed, listPending journal inst = .ok listed ∧ SameEffects listed (InMemory.listPending hash records inst) := by
  have hd : ∀ key value : Bytes, journal[key]? = some value → ∃ record, decodeEffectRecord value = .ok record := by
    intro key value held
    obtain ⟨effect, rfl⟩ := hs.keys key value held
    obtain ⟨_, _, dec, he, _⟩ := hs.kept held
    exact ⟨dec, he⟩
  obtain ⟨listed, hl, hm⟩ := mem_listPending inst hd
  refine ⟨listed, hl, ?_, ?_⟩
  · intro record mem
    obtain ⟨key, value, held, ht, he, ha⟩ := (hm record).mp mem
    obtain ⟨effect, rfl⟩ := hs.keys key value held
    obtain ⟨other, kept, dec, hf, same⟩ := hs.kept held
    rw [hf] at he
    cases he
    have ho := (Effect.prefix_key_iff inst effect).mp ht
    exact ⟨other, (InMemory.mem_listPending hash records inst other).mpr
      ⟨effect.text, kept, (InMemory.startsWith_effectText _ _ _).mpr ho, same.status ▸ ha⟩, same⟩
  · intro other mem
    obtain ⟨text, kept, ht, ha⟩ := (InMemory.mem_listPending hash records inst other).mp mem
    obtain ⟨effect, rfl⟩ := hs.texts text other kept
    obtain ⟨value, held, dec, he, same⟩ := hs.stored kept
    have ho := (InMemory.startsWith_effectText effect.instanceId inst effect.intentId).mp ht
    exact ⟨dec, (hm dec).mpr ⟨effect.key, value, held,
      (Effect.prefix_key_iff inst effect).mpr ho, he, same.status.trans ha⟩, same⟩

variable [Ulid.Alphanumeric]

theorem Simulates.prepare (hs : Simulates journal records)
    {inst : InstanceId} (hr : ¬ inst.IsNil) (record : EffectRecord) :
    (prepare journal inst record).1 = some (InMemory.prepare records inst record).1 ∧
      Simulates (prepare journal inst record).2 (InMemory.prepare records inst record).2 := by
  cases hc : EffectId.new inst record.intentId with
  | error err =>
    simp only [EffectJournal.prepare, InMemory.prepare, hc]
    exact ⟨trivial, hs⟩
  | ok eid =>
    have text : eid.text = (Effect.mk inst record.intentId hr).text := (EffectId.new_eq_ok hc).2
    have he := Effect.encodeEffectKey_eq text
    cases held : records[eid.text]? with
    | some kept =>
      obtain ⟨value, ht, _⟩ := hs.stored (text ▸ held)
      rw [prepare_present hc he (by rw [ht]; rfl)]
      simp only [InMemory.prepare, hc, held, Option.isSome_some, ↓reduceIte]
      exact ⟨trivial, hs⟩
    | none =>
      obtain ⟨value, decoded, hp, hd, same⟩ := prepare_absent hc he (hs.absent (text ▸ held))
      rw [hp]
      simp only [InMemory.prepare, hc, held, Option.isSome_none, Bool.false_eq_true, ↓reduceIte]
      refine ⟨trivial, ?_⟩
      rw [text]
      exact hs.insert _ ⟨decoded, hd, same⟩

theorem Simulates.conclude (hs : Simulates journal records)
    (mode : Conclusion) {eid : EffectId} (text : eid.text = effect.text) :
    (conclude mode journal eid).1 = some (InMemory.conclude mode records eid).1 ∧
      Simulates (conclude mode journal eid).2 (InMemory.conclude mode records eid).2 := by
  simp only [EffectJournal.conclude, Effect.encodeEffectKey_eq text, InMemory.conclude, text]
  cases held : records[effect.text]? with
  | none =>
    have hr : readRecord journal effect.key = .ok none := by
      rw [readRecord, hs.absent held]
    have hm : nextValue mode eid none = .error (.notFound effect.text) := by
      rw [← text]
      rfl
    rw [nextEntry_of_read hr, hm]
    exact ⟨rfl, hs⟩
  | some record =>
    obtain ⟨value, ht, decoded, hd, same⟩ := hs.stored held
    have hr : readRecord journal effect.key = .ok (some decoded) := by
      rw [readRecord, ht]
      simp only [hd]
      rfl
    rw [nextEntry_of_read hr, nextValue_some, same.status, same.intentId, text]
    simp only [InMemory.validateAndTransition_eq]
    split_ifs with terminal unnamed
    · exact ⟨rfl, hs⟩
    · exact ⟨rfl, hs⟩
    · obtain ⟨next, found, he, hd, hn⟩ := decode_encodeEffectRecord (decoded.concluded mode)
      rw [he]
      exact ⟨rfl, hs.insert effect ⟨found, hd, (same.concluded mode).trans hn⟩⟩

/-- The calls that the comparison is about: no compaction, and no id that the key encoding cannot parse. -/
def Call.Standard : Call → Prop
  | .prepare instanceId _ => ¬ instanceId.IsNil
  | .conclude _ effectId => ∃ effect : Effect, effectId.text = effect.text
  | .listPending _ => True
  | .compact _ => False

def Reply.Agrees : Reply → Reply → Prop
  | .prepared left, .prepared right => left = right
  | .concluded left, .concluded right => left = right
  | .listed (.ok left), .listed (.ok right) => SameEffects left right
  | _, _ => False

theorem Simulates.step {call : Call} (hs : Simulates journal records) (ht : call.Standard) :
    Reply.Agrees (step journal call).1 (InMemory.step hash records call).1 ∧
      Simulates (step journal call).2 (InMemory.step hash records call).2 := by
  cases call with
  | prepare inst record => exact hs.prepare ht record
  | conclude mode eid =>
    obtain ⟨effect, text⟩ := ht
    exact hs.conclude mode text
  | listPending inst =>
    obtain ⟨listed, hl, same⟩ := hs.listPending hash inst
    simp only [EffectJournal.step, InMemory.step, hl]
    exact ⟨same, hs⟩
  | compact older => exact ht.elim

end

section Sample

attribute [local instance] Ulid.Crockford.codec Json.Text.codec Zstd.stored

def sampleCalls : List Call :=
  [.prepare sampleInstance sampleRecord, .conclude .commit sampleEffect, .conclude .rollback sampleEffect,
    .listPending sampleInstance]

theorem sample_standard : ∀ call ∈ sampleCalls, call.Standard := by
  have hp : ¬ sampleInstance.IsNil := by decide +kernel
  have hs : ∃ effect : Effect, sampleEffect.text = effect.text := ⟨⟨sampleInstance, "fx-1", hp⟩, rfl⟩
  simp [sampleCalls, Call.Standard, hp, hs]

def sampleCommitted : EffectRecord := { sampleRecord with status := .committed }

end Sample

end Veloxide.EffectJournal
