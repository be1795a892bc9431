import Veloxide.Library.JsonText
import Veloxide.Library.Keyspace
import Veloxide.Storage.KeyEncoding

open Except

/-- A compressor: what is compressed decompresses to the same bytes. -/
class Zstd where
  encodeAll : ByteCodec.Bytes → Except String ByteCodec.Bytes
  decodeAll : ByteCodec.Bytes → Except String ByteCodec.Bytes
  decodeAll_encodeAll : ∀ bytes, ∃ compressed, encodeAll bytes = .ok compressed ∧ decodeAll compressed = .ok bytes

@[reducible] def Zstd.stored : Zstd where
  encodeAll := .ok
  decodeAll := .ok
  decodeAll_encodeAll bytes := ⟨bytes, rfl, rfl⟩

namespace Veloxide.EffectJournal

open ByteCodec OrderedStore KeyEncoding Serde

inductive EffectKind
  | httpCall
  | sqlQuery
  | blobWrite

inductive EffectIntent
  | prepared
  | committed
  | rolledBack
deriving DecidableEq

namespace EffectKind

def variants : List (String × EffectKind) := [("HttpCall", httpCall), ("SqlQuery", sqlQuery), ("BlobWrite", blobWrite)]

def toText : EffectKind → String
  | httpCall => "HttpCall"
  | sqlQuery => "SqlQuery"
  | blobWrite => "BlobWrite"

end EffectKind

namespace EffectIntent

def variants : List (String × EffectIntent) :=
  [("Prepared", prepared), ("Committed", committed), ("RolledBack", rolledBack)]

def toText : EffectIntent → String
  | prepared => "Prepared"
  | committed => "Committed"
  | rolledBack => "RolledBack"

def isTerminal : EffectIntent → Bool
  | prepared => false
  | committed => true
  | rolledBack => true

end EffectIntent

inductive EffectJournalError
  | alreadyTerminal (effectId currentStatus : String)
  | notFound (effectId : String)
  | storage (reason : String)
  | codec (reason : String)
  | invalidArgument
deriving DecidableEq

structure EffectRecord where
  intentId : String
  kind : EffectKind
  paramsJson : Json
  status : EffectIntent
  committedAt : Option UInt64

namespace EffectRecord

def new (intentId : String) (kind : EffectKind) (paramsJson : Json) (status : EffectIntent)
    (committedAt : Option UInt64) : Option EffectRecord :=
  if intentId = "" then none else some ⟨intentId, kind, paramsJson, status, committedAt⟩

def toJson (record : EffectRecord) : Json :=
  .object [("intent_id", .string record.intentId), ("kind", .string record.kind.toText),
    ("params_json", record.paramsJson), ("status", .string record.status.toText),
    ("committed_at", (record.committedAt.map Json.u64).getD .null)]

def fromJson (value : Json) : Except String EffectRecord := do
  let fields ← record "EffectRecord" ["intent_id", "kind", "params_json", "status", "committed_at"] value
  let intentId ← required fields "intent_id" toStr
  let kind ← required fields "kind" (toUnitVariant EffectKind.variants)
  let paramsJson ← required fields "params_json" .ok
  let status ← required fields "status" (toUnitVariant EffectIntent.variants)
  let committedAt ← present fields "committed_at" (toOption toU64)
  return ⟨intentId, kind, paramsJson, status, committedAt.join⟩

structure Same (left right : EffectRecord) : Prop where
  intentId : right.intentId = left.intentId
  kind : right.kind = left.kind
  paramsJson : left.paramsJson.Same right.paramsJson
  status : right.status = left.status
  committedAt : right.committedAt = left.committedAt

section

variable [JsonCodec] [Zstd]

def compress (record : EffectRecord) : Except String Bytes := do
  let json ← (JsonCodec.toText record.toJson).mapError ("Serialization failed: " ++ ·)
  (Zstd.encodeAll (utf8 json)).mapError ("Compression failed: " ++ ·)

def decompress (compressed : Bytes) : Except String EffectRecord := do
  let decompressed ← (Zstd.decodeAll compressed).mapError ("Decompression failed: " ++ ·)
  let json ← (fromUtf8 decompressed).okOr "Decompression failed: invalid utf-8 sequence"
  (JsonCodec.ofText json >>= fromJson).mapError ("Deserialization failed: " ++ ·)

end

end EffectRecord

section

theorem toUnitVariant_kind (kind : EffectKind) : toUnitVariant EffectKind.variants (.string kind.toText) = .ok kind := by
  cases kind <;> rfl

theorem toUnitVariant_status (status : EffectIntent) :
    toUnitVariant EffectIntent.variants (.string status.toText) = .ok status := by
  cases status <;> rfl

theorem EffectRecord.fromJson_same {record : EffectRecord} {other : Json} (same : record.toJson.Same other) :
    ∃ decoded, EffectRecord.fromJson other = .ok decoded ∧ record.Same decoded := by
  obtain ⟨right, rfl, hr⟩ := same.object_right
  have intentId : required right "intent_id" toStr = .ok record.intentId :=
    required_string hr (by simp [Json.lookup_cons]) rfl
  have kind : required right "kind" (toUnitVariant EffectKind.variants) = .ok record.kind :=
    required_string hr (by simp [Json.lookup_cons]) (toUnitVariant_kind record.kind)
  have status : required right "status" (toUnitVariant EffectIntent.variants) = .ok record.status :=
    required_string hr (by simp [Json.lookup_cons]) (toUnitVariant_status record.status)
  have hc : present right "committed_at" (toOption toU64) = .ok (some record.committedAt) :=
    present_related hr (by simp [Json.lookup_cons]) fun other same => toOption_u64_related same
  obtain ⟨params, hf, hp⟩ := lookup_related hr
    (show Json.lookup _ "params_json" = some record.paramsJson by simp [Json.lookup_cons])
  have ha : required right "params_json" .ok = .ok params := by
    rw [required, hf]
    rfl
  refine ⟨⟨record.intentId, record.kind, params, record.status, record.committedAt⟩, ?_, ⟨rfl, rfl, hp, rfl, rfl⟩⟩
  exact bind_eq_ok.mpr ⟨right, rfl, bind_eq_ok.mpr ⟨_, intentId, bind_eq_ok.mpr ⟨_, kind,
    bind_eq_ok.mpr ⟨_, ha, bind_eq_ok.mpr ⟨_, status, bind_eq_ok.mpr
      ⟨_, hc, rfl⟩⟩⟩⟩⟩⟩

variable [JsonCodec] [Zstd] (record : EffectRecord)

def encodeEffectRecord : Except EffectJournalError Bytes := record.compress.mapError .codec

def decodeEffectRecord (bytes : Bytes) : Except EffectJournalError EffectRecord :=
  (EffectRecord.decompress bytes).mapError .codec

theorem decode_encodeEffectRecord :
    ∃ bytes decoded, encodeEffectRecord record = .ok bytes ∧ decodeEffectRecord bytes = .ok decoded ∧
      record.Same decoded := by
  obtain ⟨text, value, hp, ha, same⟩ := JsonCodec.ofText_toText record.toJson
  obtain ⟨compressed, he, decoded⟩ := Zstd.decodeAll_encodeAll (utf8 text)
  obtain ⟨result, read, hs⟩ := EffectRecord.fromJson_same same
  have hw : record.compress = .ok compressed := bind_eq_ok.mpr ⟨text, by rw [hp]; rfl, by rw [he]; rfl⟩
  have hr : EffectRecord.decompress compressed = .ok result :=
    bind_eq_ok.mpr ⟨utf8 text, by rw [decoded]; rfl, bind_eq_ok.mpr
      ⟨text, by rw [fromUtf8_utf8]; rfl, mapError_eq_ok.mpr (bind_eq_ok.mpr ⟨value, ha, read⟩)⟩⟩
  exact ⟨compressed, result, mapError_eq_ok.mpr hw, mapError_eq_ok.mpr hr, hs⟩

end

structure EffectId where
  text : String
  nonempty : text ≠ ""
deriving DecidableEq

section

variable [Ulid] (inst : InstanceId) (intentId : String)

def EffectId.new : Except EffectJournalError EffectId := if intentId = "" then .error .invalidArgument
  else .ok ⟨inst.text ++ "::" ++ intentId, by simp⟩

def splitOnce (pattern : List Char) : List Char → Option (List Char × List Char)
  | [] => none
  | c :: rest =>
    if pattern.isPrefixOf (c :: rest) then some ([], (c :: rest).drop pattern.length)
    else (splitOnce pattern rest).map fun parts => (c :: parts.1, parts.2)

def instanceKey : Option Bytes := inst.toBytes.toOption.map fun idBytes =>
    idBytes ++ (beBytes 2 (utf8 intentId).length ++ utf8 intentId)

variable (effectId : EffectId)

def standardKey : Option Bytes := do
  let (iidStr, intentId) ← splitOnce "::".toList effectId.text.toList
  let inst ← (InstanceId.parse (String.ofList iidStr)).toOption
  instanceKey inst (String.ofList intentId)

def encodeEffectKey : Option Bytes := match standardKey effectId with
  | some key => some key
  | none => (encodeLengthPrefixed (utf8 effectId.text)).toOption

def getEffectKeyPrefix : Bytes := inst.toBytes.toOption.getD []

end

abbrev Outcome (α : Type) := Option (Except EffectJournalError α)

abbrev Journal := Store Bytes Bytes

inductive Conclusion
  | commit
  | rollback

namespace Conclusion

def status : Conclusion → EffectIntent
  | commit => .committed
  | rollback => .rolledBack

def committedAt : Conclusion → Option UInt64
  | commit => some 100
  | rollback => none

end Conclusion

variable (mode : Conclusion)

section

variable [Ulid] [JsonCodec] [Zstd] (journal : Journal)

def readRecord (key : Bytes) : Except EffectJournalError (Option EffectRecord) := match journal[key]? with
  | some bytes => (decodeEffectRecord bytes).map some
  | none => .ok none

def nextValue (mode : Conclusion) (effectId : EffectId) (found : Option EffectRecord) :
    Except EffectJournalError Bytes := do
  let record ← found.okOr (.notFound effectId.text)
  if record.status.isTerminal then throw (.alreadyTerminal effectId.text record.status.toText)
  let nextRecord ← (EffectRecord.new record.intentId record.kind record.paramsJson mode.status
    mode.committedAt).okOr (.storage "failed to create record")
  encodeEffectRecord nextRecord

def nextEntry (mode : Conclusion) (effectId : EffectId) (journal : Journal) (key : Bytes) :
    Except EffectJournalError Bytes := do
  nextValue mode effectId (← readRecord journal key)

variable (inst : InstanceId)

def prepare (record : EffectRecord) : Outcome EffectId × Journal := match EffectId.new inst record.intentId with
  | .error failure => (some (.error failure), journal)
  | .ok effectId =>
    match encodeEffectKey effectId with
    | none => (none, journal)
    | some key =>
      if journal[key]?.isSome then (some (.ok effectId), journal)
      else match encodeEffectRecord record with
        | .error failure => (some (.error failure), journal)
        | .ok value => (some (.ok effectId), journal.insert key value)

def conclude (mode : Conclusion) (journal : Journal) (effectId : EffectId) : Outcome Unit × Journal :=
  match encodeEffectKey effectId with
  | none => (none, journal)
  | some key =>
    match nextEntry mode effectId journal key with
    | .error failure => (some (.error failure), journal)
    | .ok value => (some (.ok ()), journal.insert key value)

def commit (journal : Journal) (effectId : EffectId) : Outcome Unit × Journal := conclude .commit journal effectId

def rollback (journal : Journal) (effectId : EffectId) : Outcome Unit × Journal := conclude .rollback journal effectId

def listPending : Except EffectJournalError (List EffectRecord) := do
  let records ← (prefixScan journal (getEffectKeyPrefix inst)).mapM fun entry => decodeEffectRecord entry.2
  return records.filter fun record => record.status = .prepared

def isExpired (olderThan : UInt64) (record : EffectRecord) : Bool :=
  record.status.isTerminal && record.committedAt.any (· < olderThan)

def compact (olderThan : UInt64) : Except EffectJournalError Nat × Journal :=
  match journal.toList.mapM fun entry => (decodeEffectRecord entry.2).map fun record => (entry.1, record) with
  | .error failure => (.error failure, journal)
  | .ok records =>
    let keysToRemove := (records.filter fun entry => isExpired olderThan entry.2).map Prod.fst
    (.ok keysToRemove.length, OrderedStore.commit journal (keysToRemove.map fun key => (key, none)))

inductive Call
  | prepare (inst : InstanceId) (record : EffectRecord)
  | conclude (mode : Conclusion) (effectId : EffectId)
  | listPending (inst : InstanceId)
  | compact (olderThan : UInt64)

inductive Reply
  | prepared (outcome : Outcome EffectId)
  | concluded (outcome : Outcome Unit)
  | listed (outcome : Except EffectJournalError (List EffectRecord))
  | compacted (outcome : Except EffectJournalError Nat)

def step : Call → Reply × Journal
  | .prepare inst record => (prepare journal inst record).map .prepared id
  | .conclude mode effectId => (conclude mode journal effectId).map .concluded id
  | .listPending inst => (.listed (listPending journal inst), journal)
  | .compact olderThan => (compact journal olderThan).map .compacted id

end

def EffectRecord.concluded (record : EffectRecord) : EffectRecord :=
  { record with status := mode.status, committedAt := mode.committedAt }

section

variable [JsonCodec] [Zstd]

theorem nextValue_some (effectId : EffectId) (record : EffectRecord) : nextValue mode effectId (some record) =
    if record.status.isTerminal then .error (.alreadyTerminal effectId.text record.status.toText)
    else if record.intentId = "" then .error (.storage "failed to create record")
    else encodeEffectRecord (record.concluded mode) := by
  have read : nextValue mode effectId (some record) = (do
      if record.status.isTerminal then throw (.alreadyTerminal effectId.text record.status.toText)
      let nextRecord ← (EffectRecord.new record.intentId record.kind record.paramsJson mode.status
        mode.committedAt).okOr (.storage "failed to create record")
      encodeEffectRecord nextRecord) := rfl
  rw [read]
  split_ifs with terminal named
  · rfl
  · rw [EffectRecord.new, if_pos named]
    rfl
  · rw [EffectRecord.new, if_neg named]
    rfl

variable {journal : Journal} {key : Bytes}

theorem nextEntry_of_read {found : Option EffectRecord}
    (hr : readRecord journal key = .ok found) (mode : Conclusion) (effectId : EffectId) :
    nextEntry mode effectId journal key = nextValue mode effectId found := by
  rw [nextEntry, hr]
  rfl

variable {record : EffectRecord}

theorem nextEntry_prepared (hr : readRecord journal key = .ok (some record)) (hp : record.status = .prepared)
    (hn : record.intentId ≠ "") (mode : Conclusion) (effectId : EffectId) :
    ∃ value decoded, nextEntry mode effectId journal key = .ok value ∧
      decodeEffectRecord value = .ok decoded ∧ (record.concluded mode).Same decoded := by
  obtain ⟨value, decoded, he, hd, same⟩ := decode_encodeEffectRecord (record.concluded mode)
  refine ⟨value, decoded, ?_, hd, same⟩
  rw [nextEntry_of_read hr, nextValue_some, hp, if_neg (by decide), if_neg hn, he]

theorem nextEntry_terminal (hr : readRecord journal key = .ok (some record)) (ht : record.status.isTerminal = true)
    (mode : Conclusion) (effectId : EffectId) :
    nextEntry mode effectId journal key = .error (.alreadyTerminal effectId.text record.status.toText) := by
  rw [nextEntry_of_read hr, nextValue_some, if_pos ht]

variable {value : Bytes} {effectId : EffectId}

theorem nextEntry_eq_ok {mode : Conclusion} (ok : nextEntry mode effectId journal key = .ok value) :
    ∃ record decoded, readRecord journal key = .ok (some record) ∧ record.status.isTerminal = false ∧
      record.intentId ≠ "" ∧ decodeEffectRecord value = .ok decoded ∧ (record.concluded mode).Same decoded := by
  obtain ⟨found, hr, next⟩ := bind_eq_ok.mp ok
  cases found with
  | none => cases next
  | some record =>
    rw [nextValue_some] at next
    split_ifs at next with terminal named
    obtain ⟨other, decoded, he, hd, same⟩ := decode_encodeEffectRecord (record.concluded mode)
    rw [he] at next
    cases next
    exact ⟨record, decoded, hr, by simpa using terminal, named, hd, same⟩

theorem readRecord_insert (journal : Journal) (key : Bytes) (hd : decodeEffectRecord value = .ok record) :
    readRecord (journal.insert key value) key = .ok (some record) := by
  rw [readRecord, get_insert, if_pos rfl]
  simp only [hd]
  rfl

theorem readRecord_congr {other : Journal} (same : other[key]? = journal[key]?) :
    readRecord other key = readRecord journal key := by
  rw [readRecord, same]
  rfl

theorem compact_get (journal : Journal) (older : UInt64) (key : Bytes) : (compact journal older).2[key]? = journal[key]? ∨
    ∃ record, readRecord journal key = .ok (some record) ∧ isExpired older record = true := by
  rw [compact]
  split
  · exact .inl rfl
  · rename_i records hd
    rw [get_commit_removals]
    split_ifs with removed
    · right
      obtain ⟨⟨_, record⟩, mem, rfl⟩ := List.mem_map.mp removed
      obtain ⟨hl, he⟩ := List.mem_filter.mp mem
      obtain ⟨⟨other, bytes⟩, hs, ha⟩ := (mem_mapM hd _).mp hl
      obtain ⟨found, ha, same⟩ := bind_eq_ok.mp ha
      cases same
      refine ⟨record, ?_, he⟩
      rw [readRecord, (mem_entries journal other bytes).mp hs]
      simp only [ha]
      rfl
    · exact .inl rfl

variable [Ulid] {inst : InstanceId}

omit [JsonCodec] [Zstd] in
theorem EffectId.new_eq_ok {intentId : String} (hc : EffectId.new inst intentId = .ok effectId) :
    intentId ≠ "" ∧ effectId.text = inst.text ++ "::" ++ intentId := by
  rw [EffectId.new] at hc
  split_ifs at hc with empty
  cases hc
  exact ⟨empty, rfl⟩

section

variable {inst : InstanceId} {record : EffectRecord} {effectId : EffectId} {key : Bytes} {journal : Journal}

theorem prepare_present (hc : EffectId.new inst record.intentId = .ok effectId)
    (he : encodeEffectKey effectId = some key) (hp : journal[key]?.isSome = true) :
    prepare journal inst record = (some (.ok effectId), journal) := by
  simp only [prepare, hc, he, hp, ↓reduceIte]

theorem prepare_absent (hc : EffectId.new inst record.intentId = .ok effectId)
    (he : encodeEffectKey effectId = some key) (ha : journal[key]? = none) :
    ∃ value decoded, prepare journal inst record = (some (.ok effectId), journal.insert key value) ∧
      decodeEffectRecord value = .ok decoded ∧ record.Same decoded := by
  obtain ⟨value, decoded, hn, hd, same⟩ := decode_encodeEffectRecord record
  refine ⟨value, decoded, ?_, hd, same⟩
  simp only [prepare, hc, he, ha, hn, Option.isSome_none, Bool.false_eq_true, ↓reduceIte]

theorem prepare_after (journal : Journal) (inst : InstanceId) (record : EffectRecord) :
    (prepare journal inst record).2 = journal ∨ ∃ key value, journal[key]? = none ∧
      (prepare journal inst record).2 = journal.insert key value := by
  rw [prepare]
  split
  · exact .inl rfl
  · split
    · exact .inl rfl
    · rename_i key _
      split_ifs with present
      · exact .inl rfl
      · split
        · exact .inl rfl
        · rename_i value _
          exact .inr ⟨key, value, by simpa using present, rfl⟩

end

theorem listPending_eq (journal : Journal) (inst : InstanceId) : listPending journal inst =
    ((prefixScan journal (getEffectKeyPrefix inst)).mapM fun entry => decodeEffectRecord entry.2).map
      (List.filter fun record => record.status = .prepared) :=
  rfl

theorem conclude_eq_ok {mode : Conclusion} (he : encodeEffectKey effectId = some key)
    (ok : (conclude mode journal effectId).1 = some (.ok ())) :
    ∃ value, nextEntry mode effectId journal key = .ok value ∧
      (conclude mode journal effectId).2 = journal.insert key value := by
  simp only [conclude, he] at ok ⊢
  cases next : nextEntry mode effectId journal key with
  | error err => simp [next] at ok
  | ok value => exact ⟨value, rfl, rfl⟩

theorem conclude_after (journal : Journal) (effectId : EffectId) : (conclude mode journal effectId).2 = journal ∨
    ∃ key value, nextEntry mode effectId journal key = .ok value ∧
      (conclude mode journal effectId).2 = journal.insert key value := by
  rw [conclude]
  split
  · exact .inl rfl
  · split
    · exact .inl rfl
    · rename_i value next
      exact .inr ⟨_, value, next, rfl⟩

structure Prepared (journal : Journal) (effectId : EffectId) (key : Bytes) : Prop where
  encoded : encodeEffectKey effectId = some key
  pending : ∃ record, readRecord journal key = .ok (some record) ∧ record.status = .prepared ∧ record.intentId ≠ ""

theorem prepare_prepared (hc : EffectId.new inst record.intentId = .ok effectId)
    (he : encodeEffectKey effectId = some key) (ha : journal[key]? = none)
    (hb : record.status = .prepared) : Prepared (prepare journal inst record).2 effectId key := by
  obtain ⟨value, dec, hp, hd, same⟩ := prepare_absent hc he ha
  rw [hp]
  refine ⟨he, dec, readRecord_insert journal key hd, same.status.trans hb, ?_⟩
  rw [same.intentId]
  exact (EffectId.new_eq_ok hc).1

theorem Prepared.conclude_ok (hp : Prepared journal effectId key) (mode : Conclusion) :
    (conclude mode journal effectId).1 = some (.ok ()) := by
  obtain ⟨record, hr, he, hn⟩ := hp.pending
  obtain ⟨value, dec, next, _⟩ := nextEntry_prepared hr he hn mode effectId
  simp only [conclude, hp.encoded, next]

end

section Sample

attribute [local instance] Ulid.Crockford.codec Json.Text.codec Zstd.stored

def sampleInstance : InstanceId := InstanceId.ofUlid 1

def sampleRecord : EffectRecord := ⟨"fx-1", .httpCall, .object [], .prepared, none⟩

def sampleEffect : EffectId := ⟨sampleInstance.text ++ "::" ++ "fx-1", by simp⟩

def sampleKey : Bytes := sampleInstance.bytes ++ [0, 4, 102, 120, 45, 49]

def sampleJournal : Journal := (prepare ∅ sampleInstance sampleRecord).2

theorem sample_prepared : Prepared sampleJournal sampleEffect sampleKey :=
  prepare_prepared rfl (by decide +kernel) rfl rfl

end Sample

end Veloxide.EffectJournal
