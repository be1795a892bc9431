import Veloxide.Library.JsonText
import Veloxide.Library.Keyspace
import Veloxide.Library.Serde
import Veloxide.Storage.BudgetQueues

/-! The saga of a budgeted write: its key is staged in a manifest and its write is queued,
    then it is committed or rolled back. -/

namespace Veloxide.BudgetSaga

open ByteCodec OrderedStore Machine AppendQueue Serde List Except

inductive SagaStatus
  | staged
  | committed
  | rolledBack
  deriving DecidableEq

namespace SagaStatus

def toText : SagaStatus → String
  | staged => "Staged"
  | committed => "Committed"
  | rolledBack => "RolledBack"

def variants : List (String × SagaStatus) :=
  [("Staged", staged), ("Committed", committed), ("RolledBack", rolledBack)]

theorem toUnitVariant_toText (status : SagaStatus) : toUnitVariant variants (.string status.toText) = .ok status := by
  cases status <;> rfl

end SagaStatus

def classLabel : WriteClass → String
  | .criticalControlPlane => "critical_control_plane"
  | .operatorProjection => "operator_projection"
  | .bulkBlob => "bulk_blob"

def classVariants : List (String × WriteClass) :=
  [("critical_control_plane", .criticalControlPlane), ("operator_projection", .operatorProjection),
    ("bulk_blob", .bulkBlob)]

theorem toUnitVariant_classLabel (kind : WriteClass) :
    toUnitVariant classVariants (.string (classLabel kind)) = .ok kind := by
  cases kind <;> rfl

structure SagaEntry where
  writeKey : String
  kind : WriteClass
  sizeBytes : UInt64
  status : SagaStatus

namespace SagaEntry

def toJson (entry : SagaEntry) : Json :=
  .object [("write_key", .string entry.writeKey), ("class", .string (classLabel entry.kind)),
    ("size_bytes", Json.u64 entry.sizeBytes), ("status", .string entry.status.toText)]

def fromJson (value : Json) : Except String SagaEntry := do
  let fields ← record "SagaEntry" ["write_key", "class", "size_bytes", "status"] value
  let writeKey ← required fields "write_key" toStr
  let kind ← required fields "class" (toUnitVariant classVariants)
  let sizeBytes ← required fields "size_bytes" toU64
  let status ← required fields "status" (toUnitVariant SagaStatus.variants)
  return ⟨writeKey, kind, sizeBytes, status⟩

theorem fromJson_same {entry : SagaEntry} {other : Json} (same : entry.toJson.Same other) :
    fromJson other = .ok entry := by
  obtain ⟨right, rfl, hr⟩ := same.object_right
  have writeKey : required right "write_key" toStr = .ok entry.writeKey :=
    required_string hr (by simp [Json.lookup_cons]) rfl
  have kind : required right "class" (toUnitVariant classVariants) = .ok entry.kind :=
    required_string hr (by simp [Json.lookup_cons]) (toUnitVariant_classLabel entry.kind)
  have sizeBytes : required right "size_bytes" toU64 = .ok entry.sizeBytes :=
    required_related hr (by simp [Json.lookup_cons]) fun _ same => toU64_related _ same
  have status : required right "status" (toUnitVariant SagaStatus.variants) = .ok entry.status :=
    required_string hr (by simp [Json.lookup_cons]) (SagaStatus.toUnitVariant_toText entry.status)
  exact bind_eq_ok.mpr ⟨right, rfl, bind_eq_ok.mpr ⟨_, writeKey, bind_eq_ok.mpr ⟨_, kind,
    bind_eq_ok.mpr ⟨_, sizeBytes, bind_eq_ok.mpr ⟨_, status, rfl⟩⟩⟩⟩⟩

end SagaEntry

inductive SagaError
  | alreadyExists (key : String)
  | notFound (key : String)
  | alreadyRolledBack (key : String)
  | invalidState (key : String) (expected actual : SagaStatus)
  | budgetReserveFailed (reason : String)
  | storage (reason : String)
  | corruptEntry (key reason : String)

abbrev EntryRule := Option SagaEntry → Except SagaError SagaEntry

def stageRule (writeKey : String) (kind : WriteClass) (sizeBytes : UInt64) : EntryRule
  | some _ => .error (.alreadyExists writeKey)
  | none => .ok ⟨writeKey, kind, sizeBytes, .staged⟩

def commitRule (writeKey : String) : EntryRule
  | none => .error (.notFound writeKey)
  | some entry =>
    if entry.status ≠ .staged then .error (.invalidState writeKey .staged entry.status)
    else .ok { entry with status := .committed }

def rollbackRule (writeKey : String) : EntryRule
  | none => .error (.notFound writeKey)
  | some entry =>
    if entry.status = .rolledBack then .error (.alreadyRolledBack writeKey)
    else .ok { entry with status := .rolledBack }

variable {found : Option SagaEntry} {writeKey : String}

theorem stageRule_ok {kind : WriteClass} {sizeBytes : UInt64} {entry : SagaEntry}
    (hr : stageRule writeKey kind sizeBytes found = .ok entry) : found = none ∧ entry.status = .staged := by
  cases found with
  | some other => cases hr
  | none => cases hr; exact ⟨rfl, rfl⟩

theorem commitRule_ok {entry : SagaEntry} (hr : commitRule writeKey found = .ok entry) :
    found.map SagaEntry.status = some .staged ∧ entry.status = .committed := by
  cases found with
  | none => cases hr
  | some other =>
    rw [commitRule] at hr
    split at hr
    · cases hr
    · rename_i hs
      cases hr
      exact ⟨congrArg some (not_not.mp hs), rfl⟩

theorem rollbackRule_ok {entry : SagaEntry}
    (hr : rollbackRule writeKey found = .ok entry) : entry.status = .rolledBack := by
  cases found with
  | none => cases hr
  | some other =>
    rw [rollbackRule] at hr
    split at hr <;> cases hr
    rfl

structure BudgetManifest where
  entries : Store String SagaEntry
  version : UInt64

namespace BudgetManifest

variable (manifest : BudgetManifest) (writeKey : String)

def default : BudgetManifest := ⟨∅, 0⟩

def get : Option SagaEntry := manifest.entries[writeKey]?

def change (rule : EntryRule) (steps : UInt64) : Except SagaError BudgetManifest :=
  (rule (manifest.get writeKey)).map fun entry =>
    ⟨manifest.entries.insert writeKey entry, manifest.version + steps⟩

def stage (kind : WriteClass) (sizeBytes : UInt64) := manifest.change writeKey (stageRule writeKey kind sizeBytes) 0

def commit := manifest.change writeKey (commitRule writeKey) 1

def rollback := manifest.change writeKey (rollbackRule writeKey) 1

def recoverStagedAsRolledBack : BudgetManifest :=
  { entries := manifest.entries.map fun _ entry =>
      if entry.status = .staged then { entry with status := .rolledBack } else entry
    version := manifest.version + 1 }

theorem get_recover : manifest.recoverStagedAsRolledBack.get writeKey = (manifest.get writeKey).map fun entry =>
    if entry.status = .staged then { entry with status := .rolledBack } else entry := by
  unfold recoverStagedAsRolledBack get
  rw [Std.ExtTreeMap.getElem?_map]

end BudgetManifest

abbrev SagaStore := Store Bytes Bytes

def SagaStore.entryKey (writeKey : String) : Bytes := utf8 ("entry:" ++ writeKey)

structure StagedWrite where
  writeKey : String
  kind : WriteClass
  sizeBytes : UInt64
  stagedAt : Nat
  deriving DecidableEq

instance : ClassifiedWrite StagedWrite := ⟨StagedWrite.kind, StagedWrite.sizeBytes⟩

structure DurableBudgetSaga where
  store : Option SagaStore
  manifest : BudgetManifest
  queues : BudgetQueues StagedWrite

def debugClass : WriteClass → String
  | .criticalControlPlane => "CriticalControlPlane"
  | .operatorProjection => "OperatorProjection"
  | .bulkBlob => "BulkBlob"

def refusalText : BudgetQueuesError → String
  | .queueFull kind depth capacity => s!"queue full for {debugClass kind}: {depth}/{capacity}"
  | .budgetExceeded kind itemSize remaining =>
    s!"budget exceeded for {debugClass kind}: item size {itemSize}, remaining {remaining}"

namespace DurableBudgetSaga

def Exclusive (saga : DurableBudgetSaga) : Prop :=
  saga.store.isSome = true → ∀ writeKey, saga.manifest.get writeKey = none

variable {writeKey : String}

theorem unstored_of_listed {saga : DurableBudgetSaga} {found : SagaEntry} (he : saga.Exclusive)
    (hl : saga.manifest.get writeKey = some found) : saga.store = none := by
  by_contra hs
  have hm := he (Option.isSome_iff_ne_none.mpr hs) writeKey
  rw [hl] at hm
  cases hm

def Removed (writeKey : String) (before after : BudgetQueues StagedWrite) : Prop :=
  ∃ kind earlier write later, before.items kind = earlier ++ write :: later ∧ write.writeKey = writeKey ∧
    ∀ other, after.items other = if other = kind then earlier ++ later else before.items other

theorem filter_of_removed {before after : BudgetQueues StagedWrite} (hr : Removed writeKey before after) :
    ∃ kind, (after.items kind).filter (·.writeKey = writeKey) ≠
      (before.items kind).filter (·.writeKey = writeKey) := by
  obtain ⟨kind, past, write, later, hi, own, rest⟩ := hr
  refine ⟨kind, fun same => ?_⟩
  rw [rest kind, if_pos rfl, hi] at same
  simpa [own] using congrArg List.length same

theorem filter_dequeue {queues : BudgetQueues StagedWrite} {kind : WriteClass}
    (ho : ∀ write ∈ (queues.items kind).head?, write.writeKey ≠ writeKey) (other : WriteClass) :
    ((queues.dequeue kind).2.items other).filter (·.writeKey = writeKey) =
      (queues.items other).filter (·.writeKey = writeKey) := by
  rw [BudgetQueues.items_dequeue]
  split
  · next same =>
    rw [same]
    cases hi : queues.items kind with
    | nil => rfl
    | cons first rest =>
      have hd := ho first (by rw [hi]; rfl)
      rw [tail_cons, filter_cons_of_neg (by simpa using hd)]
  · rfl

end DurableBudgetSaga

section

variable [JsonCodec]

namespace SagaStore

variable (store : SagaStore) (writeKey : String)

def readEntry : Except SagaError (Option SagaEntry) :=
  match store[entryKey writeKey]? with
  | none => .ok none
  | some bytes =>
    ((JsonCodec.ofSlice bytes >>= SagaEntry.fromJson).mapError (.corruptEntry writeKey)).map some

def change (rule : EntryRule) : Except SagaError SagaStore := do
  let entry ← rule (← store.readEntry writeKey)
  let value ← (JsonCodec.toVec entry.toJson).mapError fun reason =>
    SagaError.storage s!"failed to serialize saga entry: {reason}"
  return store.insert (entryKey writeKey) value

def stageEntry (kind : WriteClass) (sizeBytes : UInt64) := store.change writeKey (stageRule writeKey kind sizeBytes)

def commitEntry := store.change writeKey (commitRule writeKey)

def rollbackEntry := store.change writeKey (rollbackRule writeKey)

theorem change_ok {store after : SagaStore} {writeKey : String} {rule : EntryRule}
    (hc : store.change writeKey rule = .ok after) :
    ∃ found entry, store.readEntry writeKey = .ok found ∧ rule found = .ok entry ∧
      ∀ other, after.readEntry other = if other = writeKey then .ok (some entry) else store.readEntry other := by
  obtain ⟨found, read, rest⟩ := bind_eq_ok.mp hc
  obtain ⟨entry, hr, hw⟩ := bind_eq_ok.mp rest
  rw [JsonCodec.toVec_eq] at hw
  cases hw
  refine ⟨found, entry, read, hr, fun other => ?_⟩
  by_cases same : other = writeKey
  · obtain ⟨value, hp, ha⟩ := JsonCodec.ofSlice_bytes entry.toJson
    have hb : (JsonCodec.ofSlice (JsonCodec.bytes entry.toJson) >>= SagaEntry.fromJson) = .ok entry :=
      bind_eq_ok.mpr ⟨value, hp, SagaEntry.fromJson_same ha⟩
    rw [if_pos same, same, readEntry, Std.ExtTreeMap.getElem?_insert_self]
    simp only [hb]
    rfl
  · have hd : entryKey writeKey ≠ entryKey other := by
      intro he
      have ht := utf8_injective he
      exact same (by simpa using ht.symm)
    rw [if_neg same, readEntry, get_insert_of_ne store hd, readEntry]

end SagaStore

namespace DurableBudgetSaga

def started (store : Option SagaStore) (queues : BudgetQueues StagedWrite) : DurableBudgetSaga :=
  ⟨store, .default, queues⟩

def new (queues : BudgetQueues StagedWrite) : DurableBudgetSaga := started none queues

def openStore (store : SagaStore) (queues : BudgetQueues StagedWrite) : DurableBudgetSaga :=
  started (some store) queues

def settled (saga : DurableBudgetSaga) :
    Except SagaError DurableBudgetSaga → Except SagaError Unit × DurableBudgetSaga
  | .ok after => (.ok (), after)
  | .error failure => (.error failure, saga)

variable (saga : DurableBudgetSaga) (writeKey : String)

def change (stored : SagaStore → Except SagaError SagaStore)
    (listed : BudgetManifest → Except SagaError BudgetManifest) : Except SagaError Unit × DurableBudgetSaga :=
  match saga.store with
  | some store => saga.settled ((stored store).map fun store => { saga with store := some store })
  | none => saga.settled ((listed saga.manifest).map fun manifest => { saga with manifest })

variable (kind : WriteClass)

def stageWrite (sizeBytes : UInt64) (now : Nat) : Except SagaError StagedWrite × DurableBudgetSaga :=
  let staged : StagedWrite := ⟨writeKey, kind, sizeBytes, now⟩
  match saga.change (·.stageEntry writeKey kind sizeBytes) (·.stage writeKey kind sizeBytes) with
  | (.error failure, saga) => (.error failure, saga)
  | (.ok (), saga) =>
    match saga.queues.tryEnqueue staged with
    | (.ok (), queues) => (.ok staged, { saga with queues })
    | (.error failure, queues) =>
      (.error (.budgetReserveFailed (refusalText failure)),
        (change { saga with queues } (·.rollbackEntry writeKey) (·.rollback writeKey)).2)

def commit : Except SagaError Unit × DurableBudgetSaga := saga.change (·.commitEntry writeKey) (·.commit writeKey)

def getClassForKey : Except SagaError WriteClass :=
  ((saga.manifest.get writeKey).map SagaEntry.kind).okOr (.notFound writeKey)

def rollback : Except SagaError Unit × DurableBudgetSaga :=
  match saga.getClassForKey writeKey with
  | .error failure => (.error failure, saga)
  | .ok kind =>
    change { saga with queues := (saga.queues.dequeue kind).2 } (·.rollbackEntry writeKey) (·.rollback writeKey)

def recoverFromCrash : DurableBudgetSaga := { saga with manifest := saga.manifest.recoverStagedAsRolledBack }

def entry : Option SagaEntry :=
  match saga.store with
  | some store => (store.readEntry writeKey).toOption.join
  | none => saga.manifest.get writeKey

def status : Option SagaStatus := (saga.entry writeKey).map SagaEntry.status

def writes : List StagedWrite := (saga.queues.items kind).filter (·.writeKey = writeKey)

inductive Call
  | stageWrite (writeKey : String) (kind : WriteClass) (sizeBytes : UInt64) (now : Nat)
  | commit (writeKey : String)
  | rollback (writeKey : String)
  | recoverFromCrash

inductive Reply
  | staged (result : Except SagaError StagedWrite)
  | done (result : Except SagaError Unit)
  | recovered

def step : Call → Reply × DurableBudgetSaga
  | .stageWrite writeKey kind sizeBytes now => (saga.stageWrite writeKey kind sizeBytes now).map .staged id
  | .commit writeKey => (saga.commit writeKey).map .done id
  | .rollback writeKey => (saga.rollback writeKey).map .done id
  | .recoverFromCrash => (.recovered, saga.recoverFromCrash)

variable {saga writeKey} {after : DurableBudgetSaga} {mark : SagaStatus} {found : SagaEntry}

structure Touched (writeKey : String) (mark : SagaStatus) (before after : DurableBudgetSaga) : Prop where
  status : ∀ other, after.status other = if other = writeKey then some mark else before.status other
  writes : ∀ other, other ≠ writeKey → ∀ kind, after.writes other kind = before.writes other kind
  stored : after.store.isSome = before.store.isSome
  manifest : before.store.isSome = true → after.manifest = before.manifest

theorem Touched.trans {middle : DurableBudgetSaga} {later : SagaStatus} (first : Touched writeKey mark saga middle)
    (hs : Touched writeKey later middle after) : Touched writeKey later saga after := by
  refine ⟨fun other => ?_, fun other hd kind => ?_, hs.stored.trans first.stored, fun ht => ?_⟩
  · rw [hs.status, first.status]
    split <;> rfl
  · rw [hs.writes other hd, first.writes other hd]
  · rw [hs.manifest (first.stored.trans ht), first.manifest ht]

theorem change_cases (saga : DurableBudgetSaga) (writeKey : String) (rule : EntryRule) (steps : UInt64) :
    (∃ err, saga.change (·.change writeKey rule) (·.change writeKey rule steps) = (.error err, saga) ∧
        (saga.store = none → rule (saga.manifest.get writeKey) = .error err)) ∨
      ∃ entry after, saga.change (·.change writeKey rule) (·.change writeKey rule steps) = (.ok (), after) ∧
        rule (saga.entry writeKey) = .ok entry ∧ Touched writeKey entry.status saga after ∧
        after.queues = saga.queues := by
  unfold change entry
  cases held : saga.store with
  | some store =>
    cases hc : store.change writeKey rule with
    | error err => exact .inl ⟨err, by simp [hc, settled, Except.map], nofun⟩
    | ok next =>
      obtain ⟨found, entry, read, hr, he⟩ := SagaStore.change_ok hc
      refine .inr ⟨entry, { saga with store := some next }, by simp [hc, settled, Except.map],
        by simpa [read, Except.toOption] using hr, ⟨fun other => ?_, fun _ _ _ => rfl, by simp [held],
        fun _ => rfl⟩, rfl⟩
      simp only [status, DurableBudgetSaga.entry, held, he other]
      split <;> rfl
  | none =>
    cases hr : rule (saga.manifest.get writeKey) with
    | error err => exact .inl ⟨err, by simp [BudgetManifest.change, hr, settled, Except.map], fun _ => rfl⟩
    | ok entry =>
      refine .inr ⟨entry, ⟨none, ⟨saga.manifest.entries.insert writeKey entry, _⟩, saga.queues⟩,
        by simp only [BudgetManifest.change, hr, settled, Except.map]; rfl, rfl,
        ⟨fun other => ?_, fun _ _ _ => rfl, by simp [held], by simp [held]⟩, rfl⟩
      simp only [status, DurableBudgetSaga.entry, held, BudgetManifest.get, get_insert, eq_comm (a := writeKey)]
      split <;> rfl

theorem status_of_listed (hu : saga.store = none) (hl : saga.manifest.get writeKey = some found) :
    saga.status writeKey = some found.status := by
  simp [status, entry, hu, hl]

theorem touched_tryEnqueue {staged : DurableBudgetSaga} (write : StagedWrite)
    (ht : Touched write.writeKey mark saga staged) :
    Touched write.writeKey mark saga { staged with queues := (staged.queues.tryEnqueue write).2 } := by
  refine ⟨ht.status, fun other hd kind => ?_, ht.stored, ht.manifest⟩
  obtain ⟨added, own, hi⟩ := BudgetQueues.items_tryEnqueue staged.queues write kind
  have ho : added.filter (·.writeKey = other) = [] := by
    apply filter_eq_nil_iff.mpr
    intro entry mem
    rw [own entry mem, decide_eq_true_eq]
    exact Ne.symm hd
  rw [← ht.writes other hd kind]
  simp only [DurableBudgetSaga.writes, hi, filter_append, ho, append_nil]

/-- What a call does: a rollback of a listed key takes the first write of its class. -/
inductive Moved (saga : DurableBudgetSaga) : Call → Reply → DurableBudgetSaga → Prop
  | same (call : Call) (reply : Reply) (refused : ∀ writeKey, call = .commit writeKey → reply ≠ .done (.ok ())) :
    Moved saga call reply saga
  | staged {writeKey : String} {kind : WriteClass} {sizeBytes : UInt64} {now : Nat} {reply : Reply}
    {mark : SagaStatus} {after : DurableBudgetSaga} (unknown : saga.status writeKey = none)
    (uncommitted : mark ≠ .committed) (touched : Touched writeKey mark saga after) :
    Moved saga (.stageWrite writeKey kind sizeBytes now) reply after
  | committed {writeKey : String} {after : DurableBudgetSaga} (staged : saga.status writeKey = some .staged)
    (touched : Touched writeKey .committed saga after) (queues : after.queues = saga.queues) :
    Moved saga (.commit writeKey) (.done (.ok ())) after
  | rolledBack {writeKey : String} {reply : Reply} {after : DurableBudgetSaga} (found : SagaEntry)
    (unstored : saga.store = none) (listed : saga.manifest.get writeKey = some found)
    (status : ∀ other, after.status other = if other = writeKey then some .rolledBack else saga.status other)
    (queues : after.queues = (saga.queues.dequeue found.kind).2) (still : after.store = none) :
    Moved saga (.rollback writeKey) reply after
  | recovered : Moved saga .recoverFromCrash .recovered saga.recoverFromCrash

theorem stageWrite_moved (sizeBytes : UInt64) (now : Nat) (reply : Reply) :
    Moved saga (.stageWrite writeKey kind sizeBytes now) reply (saga.stageWrite writeKey kind sizeBytes now).2 := by
  unfold stageWrite
  rcases change_cases saga writeKey (stageRule writeKey kind sizeBytes) 0 with
    ⟨err, hr, _⟩ | ⟨entry, staged, done, ha, ht, _⟩
  · simp only [SagaStore.stageEntry, BudgetManifest.stage, hr]
    exact .same _ _ nofun
  · obtain ⟨hm, mark⟩ := stageRule_ok ha
    have new : saga.status writeKey = none := by rw [status, hm]; rfl
    have hq := touched_tryEnqueue ⟨writeKey, kind, sizeBytes, now⟩ ht
    simp only [SagaStore.stageEntry, BudgetManifest.stage, done]
    cases he : staged.queues.tryEnqueue ⟨writeKey, kind, sizeBytes, now⟩ with
    | mk result queues =>
      rw [he] at hq
      cases result with
      | ok => exact .staged new (by simp [mark]) hq
      | error err =>
        rcases change_cases { staged with queues } writeKey (rollbackRule writeKey) 1 with
          ⟨_, kept, _⟩ | ⟨undone, after, hu, ha, back, _⟩
        · simp only [SagaStore.rollbackEntry, BudgetManifest.rollback, kept]
          exact .staged new (by simp [mark]) hq
        · simp only [SagaStore.rollbackEntry, BudgetManifest.rollback, hu]
          exact .staged new (by simp [rollbackRule_ok ha]) (hq.trans back)

theorem commit_moved : Moved saga (.commit writeKey) (step saga (.commit writeKey)).1 (saga.commit writeKey).2 := by
  unfold step commit
  rcases change_cases saga writeKey (commitRule writeKey) 1 with
    ⟨failure, hr, _⟩ | ⟨entry, after, done, hu, ht, queues⟩
  · simp only [SagaStore.commitEntry, BudgetManifest.commit, hr]
    exact .same _ _ nofun
  · obtain ⟨hs, mark⟩ := commitRule_ok hu
    rw [mark] at ht
    simp only [SagaStore.commitEntry, BudgetManifest.commit, done]
    exact .committed hs ht queues

theorem rollback_unlisted (hu : saga.manifest.get writeKey = none) : (saga.rollback writeKey).2 = saga := by
  unfold rollback getClassForKey
  rw [hu]
  rfl

theorem rollback_listed (hu : saga.store = none) (hl : saga.manifest.get writeKey = some found) :
    (∀ other, (saga.rollback writeKey).2.status other =
        if other = writeKey then some .rolledBack else saga.status other) ∧
      (saga.rollback writeKey).2.queues = (saga.queues.dequeue found.kind).2 ∧
      (saga.rollback writeKey).2.store = none := by
  have hk := status_of_listed hu hl
  unfold rollback getClassForKey
  simp only [hl, Option.map_some, Option.okOr_some]
  rcases change_cases { saga with queues := (saga.queues.dequeue found.kind).2 } writeKey (rollbackRule writeKey) 1
    with ⟨err, kept, ha⟩ | ⟨entry, after, done, ha, ht, queues⟩
  · simp only [SagaStore.rollbackEntry, BudgetManifest.rollback, kept]
    refine ⟨fun other => ?_, trivial, hu⟩
    have back := ha hu
    simp only [hl, rollbackRule] at back
    split at back
    · rename_i hr
      rw [hr] at hk
      split
      · next same => rw [same]; exact hk
      · rfl
    · cases back
  · simp only [SagaStore.rollbackEntry, BudgetManifest.rollback, done]
    exact ⟨by rw [← rollbackRule_ok ha]; exact ht.status, queues,
      Option.isNone_iff_eq_none.mp (by simpa [hu] using ht.stored)⟩

theorem rollback_moved (he : saga.Exclusive) (reply : Reply) :
    Moved saga (.rollback writeKey) reply (saga.rollback writeKey).2 := by
  cases hl : saga.manifest.get writeKey with
  | none =>
    rw [rollback_unlisted hl]
    exact .same _ _ nofun
  | some found =>
    have hu := unstored_of_listed he hl
    obtain ⟨hs, queues, ht⟩ := rollback_listed hu hl
    exact .rolledBack found hu hl hs queues ht

theorem step_moved (he : saga.Exclusive) (call : Call) : Moved saga call (step saga call).1 (step saga call).2 := by
  cases call with
  | stageWrite writeKey kind sizeBytes now => exact stageWrite_moved kind sizeBytes now _
  | commit writeKey => exact commit_moved
  | rollback writeKey => exact rollback_moved he _
  | recoverFromCrash => exact .recovered

theorem committed_recover : saga.recoverFromCrash.status writeKey = some .committed ↔
    saga.status writeKey = some .committed := by
  cases held : saga.store with
  | some store => simp [status, entry, recoverFromCrash, held]
  | none =>
    simp only [status, entry, recoverFromCrash, held, BudgetManifest.get_recover]
    cases saga.manifest.get writeKey with
    | none => rfl
    | some entry => by_cases hs : entry.status = .staged <;> simp [hs]

variable {reply : Reply} {call : Call}

theorem Moved.exclusive (hm : Moved saga call reply after) (exclusive : saga.Exclusive) :
    after.Exclusive ∧ after.store.isSome = saga.store.isSome := by
  have hk {writeKey mark} (ht : Touched writeKey mark saga after) :
      after.Exclusive ∧ after.store.isSome = saga.store.isSome := by
    refine ⟨fun hs => ?_, ht.stored⟩
    rw [ht.stored] at hs
    rw [ht.manifest hs]
    exact exclusive hs
  cases hm with
  | same => exact ⟨exclusive, rfl⟩
  | staged _ _ ht | committed _ ht _ => exact hk ht
  | rolledBack _ hu _ _ _ ha => simp [Exclusive, ha, hu]
  | recovered =>
    refine ⟨fun hs writeKey => ?_, rfl⟩
    rw [recoverFromCrash, BudgetManifest.get_recover, exclusive hs, Option.map_none]

theorem exclusive_run (store : Option SagaStore) (queues : BudgetQueues StagedWrite) (calls : List Call) :
    (final step (started store queues) calls).Exclusive ∧
      (final step (started store queues) calls).store.isSome = store.isSome := by
  refine final_invariant step (fun _ saga => saga.Exclusive ∧ saga.store.isSome = store.isSome) ⟨?_, rfl⟩ ?_ calls
  · intro _ writeKey
    exact Std.ExtTreeMap.getElem?_empty
  · intro _ saga call hi
    obtain ⟨he, hs⟩ := (step_moved hi.1 call).exclusive hi.1
    exact ⟨he, hs.trans hi.2⟩

theorem Moved.origin (hm : Moved saga call reply after) (done : after.status writeKey = some .committed) :
    saga.status writeKey = some .committed ∨ call = .commit writeKey ∧ reply = .done (.ok ()) := by
  cases hm with
  | same => exact .inl done
  | staged _ hu ht =>
    rw [ht.status] at done
    split at done
    · exact absurd (Option.some.inj done) hu
    · exact .inl done
  | committed _ ht _ =>
    rw [ht.status] at done
    split at done
    · next same => exact .inr ⟨by rw [same], rfl⟩
    · exact .inl done
  | rolledBack _ _ _ hs _ _ =>
    rw [hs] at done
    split at done
    · cases done
    · exact .inl done
  | recovered => exact .inl (committed_recover.mp done)

variable (start : DurableBudgetSaga)

def RollbackRemoves (calls : List Call) : Prop :=
  ∀ before writeKey after, calls = before ++ .rollback writeKey :: after →
    (final step start before).status writeKey = some .staged →
    Removed writeKey (final step start before).queues (final step start (before ++ [.rollback writeKey])).queues

def CommitKept (calls : List Call) : Prop := ∀ before writeKey after, calls = before ++ .commit writeKey :: after →
    (step (final step start before) (.commit writeKey)).1 = .done (.ok ()) →
    ∀ middle, middle <+: after →
      (final step start (before ++ .commit writeKey :: middle)).status writeKey = some .committed ∧
        ∀ kind, (final step start (before ++ .commit writeKey :: middle)).writes writeKey kind =
          (final step start before).writes writeKey kind

/-- The rollback of a staged key takes its own write, and that of a later one no committed write. -/
def SparesOthers (saga : DurableBudgetSaga) (writeKey : String) (entry : SagaEntry) : Prop :=
  match entry.status with
  | .staged => ∃ write, (saga.queues.items entry.kind).head? = some write ∧ write.writeKey = writeKey
  | .committed => False
  | .rolledBack => ∀ write ∈ (saga.queues.items entry.kind).head?, saga.status write.writeKey ≠ some .committed

def Spares (saga : DurableBudgetSaga) : Call → Prop
  | .rollback writeKey =>
    match saga.store, saga.manifest.get writeKey with
    | some _, _ => saga.status writeKey ≠ some .staged
    | none, none => True
    | none, some entry => saga.SparesOthers writeKey entry
  | _ => True

theorem spares_rollback (hu : saga.store = none) (hl : saga.manifest.get writeKey = some found) :
    Spares saga (.rollback writeKey) ↔ saga.SparesOthers writeKey found := by
  simp only [Spares, hu, hl]

theorem Moved.keeps (hm : Moved saga call reply after) (hs : Spares saga call)
    (done : saga.status writeKey = some .committed) :
    after.status writeKey = some .committed ∧ ∀ kind, after.writes writeKey kind = saga.writes writeKey kind := by
  have keeps {other mark} (ht : Touched other mark saga after) (hd : writeKey ≠ other) :
      after.status writeKey = some .committed ∧ ∀ kind, after.writes writeKey kind = saga.writes writeKey kind :=
    ⟨by rw [ht.status, if_neg hd, done], ht.writes writeKey hd⟩
  cases hm with
  | same => exact ⟨done, fun _ => rfl⟩
  | staged ha _ ht => exact keeps ht fun same => by simp [same, ha] at done
  | committed staged ht _ => exact keeps ht fun same => by simp [same, staged] at done
  | recovered => exact ⟨committed_recover.mpr done, fun _ => rfl⟩
  | @rolledBack other _ _ found hu hl hb queues hi =>
    have hp := (spares_rollback hu hl).mp hs
    have hk := status_of_listed hu hl
    unfold SparesOthers at hp
    have hd : writeKey ≠ other := by
      intro same
      rw [same, hk] at done
      rw [Option.some.inj done] at hp
      exact hp
    refine ⟨by rw [hb, if_neg hd, done], fun kind => ?_⟩
    unfold writes
    rw [queues]
    refine filter_dequeue (fun write head same => ?_) kind
    split at hp
    · obtain ⟨own, first, hn⟩ := hp
      rw [Option.mem_def.mp head] at first
      cases first
      exact hd (same.symm.trans hn)
    · exact hp
    · rw [← same] at done
      exact hp write head done

section

variable {store : Option SagaStore} {queues : BudgetQueues StagedWrite} {calls before after : List Call} {call : Call}

theorem exists_commit (hc : (final step (started none queues) calls).status writeKey = some .committed) :
    ∃ before after, calls = before ++ .commit writeKey :: after ∧
      (step (final step (started none queues) before) (.commit writeKey)).1 = .done (.ok ()) := by
  induction calls using List.reverseRecOn with
  | nil => simp [final, status, entry, started, BudgetManifest.get, BudgetManifest.default] at hc
  | append_singleton calls call ih =>
    rw [final_append] at hc
    rcases (step_moved (exclusive_run none queues calls).1 call).origin hc with he | ⟨rfl, done⟩
    · obtain ⟨before, after, split, done⟩ := ih he
      exact ⟨before, after ++ [call], by rw [split]; simp, done⟩
    · exact ⟨calls, [], rfl, done⟩

theorem CommitKept.next (kept : CommitKept (started none queues) calls) (split : calls = before ++ call :: after)
    (hc : (final step (started none queues) before).status writeKey = some .committed) :
    (step (final step (started none queues) before) call).2.status writeKey = some .committed ∧
      ∀ kind, (step (final step (started none queues) before) call).2.writes writeKey kind =
        (final step (started none queues) before).writes writeKey kind := by
  obtain ⟨first, middle, rfl, done⟩ := exists_commit hc
  have hl : calls = first ++ .commit writeKey :: (middle ++ call :: after) := by rw [split]; simp
  have now := kept first writeKey _ hl done middle (prefix_append _ _)
  have next := kept first writeKey _ hl done (middle ++ [call]) (by simp)
  rw [← cons_append, ← append_assoc, final_append] at next
  exact ⟨next.1, fun kind => (next.2 kind).trans (now.2 kind).symm⟩

theorem spares_of_kept (hr : RollbackRemoves (started store queues) calls)
    (kept : CommitKept (started store queues) calls) (split : calls = before ++ call :: after) :
    Spares (final step (started store queues) before) call := by
  obtain ⟨he, hs⟩ := exclusive_run store queues before
  cases call with
  | stageWrite writeKey kind sizeBytes now | commit writeKey | recoverFromCrash => exact trivial
  | rollback writeKey =>
    have ha := hr before writeKey after split
    rw [final_append, show final step _ [Call.rollback writeKey] = (rollback _ writeKey).2 from rfl] at ha
    cases hl : (final step (started store queues) before).manifest.get writeKey with
    | none =>
      have hu : (final step (started store queues) before).status writeKey ≠ some .staged := by
        intro staged
        obtain ⟨kind, hf⟩ := filter_of_removed (ha staged)
        exact hf (by rw [rollback_unlisted hl])
      simp only [Spares, hl]
      split
      · exact hu
      · exact trivial
      · contradiction
    | some found =>
      have hn := unstored_of_listed he hl
      obtain ⟨hb, ht, _⟩ := rollback_listed hn hl
      have hk := status_of_listed hn hl
      rw [hn] at hs
      cases store with
      | some part => cases hs
      | none =>
        apply (spares_rollback hn hl).mpr
        unfold SparesOthers
        split
        · rename_i staged
          obtain ⟨kind, hf⟩ := filter_of_removed (ha (by rw [hk, staged]))
          rw [ht] at hf
          by_contra ho
          push Not at ho
          exact hf (filter_dequeue ho kind)
        · rename_i hc
          have hd := (kept.next split (by rw [hk, hc])).1
          rw [show (step _ (Call.rollback writeKey)).2.status writeKey = _ from hb writeKey, if_pos rfl] at hd
          cases hd
        · intro write head hc
          have same := (kept.next split hc).2 found.kind
          rw [show (step _ (Call.rollback writeKey)).2 = (rollback _ writeKey).2 from rfl, writes, ht, writes,
            BudgetQueues.items_dequeue, if_pos rfl] at same
          obtain ⟨rest, hi⟩ := head?_eq_some_iff.mp head
          rw [hi] at same
          simpa using congrArg List.length same

theorem removed_of_spares (hs : Spares saga (.rollback writeKey)) (ht : saga.status writeKey = some .staged) :
    Removed writeKey saga.queues (saga.rollback writeKey).2.queues := by
  cases held : saga.store with
  | some part =>
    simp only [Spares, held] at hs
    exact absurd ht hs
  | none =>
    cases hl : saga.manifest.get writeKey with
    | none => simp [status, entry, held, hl] at ht
    | some found =>
      rw [status_of_listed held hl] at ht
      have hp := (spares_rollback held hl).mp hs
      unfold SparesOthers at hp
      rw [Option.some.inj ht] at hp
      obtain ⟨write, head, own⟩ := hp
      obtain ⟨rest, hi⟩ := head?_eq_some_iff.mp head
      refine ⟨found.kind, [], write, rest, hi, own, fun other => ?_⟩
      rw [(rollback_listed held hl).2.1, BudgetQueues.items_dequeue, hi]
      rfl

theorem commitKept_of_guarded (hg : Guarded step Spares (started store queues) calls) :
    CommitKept (started store queues) calls := by
  intro before writeKey after split done middle hi
  induction middle using List.reverseRecOn with
  | nil =>
    have hm := step_moved (exclusive_run store queues before).1 (.commit writeKey)
    rw [final_append, show final step _ [Call.commit writeKey] = (step _ (.commit writeKey)).2 from rfl]
    rw [done] at hm
    generalize (step _ (Call.commit writeKey)).2 = next at hm ⊢
    cases hm with
    | same _ _ hr => exact absurd rfl (hr writeKey rfl)
    | committed _ ht same => exact ⟨by rw [ht.status, if_pos rfl], fun kind => by rw [writes, same]; rfl⟩
  | append_singleton middle call ih =>
    obtain ⟨hs, writes⟩ := ih ((prefix_append middle [call]).trans hi)
    obtain ⟨rest, hf⟩ := hi
    have hp : calls = (before ++ .commit writeKey :: middle) ++ call :: rest := by
      rw [split, ← hf]
      simp
    have ha := (Guarded.iff_forall_split step Spares _ _).mp hg _ call rest hp
    have hk := (step_moved (exclusive_run store queues _).1 call).keeps ha hs
    rw [← cons_append, ← append_assoc, final_append]
    exact ⟨hk.1, fun kind => (hk.2 kind).trans (writes kind)⟩

/-- A rollback removes its own write alone exactly when each spares the other keys in its state. -/
theorem rollback_frame_iff (store : Option SagaStore) (queues : BudgetQueues StagedWrite) (calls : List Call) :
    RollbackRemoves (started store queues) calls ∧ CommitKept (started store queues) calls ↔
      Guarded step Spares (started store queues) calls := by
  constructor
  · intro hh
    apply (Guarded.iff_forall_split step Spares _ _).mpr
    intro before call after split
    exact spares_of_kept hh.1 hh.2 split
  · intro hg
    refine ⟨fun before writeKey after split hs => ?_, commitKept_of_guarded hg⟩
    have hp := (Guarded.iff_forall_split step Spares _ _).mp hg before _ after split
    rw [final_append]
    exact removed_of_spares hp hs

end

end DurableBudgetSaga

end

namespace DurableBudgetSaga

section Sample

attribute [local instance] Json.Text.codec

def sampleSaga : DurableBudgetSaga := new (.new QueueConfig.default (.new 1000 1000 1000))

def sampleCalls : List Call :=
  [.stageWrite "first" .bulkBlob 100 0, .commit "first", .stageWrite "second" .bulkBlob 200 1, .rollback "second"]

/-- A committed write leaves with the rollback of another key, whose own write stays. -/
theorem committed_write_rolled_back :
    (step (final step sampleSaga (sampleCalls.take 1)) (.commit "first")).1 = .done (.ok ()) ∧
      (final step sampleSaga (sampleCalls.take 3)).status "second" = some .staged ∧
      (final step sampleSaga (sampleCalls.take 3)).queues.items .bulkBlob =
        [⟨"first", .bulkBlob, 100, 0⟩, ⟨"second", .bulkBlob, 200, 1⟩] ∧
      (final step sampleSaga sampleCalls).queues.items .bulkBlob = [⟨"second", .bulkBlob, 200, 1⟩] ∧
      (final step sampleSaga (sampleCalls ++ [.rollback "first"])).status "first" = some .rolledBack ∧
      ¬ RollbackRemoves sampleSaga sampleCalls ∧ ¬ CommitKept sampleSaga sampleCalls := by
  refine ⟨?_, by decide +kernel, by decide +kernel, by decide +kernel, by decide +kernel, ?_, ?_⟩
  · rfl
  · intro hr
    have he := hr (sampleCalls.take 3) "second" [] rfl (by decide +kernel)
    obtain ⟨kind, hf⟩ := filter_of_removed he
    revert hf
    cases kind <;> decide +kernel
  · intro kept
    have same := (kept (sampleCalls.take 1) "first" (sampleCalls.drop 2) rfl rfl _ (prefix_refl _)).2 .bulkBlob
    revert same
    decide +kernel

end Sample

end DurableBudgetSaga

end Veloxide.BudgetSaga
