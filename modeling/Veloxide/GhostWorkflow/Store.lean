import Veloxide.GhostWorkflow.Lifecycle

namespace Veloxide.GhostWorkflow

open ByteCodec OrderedStore Serde Except

namespace RegistrationStatus

def toText : RegistrationStatus → String
  | active => "Active"
  | deactivated => "Deactivated"
  | quarantined => "Quarantined"
  | deleted => "Deleted"

def variants : List (String × RegistrationStatus) :=
  [("Active", active), ("Deactivated", deactivated), ("Quarantined", quarantined), ("Deleted", deleted)]

theorem toUnitVariant_toText (status : RegistrationStatus) :
    toUnitVariant variants (.string status.toText) = .ok status := by
  cases status <;> rfl

end RegistrationStatus

namespace WorkflowRegistration

def toJson (reg : WorkflowRegistration) : Json :=
  .object [("name", .string reg.name.value), ("version_hash", .string reg.versionHash.value),
    ("status", .string reg.status.toText), ("registered_at", Json.u64 reg.registeredAt),
    ("deactivated_at", (reg.deactivatedAt.map Json.u64).getD .null),
    ("running_instance_count", Json.u64 reg.runningInstanceCount)]

variable {validate : String → Except ParseError Unit} (value : Json)

def parsed : Except String (Text validate) := do
  let text ← toStr value
  (Text.parse validate text).mapError ParseError.toText

def fromJson : Except String WorkflowRegistration := do
  let fields ← record "WorkflowRegistration"
    ["name", "version_hash", "status", "registered_at", "deactivated_at", "running_instance_count"] value
  let name ← required fields "name" parsed
  let versionHash ← required fields "version_hash" parsed
  let status ← required fields "status" (toUnitVariant RegistrationStatus.variants)
  let registeredAt ← required fields "registered_at" toU64
  let deactivatedAt ← present fields "deactivated_at" (toOption toU64)
  let runningInstanceCount ← required fields "running_instance_count" toU64
  return ⟨name, versionHash, status, registeredAt, deactivatedAt.join, runningInstanceCount⟩

variable {other : Json}

theorem parsed_related (text : Text validate) (same : (Json.string text.value).Same other) : parsed other = .ok text := by
  rw [same.string_right]
  exact bind_eq_ok.mpr ⟨text.value, rfl, by rw [Text.parse_value]; rfl⟩

theorem fromJson_same {reg : WorkflowRegistration} (same : reg.toJson.Same other) :
    fromJson other = .ok reg := by
  obtain ⟨right, rfl, hr⟩ := same.object_right
  have name : required right "name" parsed = .ok reg.name :=
    required_related hr (by simp [Json.lookup_cons]) fun _ same => parsed_related _ same
  have versionHash : required right "version_hash" parsed = .ok reg.versionHash :=
    required_related hr (by simp [Json.lookup_cons]) fun _ same => parsed_related _ same
  have status : required right "status" (toUnitVariant RegistrationStatus.variants) = .ok reg.status :=
    required_string hr (by simp [Json.lookup_cons])
      (RegistrationStatus.toUnitVariant_toText reg.status)
  have registeredAt : required right "registered_at" toU64 = .ok reg.registeredAt :=
    required_related hr (by simp [Json.lookup_cons]) fun _ same => toU64_related _ same
  have hd : present right "deactivated_at" (toOption toU64) = .ok (some reg.deactivatedAt) :=
    present_related hr (by simp [Json.lookup_cons]) fun _ same => toOption_u64_related same
  have hc : required right "running_instance_count" toU64 = .ok reg.runningInstanceCount :=
    required_related hr (by simp [Json.lookup_cons]) fun _ same => toU64_related _ same
  exact bind_eq_ok.mpr ⟨right, rfl, bind_eq_ok.mpr ⟨_, name, bind_eq_ok.mpr ⟨_, versionHash,
    bind_eq_ok.mpr ⟨_, status, bind_eq_ok.mpr ⟨_, registeredAt, bind_eq_ok.mpr
      ⟨_, hd, bind_eq_ok.mpr ⟨_, hc, rfl⟩⟩⟩⟩⟩⟩⟩

end WorkflowRegistration

inductive GhostStoreError
  | notFound (workflow : String)
  | storage (reason : String)

abbrev GhostLifecycleStore := Store String Bytes

namespace GhostLifecycleStore

variable (store : GhostLifecycleStore) (failure : Option String)

def delete (name : WorkflowName) : Except GhostStoreError Unit × GhostLifecycleStore :=
  match failure, store[name.value]? with
  | some reason, _ => (.error (.storage reason), store)
  | none, none => (.error (.notFound name.value), store)
  | none, some _ => (.ok (), store.erase name.value)

variable {name : WorkflowName}

theorem get_delete_of_ne {other : String} (hd : name.value ≠ other) :
    (store.delete failure name).2[other]? = store[other]? := by
  unfold delete
  split
  · rfl
  · rfl
  · rw [get_erase, if_neg hd]

section

variable [JsonCodec]

def get (store : GhostLifecycleStore) (failure : Option String) (name : WorkflowName) :
    Except GhostStoreError WorkflowRegistration :=
  match failure, store[name.value]? with
  | some reason, _ => .error (.storage reason)
  | none, none => .error (.notFound name.value)
  | none, some bytes =>
    (JsonCodec.ofSlice bytes >>= WorkflowRegistration.fromJson).mapError fun reason =>
      .storage s!"failed to deserialize registration: {reason}"

def put (store : GhostLifecycleStore) (failure : Option String) (reg : WorkflowRegistration) :
    Except GhostStoreError Unit × GhostLifecycleStore :=
  match JsonCodec.toVec reg.toJson, failure with
  | .error reason, _ => (.error (.storage s!"failed to serialize registration: {reason}"), store)
  | .ok _, some reason => (.error (.storage reason), store)
  | .ok bytes, none => (.ok (), store.insert reg.name.value bytes)

theorem get_of_eq {store other : GhostLifecycleStore} {failure : Option String} {same : WorkflowName}
    (hn : same.value = name.value) (he : other[name.value]? = store[name.value]?)
    {reg : WorkflowRegistration} (read : store.get failure name = .ok reg) :
    other.get failure same = .ok reg := by
  unfold get at read ⊢
  rw [hn, he]
  exact read

theorem exists_of_get {store : GhostLifecycleStore} {failure : Option String}
    {reg : WorkflowRegistration} (read : store.get failure name = .ok reg) :
    ∃ bytes, store[name.value]? = some bytes := by
  cases ht : store[name.value]? with
  | some bytes => exact ⟨bytes, rfl⟩
  | none =>
    unfold get at read
    rw [ht] at read
    cases failure with
    | none | some reason => cases read

theorem get_put (reg : WorkflowRegistration) :
    (store.put none reg).2.get none reg.name = .ok reg := by
  obtain ⟨value, hp, same⟩ := JsonCodec.ofSlice_bytes reg.toJson
  simp only [put, JsonCodec.toVec_eq, get, Std.ExtTreeMap.getElem?_insert_self]
  rw [hp]
  exact mapError_eq_ok.mpr (WorkflowRegistration.fromJson_same same)

end

end GhostLifecycleStore

end Veloxide.GhostWorkflow
