import Veloxide.Library.Execution
import Veloxide.Library.JsonText
import Veloxide.Library.Keyspace
import Veloxide.Types.Ids

namespace Veloxide.LineageStore

open ByteCodec OrderedStore Machine Serde

structure LineageRecord [Ulid] where
  lineageId : String
  activeEpoch : UInt64
  activeInstanceId : InstanceId
  previousInstanceId : Option InstanceId

inductive LineageStoreError
  | storage (reason : String)
  | corruptValue (reason : String)
deriving DecidableEq

section

variable [Ulid]

namespace LineageRecord

variable (record : LineageRecord)

def previousJson : Json := match record.previousInstanceId with
  | some instanceId => .string instanceId.text
  | none => .null

def toJson : Json :=
  .object [("lineage_id", .string record.lineageId), ("active_epoch", Json.u64 record.activeEpoch),
    ("active_instance_id", .string record.activeInstanceId.text), ("previous_instance_id", record.previousJson)]

def fromJson (value : Json) : Except String LineageRecord := do
  let fields ← Serde.record "LineageRecord"
    ["lineage_id", "active_epoch", "active_instance_id", "previous_instance_id"] value
  let lineageId ← required fields "lineage_id" toStr
  let activeEpoch ← required fields "active_epoch" toU64
  let activeInstanceId ← required fields "active_instance_id" InstanceId.fromJson
  let previousInstanceId ← present fields "previous_instance_id" (toOption InstanceId.fromJson)
  return ⟨lineageId, activeEpoch, activeInstanceId, previousInstanceId.join⟩

variable {record}

theorem fromJson_proper {value : Json} (read : fromJson value = .ok record) : ¬ record.activeInstanceId.IsNil := by
  obtain ⟨fields, _, read⟩ := Except.bind_eq_ok.mp read
  obtain ⟨_, _, read⟩ := Except.bind_eq_ok.mp read
  obtain ⟨_, _, read⟩ := Except.bind_eq_ok.mp read
  obtain ⟨inst, active, read⟩ := Except.bind_eq_ok.mp read
  obtain ⟨_, _, read⟩ := Except.bind_eq_ok.mp read
  obtain ⟨_, _, parsed⟩ := Except.bind_eq_ok.mp active
  cases read
  exact InstanceId.not_isNil_of_fromJson parsed

theorem previous_related {other : Json} (proper : ∀ inst ∈ record.previousInstanceId, ¬ inst.IsNil)
    (same : record.previousJson.Same other) : toOption InstanceId.fromJson other = .ok record.previousInstanceId := by
  unfold previousJson at same
  cases prev : record.previousInstanceId with
  | none =>
    rw [prev] at same
    rw [same.null_right]
    rfl
  | some inst =>
    rw [prev] at same
    rw [same.string_right, toOption, InstanceId.fromJson_text (proper inst prev)]
    · rfl
    · exact nofun

/-- What is written reads back unless the active instance is the nil one, which `parse` refuses. -/
theorem fromJson_same {value : Json} (same : record.toJson.Same value)
    (proper : ∀ inst ∈ record.previousInstanceId, ¬ inst.IsNil) :
    (¬ record.activeInstanceId.IsNil → fromJson value = .ok record) ∧
      (record.activeInstanceId.IsNil → ∃ message, fromJson value = .error message) := by
  obtain ⟨right, rfl, related⟩ := same.object_right
  have lineage : required right "lineage_id" toStr = .ok record.lineageId :=
    required_string related (by simp [Json.lookup_cons]) rfl
  have epoch : required right "active_epoch" toU64 = .ok record.activeEpoch :=
    required_related related (by simp [Json.lookup_cons]) fun _ same => toU64_related _ same
  have previous : present right "previous_instance_id" (toOption InstanceId.fromJson) =
      .ok (some record.previousInstanceId) :=
    present_related related (by simp [Json.lookup_cons]) fun _ same => previous_related proper same
  obtain ⟨text, found, active⟩ := lookup_related related
    (show Json.lookup _ "active_instance_id" = some (.string record.activeInstanceId.text) by simp [Json.lookup_cons])
  rw [active.string_right] at found
  have active : required right "active_instance_id" InstanceId.fromJson =
      InstanceId.fromJson (.string record.activeInstanceId.text) := by
    rw [required, found]
    rfl
  simp only [fromJson, Serde.record, lineage, epoch, active, previous, bind, Except.bind]
  constructor
  · intro named
    rw [InstanceId.fromJson_text named]
    rfl
  · intro nil
    obtain ⟨message, refused⟩ := InstanceId.fromJson_nil nil
    rw [refused]
    exact ⟨message, rfl⟩

end LineageRecord

variable [JsonCodec]

def decodeLineageRecord (bytes : Bytes) : Except LineageStoreError LineageRecord :=
  (JsonCodec.ofSlice bytes >>= LineageRecord.fromJson).mapError .corruptValue

def encodeLineageRecord (record : LineageRecord) : Except LineageStoreError Bytes :=
  (JsonCodec.toVec record.toJson).mapError .corruptValue

def getLineageRecord (partition : Store Bytes Bytes) (lineageId : String) :
    Except LineageStoreError (Option LineageRecord) :=
  match partition[utf8 lineageId]? with
  | some bytes => (decodeLineageRecord bytes).map some
  | none => .ok none

structure Rollover where
  lineageId : String
  newEpoch : UInt64
  newInstanceId : InstanceId

def Rollover.updated (call : Rollover) (current : Option LineageRecord) : LineageRecord :=
  ⟨call.lineageId, call.newEpoch, call.newInstanceId, current.map (·.activeInstanceId)⟩

def recordRollover (partition : Store Bytes Bytes) (call : Rollover) :
    Except LineageStoreError Unit × Store Bytes Bytes :=
  match getLineageRecord partition call.lineageId with
  | .error error => (.error error, partition)
  | .ok current =>
    match encodeLineageRecord (call.updated current) with
    | .error error => (.error error, partition)
    | .ok value => (.ok (), partition.insert (utf8 call.lineageId) value)

/-- A call that succeeds leaves a record of a later epoch, that names the instance before it. -/
def Grows (event : Event (Store Bytes Bytes) Rollover (Except LineageStoreError Unit)) : Prop :=
  event.reply = .ok () → ∃ before after, getLineageRecord event.before event.call.lineageId = .ok before ∧
    getLineageRecord event.after event.call.lineageId = .ok (some after) ∧
    (∀ record ∈ before, record.activeEpoch < after.activeEpoch) ∧
    after.previousInstanceId = before.map (·.activeInstanceId)

/-- Unless the stored record cannot be read, the new epoch is a later one, and the new instance is not nil. -/
def Later (partition : Store Bytes Bytes) (call : Rollover) : Prop :=
  ∀ current, getLineageRecord partition call.lineageId = .ok current →
    ¬ call.newInstanceId.IsNil ∧ ∀ record ∈ current, record.activeEpoch < call.newEpoch

variable {partition : Store Bytes Bytes} {call : Rollover} {current : Option LineageRecord}

theorem getLineageRecord_proper {id : String} {record : LineageRecord}
    (read : getLineageRecord partition id = .ok (some record)) : ¬ record.activeInstanceId.IsNil := by
  unfold getLineageRecord at read
  split at read
  · rename_i bytes _
    cases decoded : decodeLineageRecord bytes with
    | error error =>
      rw [decoded] at read
      cases read
    | ok other =>
    rw [decoded] at read
    cases read
    obtain ⟨value, _, parsed⟩ := Except.bind_eq_ok.mp (Except.mapError_eq_ok.mp decoded)
    exact LineageRecord.fromJson_proper parsed
  · cases read

theorem recordRollover_read (read : getLineageRecord partition call.lineageId = .ok current) :
    (recordRollover partition call).1 = .ok () ∧ (¬ call.newInstanceId.IsNil →
        getLineageRecord (recordRollover partition call).2 call.lineageId = .ok (some (call.updated current))) ∧
      (call.newInstanceId.IsNil →
        ∃ error, getLineageRecord (recordRollover partition call).2 call.lineageId = .error error) := by
  obtain ⟨value, parsed, same⟩ := JsonCodec.ofSlice_bytes (call.updated current).toJson
  have proper : ∀ inst ∈ (call.updated current).previousInstanceId, ¬ inst.IsNil := by
    intro inst member
    obtain ⟨record, rfl, rfl⟩ := Option.map_eq_some_iff.mp member
    exact getLineageRecord_proper read
  obtain ⟨written, refused⟩ := LineageRecord.fromJson_same same proper
  have stored : recordRollover partition call =
      (.ok (), partition.insert (utf8 call.lineageId) (JsonCodec.bytes (call.updated current).toJson)) := by
    simp only [recordRollover, read, encodeLineageRecord, JsonCodec.toVec_eq, Except.mapError]
  rw [stored]
  refine ⟨rfl, fun named => ?_, fun nil => ?_⟩
  · simp only [getLineageRecord, get_insert, if_true, decodeLineageRecord, parsed, bind, Except.bind,
      written named, Except.mapError, Except.map]
  · obtain ⟨message, hm⟩ := refused nil
    exact ⟨.corruptValue message, by simp only [getLineageRecord, get_insert, if_true, decodeLineageRecord, parsed,
      bind, Except.bind, hm, Except.mapError, Except.map]⟩

theorem grows_iff (partition : Store Bytes Bytes) (call : Rollover) :
    Grows (event recordRollover partition call) ↔ Later partition call := by
  cases read : getLineageRecord partition call.lineageId with
  | error error =>
    refine iff_of_true ?_ ?_
    · intro answered
      simp only [event, recordRollover, read] at answered
      cases answered
    · intro current other
      cases read.symm.trans other
  | ok current =>
    obtain ⟨answered, written, refused⟩ := recordRollover_read read
    constructor
    · intro grows other same
      cases read.symm.trans same
      obtain ⟨before, after, hb, ha, later, _⟩ := grows answered
      cases read.symm.trans hb
      by_cases nil : call.newInstanceId.IsNil
      · obtain ⟨error, he⟩ := refused nil
        cases he.symm.trans ha
      · cases (written nil).symm.trans ha
        exact ⟨nil, later⟩
    · intro later _
      obtain ⟨named, above⟩ := later current read
      exact ⟨current, _, read, written named, above, rfl⟩

/-- The epochs of a lineage grow along a run exactly when each call brings a later one: none is refused. -/
theorem lineage_epochs_grow_iff (start : Store Bytes Bytes) (calls : List Rollover) :
    (∀ event ∈ trace recordRollover start calls, Grows event) ↔ Guarded recordRollover Later start calls := by
  rw [Guarded.iff_forall_trace]
  refine forall₂_congr fun here mem => ?_
  rw [← grows_iff, ← event_of_mem_trace recordRollover mem]

end

section Sample

attribute [local instance] Ulid.Crockford.codec Json.Text.codec

def sampleRollovers : List Rollover := [⟨"lin-1", 2, .ofUlid 7⟩, ⟨"lin-1", 1, .ofUlid 8⟩]

theorem epoch_goes_back : (trace recordRollover ∅ sampleRollovers).all (·.reply.isOk) = true ∧
    (getLineageRecord (final recordRollover ∅ sampleRollovers) "lin-1").map (·.map LineageRecord.activeEpoch) =
      .ok (some 1) :=
  ⟨by decide +kernel, by decide +kernel⟩

end Sample

end Veloxide.LineageStore
