import Veloxide.Library.JsonText
import Veloxide.Storage.Admission
import Veloxide.Storage.EventLog
import Veloxide.Storage.EventStore

namespace Veloxide.EventWriters

open ByteCodec OrderedStore KeyEncoding HotSpot EventStore EventLog Admission Machine Serde List

section

variable [Ulid]

/-- The database, and the detector of the event store that is open on it. -/
structure System where
  db : Database
  hotSpot : Option HotSpotDetector

def System.empty : System := ⟨Database.empty, none⟩

/-- A call of one of the writers of the keyspace `events`, with the readings of its clock. -/
inductive Call
  | appendEvent (request : AppendEventRequest)
  | append (instanceId : InstanceId) (events : List EventEnvelope) (reading since : Nat)
  | admitWorkflow (params : AtomicAdmitParams) (nowMs : UInt64)
  | openStore (options : FjallEventStoreOptions)

inductive Reply
  | logged (result : Except StorageError EventEnvelope)
  | appended (result : Except EventStoreError UInt64)
  | admitted (result : Except AdmissionCommitError AtomicAdmitResult)
  | opened

variable (system : System)

def System.store : FjallEventStore := ⟨system.db.events, system.hotSpot⟩

/-- How a writer lays out the bytes before the sequence: with a namespace, or as 16 plain bytes. -/
inductive Layout
  | namespaced (namespaceText : String)
  | plain (keyId : Bytes)

def Layout.start (owner : InstanceId) : Layout → Bytes
  | namespaced namespaceText => streamPrefix namespaceText owner
  | plain keyId => keyId

/-- An entry put in the keyspace: the instance and the envelope that it is written for, and its value. -/
structure Put where
  owner : InstanceId
  layout : Layout
  envelope : EventEnvelope
  value : Bytes

def Put.key (put : Put) : Bytes := sequenceKey (put.layout.start put.owner) put.envelope.sequence

def Put.write (put : Put) : Write Bytes Bytes := (put.key, some put.value)

variable [JsonCodec]

def System.step (system : System) : Call → Reply × System
  | .appendEvent request =>
    match appendEvent system.db.events request with
    | .error failure => (.logged (.error failure), system)
    | .ok (envelope, events) => (.logged (.ok envelope), { system with db := { system.db with events } })
  | .append instanceId events reading since =>
    let (result, store) := system.store.append instanceId events reading since
    (.appended result, ⟨{ system.db with events := store.partition }, store.hotSpot⟩)
  | .admitWorkflow params nowMs =>
    match atomicAdmitWorkflow system.db params nowMs with
    | .error failure => (.admitted (.error failure), system)
    | .ok (result, db) => (.admitted (.ok result), { system with db })
  | .openStore options =>
    (.opened, { system with hotSpot := (FjallEventStore.openWithOptions system.db.events options).hotSpot })

def System.puts (system : System) : Call → List Put
  | .appendEvent request =>
    match appendEvent system.db.events request with
    | .error _ => []
    | .ok (envelope, _) =>
      [⟨request.instanceId, .namespaced request.namespaceText, envelope, JsonCodec.bytes (valueJson envelope)⟩]
  | .append instanceId events reading since =>
    match (system.store.append instanceId events reading since).1 with
    | .error _ => []
    | .ok _ => events.map fun event => ⟨instanceId,
        .plain (FjallEventStore.keyId instanceId (system.store.isHot instanceId reading since)), event,
        JsonCodec.bytes event.toJson⟩
  | .admitWorkflow params nowMs =>
    match atomicAdmitWorkflow system.db params nowMs, nextSequence system.db.events params.instanceId with
    | .ok (.admitted, _), .ok sequence => [⟨params.instanceId, .plain params.instanceId.bytes,
        envelopeFromParams params sequence, JsonCodec.bytes (envelopeFromParams params sequence).toJson⟩]
    | _, _ => []
  | .openStore _ => []

theorem System.step_events (call : Call) :
    (system.step call).2.db.events = commit system.db.events ((system.puts call).map Put.write) := by
  cases call with
  | appendEvent req =>
    simp only [step, puts]
    cases ok : appendEvent system.db.events req with
    | error err => rfl
    | ok result =>
      obtain ⟨envelope, events⟩ := result
      obtain ⟨seq, _, same, _, hf⟩ := appendEvent_ok ok
      simp only [hf, same]
      rfl
  | append inst events reading since =>
    rcases FjallEventStore.append_cases system.store inst events reading since with
      ⟨_, err, hr, kept⟩ | ⟨first, rest, _, _, _, ha, hc⟩
    · simp only [step, puts, hr, kept]
      rfl
    · simp only [step, puts, ha, hc, map_map]
      rfl
  | admitWorkflow params nowMs =>
    simp only [step, puts]
    cases ok : atomicAdmitWorkflow system.db params nowMs with
    | error err => rfl
    | ok pair =>
      obtain ⟨result, db⟩ := pair
      rcases atomicAdmitWorkflow_ok ok with ⟨ho, kept⟩ | ⟨admitted, seq, next, events⟩
      · cases result with
        | admitted => exact absurd rfl ho
        | duplicate inst =>
          simp only [kept]
          rfl
      · subst admitted
        simp only [next, events]
        rfl
  | openStore options => rfl

variable (calls : List Call)

def written : List Put := (trace System.step System.empty calls).flatMap fun event => event.before.puts event.call

theorem written_append_singleton (call : Call) :
    written (calls ++ [call]) = written calls ++ (final System.step System.empty calls).puts call := by
  rw [written, trace_append_singleton, flatMap_append, flatMap_singleton]
  rfl

theorem final_events : (final System.step System.empty calls).db.events = commit ∅ ((written calls).map Put.write) := by
  induction calls using List.reverseRecOn with
  | nil => rfl
  | append_singleton calls call ih =>
    rw [final_append, final, final, System.step_events, ih, written_append_singleton, map_append, commit_append]

def Layout.WellFormed : Layout → Prop
  | namespaced namespaceText => (utf8 namespaceText).length ≤ 255
  | plain keyId => keyId.length = 16

variable {put : Put}

theorem System.mem_puts_appendEvent {system : System} {req : AppendEventRequest}
    (mem : put ∈ system.puts (.appendEvent req)) : ∃ seq, seq ≠ 0 ∧ (utf8 req.namespaceText).length ≤ 255 ∧
      put = ⟨req.instanceId, .namespaced req.namespaceText, envelopeFromRequest req seq,
        JsonCodec.bytes (valueJson (envelopeFromRequest req seq))⟩ := by
  simp only [puts] at mem
  cases ok : appendEvent system.db.events req with
  | error err =>
    rw [ok] at mem
    cases mem
  | ok result =>
    obtain ⟨envelope, events⟩ := result
    obtain ⟨seq, hn, same, hs, _⟩ := appendEvent_ok ok
    rw [ok, same] at mem
    exact ⟨seq, hn, hs, mem_singleton.mp mem⟩

theorem System.mem_puts_plain {system : System} {call : Call} (mem : put ∈ system.puts call)
    (ho : ∀ req, call ≠ .appendEvent req) :
    put.value = JsonCodec.bytes put.envelope.toJson ∧ ∃ keyId, put.layout = .plain keyId ∧ keyId.length = 16 := by
  cases call with
  | appendEvent req => exact absurd rfl (ho req)
  | append inst events reading since =>
    simp only [puts] at mem
    split at mem
    · cases mem
    · obtain ⟨event, _, same⟩ := mem_map.mp mem
      rw [← same]
      exact ⟨rfl, _, rfl, FjallEventStore.length_keyId _ _⟩
  | admitWorkflow params nowMs =>
    simp only [puts] at mem
    split at mem
    · rw [mem_singleton.mp mem]
      exact ⟨rfl, _, rfl, params.instanceId.length_bytes⟩
    · cases mem
  | openStore options => cases mem

theorem System.puts_wellFormed {system : System} {call : Call} (mem : put ∈ system.puts call) :
    put.layout.WellFormed := by
  by_cases hl : ∃ req, call = .appendEvent req
  · obtain ⟨req, made⟩ := hl
    rw [made] at mem
    obtain ⟨seq, _, hs, same⟩ := mem_puts_appendEvent mem
    rw [same]
    exact hs
  · obtain ⟨_, keyId, ha, he⟩ := mem_puts_plain mem (not_exists.mp hl)
    rw [ha]
    exact he

theorem written_wellFormed {calls : List Call} (mem : put ∈ written calls) : put.layout.WellFormed := by
  obtain ⟨event, _, puts⟩ := mem_flatMap.mp mem
  exact System.puts_wellFormed puts

end

section

theorem envelopeU64_related {fields right : List (String × Json)} {name : String} {number : UInt64}
    (hr : ∀ name, Option.Rel Json.Same (Json.lookup fields name) (Json.lookup right name))
    (hf : Json.lookup fields name = some (Json.u64 number)) : EventEnvelope.envelopeU64 right name = .ok number := by
  obtain ⟨other, ht, same⟩ := lookup_related hr hf
  rw [same.number_right] at ht
  rw [EventEnvelope.envelopeU64, ht]
  rfl

theorem fromFields_valueJson {envelope : EventEnvelope} (hf : envelope.schemaVersion = 1)
    (ha : envelope.instanceId ≠ "") (hn : envelope.sequence ≠ 0) {right : List (String × Json)}
    (hr : ∀ name, Option.Rel Json.Same (Json.lookup
      [("version", Json.u64 envelope.schemaVersion.toUInt64), ("instance_id", .string envelope.instanceId),
        ("sequence", Json.u64 envelope.sequence), ("timestamp_ms", Json.u64 envelope.timestampMs),
        ("payload", envelope.payload), ("metadata", envelope.metadata.toJson)] name) (Json.lookup right name)) :
    ∃ payload metadata, envelope.payload.Same payload ∧ EventEnvelope.fromFields right =
      if payload.asObject.isSome then .ok { envelope with payload, metadata }
      else .error (.invalidEnvelopeField "payload") := by
  have hv : EventEnvelope.envelopeU64 right "version" = .ok 1 :=
    envelopeU64_related hr (by rw [hf]; simp [Json.lookup_cons])
  have sequence : EventEnvelope.envelopeU64 right "sequence" = .ok envelope.sequence :=
    envelopeU64_related hr (by simp [Json.lookup_cons])
  have ht : EventEnvelope.envelopeU64 right "timestamp_ms" = .ok envelope.timestampMs :=
    envelopeU64_related hr (by simp [Json.lookup_cons])
  obtain ⟨found, hb, hi⟩ := lookup_related hr
    (show Json.lookup _ "instance_id" = some (.string envelope.instanceId) by simp [Json.lookup_cons])
  have instanceId : EventEnvelope.envelopeString right "instance_id" = .ok envelope.instanceId := by
    rw [EventEnvelope.envelopeString, hb, hi.string_right]
    rfl
  obtain ⟨payload, hc, hp⟩ := lookup_related hr
    (show Json.lookup _ "payload" = some envelope.payload by simp [Json.lookup_cons])
  obtain ⟨_, he, hm⟩ := lookup_related hr
    (show Json.lookup _ "metadata" = some envelope.metadata.toJson by simp [Json.lookup_cons])
  obtain ⟨fields, decoded, rfl, hd, _⟩ := EventMetadata.deserialize_same hm
  have metadata : EventEnvelope.envelopeMetadata right = .ok decoded := by
    simp only [EventEnvelope.envelopeMetadata, he]
    show (EventMetadata.deserialize fields).mapError EventMetadata.errorOf = .ok decoded
    rw [hd]
    rfl
  refine ⟨payload, decoded, hp, ?_⟩
  rw [EventEnvelope.fromFields_eq hv instanceId sequence ht hc metadata (by decide) (by decide)
    ha hn, hf]
  rfl

variable [JsonCodec] (envelope : EventEnvelope)

def Decodes (value : Bytes) (envelope : EventEnvelope) : Prop :=
  ∃ decoded, EventEnvelope.fromBytes value = .ok decoded ∧ decoded.instanceId = envelope.instanceId ∧
    decoded.sequence = envelope.sequence ∧ decoded.timestampMs = envelope.timestampMs ∧
    decoded.schemaVersion = envelope.schemaVersion ∧ envelope.payload.Same decoded.payload

theorem fromBytes_toJson :
    EventEnvelope.fromBytes (JsonCodec.bytes envelope.toJson) = .error (.missingEnvelopeField "version") := by
  obtain ⟨right, hr, hd⟩ := EventEnvelope.fromBytes_object
    [("schema_version", Json.u64 envelope.schemaVersion.toUInt64), ("instance_id", .string envelope.instanceId),
      ("sequence", Json.u64 envelope.sequence), ("timestamp_ms", Json.u64 envelope.timestampMs),
      ("payload", envelope.payload), ("metadata", envelope.metadata.toJson)]
  rw [EventEnvelope.toJson, hd]
  apply EventEnvelope.fromFields_without_version
  exact lookup_none_related hr (by simp [Json.lookup_cons])

theorem not_decodes_toJson : ¬ Decodes (JsonCodec.bytes envelope.toJson) envelope := by
  intro hd
  obtain ⟨dec, ok, _⟩ := hd
  rw [fromBytes_toJson] at ok
  cases ok

variable [Ulid]

theorem decodes_valueJson_iff (req : AppendEventRequest) {seq : UInt64} (hn : seq ≠ 0) :
    Decodes (JsonCodec.bytes (valueJson (envelopeFromRequest req seq)))
      (envelopeFromRequest req seq) ↔ req.payload.asObject.isSome = true := by
  obtain ⟨right, hr, hp⟩ := EventEnvelope.fromBytes_object
    [("version", Json.u64 (envelopeFromRequest req seq).schemaVersion.toUInt64),
      ("instance_id", .string (envelopeFromRequest req seq).instanceId),
      ("sequence", Json.u64 (envelopeFromRequest req seq).sequence),
      ("timestamp_ms", Json.u64 (envelopeFromRequest req seq).timestampMs),
      ("payload", (envelopeFromRequest req seq).payload),
      ("metadata", (envelopeFromRequest req seq).metadata.toJson)]
  obtain ⟨body, info, same, hd⟩ := fromFields_valueJson rfl req.instanceId.text_ne_empty hn hr
  have hh : body.asObject.isSome = req.payload.asObject.isSome := same.asObject_isSome
  rw [Decodes, valueJson, hp, hd, hh]
  constructor
  · intro he
    by_contra hs
    rw [if_neg hs] at he
    obtain ⟨_, hi, _⟩ := he
    cases hi
  · intro ho
    rw [if_pos ho]
    exact ⟨_, rfl, rfl, rfl, rfl, rfl, same⟩

/-- What is written is decoded exactly when the event log wrote it with an object as payload. -/
theorem one_event_format_iff (system : System) (call : Call) :
    (system.step call).2.db.events = commit system.db.events ((system.puts call).map Put.write) ∧
      ∀ put ∈ system.puts call, (Decodes put.value put.envelope ↔
        ∃ request, call = .appendEvent request ∧ request.payload.asObject.isSome = true) := by
  refine ⟨system.step_events call, fun put mem => ?_⟩
  by_cases hl : ∃ request, call = .appendEvent request
  · obtain ⟨request, made⟩ := hl
    subst made
    obtain ⟨seq, hn, _, same⟩ := System.mem_puts_appendEvent mem
    rw [same, decodes_valueJson_iff request hn]
    simp
  · have value := (System.mem_puts_plain mem (not_exists.mp hl)).1
    rw [value]
    constructor
    · intro hd
      exact absurd hd (not_decodes_toJson put.envelope)
    · intro hf
      obtain ⟨request, made, _⟩ := hf
      exact absurd ⟨request, made⟩ hl

end

section Sample

attribute [local instance] Ulid.Crockford.codec Json.Text.codec

def sampleId : InstanceId := InstanceId.ofUlid 1

def sampleParams : AtomicAdmitParams :=
  ⟨sampleId, "order-1", 5000, 1000, .object [("type", .string "WorkflowStarted")], .default, .completed⟩

def samplePut : Put where
  owner := sampleId
  layout := .plain sampleId.bytes
  envelope := envelopeFromParams sampleParams 1
  value := JsonCodec.bytes (envelopeFromParams sampleParams 1).toJson

theorem admitted_event_not_decoded : (System.empty.step (.admitWorkflow sampleParams 0)).1 = .admitted (.ok .admitted) ∧
    System.empty.puts (.admitWorkflow sampleParams 0) = [samplePut] ∧
    (System.empty.step (.admitWorkflow sampleParams 0)).2.db.events[samplePut.key]? = some samplePut.value ∧
    EventEnvelope.fromBytes samplePut.value = .error (.missingEnvelopeField "version") := by
  refine ⟨?_, ?_, by decide +kernel, ?_⟩
  · rfl
  · rfl
  · simp only [samplePut, fromBytes_toJson]

end Sample

end Veloxide.EventWriters
