import Veloxide.Library.Execution
import Veloxide.Library.JsonText
import Veloxide.Library.Keyspace
import Veloxide.Library.Serde

namespace Veloxide.Lineage

open Machine

abbrev LineageId := String

structure EpochId where
  value : UInt64
deriving DecidableEq

def EpochId.next (epoch : EpochId) : EpochId := ⟨epoch.value + 1⟩

structure CanonicalEvent where
  lineageId : LineageId
  epochId : EpochId
  sequence : UInt64
  eventType : String
  payload : Json

structure EpochMap where
  entries : OrderedStore.Store LineageId EpochId
  rolloverInProgress : Bool

variable (map : EpochMap)

namespace EpochMap

variable (lineageId : LineageId)

def activeEpoch : Option EpochId := map.entries[lineageId]?

def registerEpoch (epochId : EpochId) : EpochMap := { map with entries := map.entries.insert lineageId epochId }

def unregisterEpoch : EpochMap := { map with entries := map.entries.erase lineageId }

variable (inProgress : Bool)

def setRolloverInProgress : EpochMap := { map with rolloverInProgress := inProgress }

variable (other : LineageId)

@[simp] theorem activeEpoch_set (lineageId : LineageId) :
    (map.setRolloverInProgress inProgress).activeEpoch lineageId = map.activeEpoch lineageId := rfl

@[simp] theorem activeEpoch_register (epochId : EpochId) : (map.registerEpoch lineageId epochId).activeEpoch other =
      if lineageId = other then some epochId else map.activeEpoch other :=
  OrderedStore.get_insert map.entries lineageId other epochId

@[simp] theorem activeEpoch_unregister : (map.unregisterEpoch lineageId).activeEpoch other =
      if lineageId = other then none else map.activeEpoch other :=
  OrderedStore.get_erase map.entries lineageId other

end EpochMap

inductive RouteResult
  | routed (lineageId : LineageId) (epochId : EpochId) (routedToActive : Bool)
  | oldEpochRejected (lineageId : LineageId) (eventEpoch activeEpoch : EpochId)
  | buffered (lineageId : LineageId) (epochId : EpochId)
  | newLineage (lineageId : LineageId) (epochId : EpochId)
deriving DecidableEq

variable (event : CanonicalEvent)

def EpochMap.holdsBack : Bool := map.rolloverInProgress &&
    match map.activeEpoch event.lineageId with
    | some active => active != event.epochId
    | none => true

def routeEvent : RouteResult := if map.holdsBack event then .buffered event.lineageId event.epochId
  else
    match map.activeEpoch event.lineageId with
    | some active =>
      if active = event.epochId then .routed event.lineageId event.epochId true
      else if event.epochId.value < active.value then .oldEpochRejected event.lineageId event.epochId active
      else .newLineage event.lineageId event.epochId
    | none => .newLineage event.lineageId event.epochId

structure CarriedState where
  operational : Json
  operator : Json

variable (state : CarriedState)

def CarriedState.toJson : Json := .object [("operational", state.operational), ("operator", state.operator)]

inductive ContinuedAsNewTrigger
  | eventCountThreshold (eventCount threshold : UInt64)
  | signalCountThreshold (signalCount threshold : UInt64)
  | blobReferencesThreshold (blobCount threshold : UInt64)
  | explicit

def ContinuedAsNewTrigger.toJson : ContinuedAsNewTrigger → Json
  | eventCountThreshold eventCount threshold =>
    .object [("EventCountThreshold", .object [("event_count", .u64 eventCount), ("threshold", .u64 threshold)])]
  | signalCountThreshold signalCount threshold =>
    .object [("SignalCountThreshold", .object [("signal_count", .u64 signalCount), ("threshold", .u64 threshold)])]
  | blobReferencesThreshold blobCount threshold =>
    .object [("BlobReferencesThreshold", .object [("blob_count", .u64 blobCount), ("threshold", .u64 threshold)])]
  | explicit => .string "Explicit"

structure ContinuedAsNew where
  lineageId : LineageId
  oldEpochId : EpochId
  newEpochId : EpochId
  carriedState : CarriedState
  trigger : ContinuedAsNewTrigger

def ContinuedAsNew.toJson (event : ContinuedAsNew) : Json :=
  .object [("lineage_id", .string event.lineageId), ("old_epoch_id", .u64 event.oldEpochId.value),
    ("new_epoch_id", .u64 event.newEpochId.value), ("carried_state", event.carriedState.toJson),
    ("trigger", event.trigger.toJson)]

structure WorkflowStarted where
  lineageId : LineageId
  epochId : EpochId
  carriedState : CarriedState
  parentEpochId : EpochId

def WorkflowStarted.toJson (event : WorkflowStarted) : Json :=
  .object [("lineage_id", .string event.lineageId), ("epoch_id", .u64 event.epochId.value),
    ("carried_state", event.carriedState.toJson), ("parent_epoch_id", .u64 event.parentEpochId.value)]

structure SignalBuffer where
  pending : OrderedStore.Store LineageId (List CanonicalEvent)

namespace SignalBuffer

variable (buffer : SignalBuffer)

def signals (lineageId : LineageId) : List CanonicalEvent := buffer.pending[lineageId]?.getD []

def drain (lineageId : LineageId) : List CanonicalEvent × SignalBuffer :=
  (buffer.signals lineageId, ⟨buffer.pending.erase lineageId⟩)

@[simp] theorem signals_drain (lineageId other : LineageId) :
    (buffer.drain lineageId).2.signals other = if lineageId = other then [] else buffer.signals other := by
  unfold drain signals
  rw [OrderedStore.get_erase]
  split_ifs
  · rfl
  · rfl

end SignalBuffer

inductive RolloverError
  | noActiveEpoch (lineageId : LineageId)
  | carriedStateInvalid
  | rolloverInProgress
  | validationFailed (reason : String)
deriving DecidableEq

structure CarriedStateResult where
  operational : Json
  operatorDiscarded : Bool
  isValid : Bool

def isObject : Json → Bool
  | .object _ => true
  | _ => false

def computeCarriedState : CarriedStateResult :=
  ⟨state.operational, true, !state.operational.isNull || isObject state.operational⟩

structure RolloverResult where
  lineageId : LineageId
  oldEpochId : EpochId
  newEpochId : EpochId
  carriedState : CarriedState
  eventsWritten : List CanonicalEvent
  stepsCompleted : Nat
  stepCount : Nat

section

variable [JsonCodec]

def validateCarriedState (operational : Json) : Except RolloverError Unit := do
  let serialized ← (JsonCodec.toText operational).mapError fun _ => .carriedStateInvalid
  if 1048576 < serialized.utf8ByteSize then .error .carriedStateInvalid
  else .ok ()

def checkRollover (map : EpochMap) (lineageId : LineageId) (carriedState : CarriedState) :
    Except RolloverError (EpochId × CarriedStateResult) := do
  let oldEpochId ← (map.activeEpoch lineageId).okOr (.noActiveEpoch lineageId)
  let computed := computeCarriedState carriedState
  if !computed.isValid then .error .carriedStateInvalid
  else
    validateCarriedState computed.operational
    .ok (oldEpochId, computed)

end

def continuedAsNewEvent (lineageId : LineageId) (oldEpochId : EpochId) (carriedState : CarriedState)
    (trigger : ContinuedAsNewTrigger) : CanonicalEvent :=
  ⟨lineageId, oldEpochId, 18446744073709551614, "ContinuedAsNew",
    ContinuedAsNew.toJson ⟨lineageId, oldEpochId, oldEpochId.next, carriedState, trigger⟩⟩

def workflowStartedEvent (lineageId : LineageId) (oldEpochId : EpochId) (operational : Json) : CanonicalEvent :=
  ⟨lineageId, oldEpochId.next, 1, "WorkflowStarted",
    WorkflowStarted.toJson ⟨lineageId, oldEpochId.next, ⟨operational, .null⟩, oldEpochId⟩⟩

structure Projection where
  epochMap : EpochMap
  bufferedSignals : SignalBuffer

def continueAsNew7step [JsonCodec] (projection : Projection) (lineageId : LineageId) (carriedState : CarriedState)
    (trigger : ContinuedAsNewTrigger) : Except RolloverError RolloverResult × Projection :=
  match checkRollover projection.epochMap lineageId carriedState with
  | .error failure => (.error failure, projection)
  | .ok (oldEpochId, computed) =>
    let newEpochId := oldEpochId.next
    let guarded := projection.epochMap.setRolloverInProgress true
    let registered := guarded.registerEpoch lineageId newEpochId
    let unregistered := registered.unregisterEpoch lineageId
    -- the signals themselves, `_drained`, go nowhere
    let drained := projection.bufferedSignals.drain lineageId
    (.ok ⟨lineageId, oldEpochId, newEpochId, ⟨computed.operational, .null⟩,
        [continuedAsNewEvent lineageId oldEpochId carriedState trigger,
          workflowStartedEvent lineageId oldEpochId computed.operational], 7, 7⟩,
      ⟨unregistered.setRolloverInProgress false, drained.2⟩)

theorem routeEvent_none {map : EpochMap} {event : CanonicalEvent} (idle : map.rolloverInProgress = false)
    (he : map.activeEpoch event.lineageId = none) :
    routeEvent map event = .newLineage event.lineageId event.epochId := by
  unfold routeEvent EpochMap.holdsBack
  rw [idle, he]
  rfl

/-- A lineage whose epoch is gone, while the other lineages are as they were. -/
structure Ended (lineageId : LineageId) (before after : Projection) : Prop where
  idle : after.epochMap.rolloverInProgress = false
  epoch : after.epochMap.activeEpoch lineageId = none
  signals : after.bufferedSignals.signals lineageId = []
  others : ∀ other, other ≠ lineageId → after.epochMap.activeEpoch other = before.epochMap.activeEpoch other ∧
    after.bufferedSignals.signals other = before.bufferedSignals.signals other

section

variable [JsonCodec]

def CarriedState.Valid (state : CarriedState) : Prop :=
  (computeCarriedState state).isValid = true ∧ validateCarriedState state.operational = .ok ()

variable {projection : Projection} {lineageId : LineageId} {epochId : EpochId} {carriedState : CarriedState}
  {trigger : ContinuedAsNewTrigger}

theorem checkRollover_ok (ha : projection.epochMap.activeEpoch lineageId = some epochId) (hv : carriedState.Valid) :
    checkRollover projection.epochMap lineageId carriedState = .ok (epochId, computeCarriedState carriedState) := by
  unfold checkRollover
  rw [ha]
  simp only [Option.okOr_some, hv.1, Bool.not_true, Bool.false_eq_true, ↓reduceIte]
  rw [show (computeCarriedState carriedState).operational = carriedState.operational from rfl, hv.2]
  rfl

theorem continueAsNew7step_none (he : projection.epochMap.activeEpoch lineageId = none) :
    continueAsNew7step projection lineageId carriedState trigger = (.error (.noActiveEpoch lineageId), projection) := by
  unfold continueAsNew7step checkRollover
  rw [he]
  rfl

theorem continueAsNew7step_ok (trigger : ContinuedAsNewTrigger)
    (ha : projection.epochMap.activeEpoch lineageId = some epochId) (hv : carriedState.Valid) :
    ∃ after, Ended lineageId projection after ∧ continueAsNew7step projection lineageId carriedState trigger =
        (.ok ⟨lineageId, epochId, epochId.next, ⟨carriedState.operational, .null⟩,
          [continuedAsNewEvent lineageId epochId carriedState trigger,
            workflowStartedEvent lineageId epochId carriedState.operational], 7, 7⟩, after) := by
  unfold continueAsNew7step
  rw [checkRollover_ok ha hv]
  refine ⟨_, ⟨rfl, by simp, by simp, ?_⟩, rfl⟩
  intro other hd
  simp [hd.symm]

def rollover (lineageId : LineageId) (projection : Projection) (request : CarriedState × ContinuedAsNewTrigger) :
    Except RolloverError RolloverResult × Projection :=
  continueAsNew7step projection lineageId request.1 request.2

theorem rollover_stays_ended (he : projection.epochMap.activeEpoch lineageId = none)
    (reqs : List (CarriedState × ContinuedAsNewTrigger)) :
    final (rollover lineageId) projection reqs = projection := by
  induction reqs with
  | nil => rfl
  | cons req reqs ih =>
    unfold final rollover
    rw [continueAsNew7step_none he]
    exact ih

/-- A rollover ends its lineage: no epoch is active, what was buffered is lost, and none can follow. -/
theorem rollover_ends_lineage (projection : Projection) (lineageId : LineageId) (epochId : EpochId)
    (active : projection.epochMap.activeEpoch lineageId = some epochId) :
    (∀ carriedState trigger, carriedState.Valid → ∃ result after,
      continueAsNew7step projection lineageId carriedState trigger = (.ok result, after) ∧
      (∀ other, other ≠ lineageId → after.epochMap.activeEpoch other = projection.epochMap.activeEpoch other ∧
        after.bufferedSignals.signals other = projection.bufferedSignals.signals other) ∧
      after.epochMap.activeEpoch lineageId = none ∧
      (∀ event, event.lineageId = lineageId → routeEvent after.epochMap event = .newLineage lineageId event.epochId) ∧
      ((∀ signal ∈ projection.bufferedSignals.signals lineageId,
          signal ∈ after.bufferedSignals.signals lineageId ∨ signal ∈ result.eventsWritten) ↔
        ∀ signal ∈ projection.bufferedSignals.signals lineageId,
          signal = continuedAsNewEvent lineageId epochId carriedState trigger ∨
            signal = workflowStartedEvent lineageId epochId carriedState.operational) ∧
      ∀ further reason, (continueAsNew7step after lineageId further reason).1 = .error (.noActiveEpoch lineageId)) ∧
    ∀ requests : List (CarriedState × ContinuedAsNewTrigger), (∀ request ∈ requests, request.1.Valid) →
      ((final (rollover lineageId) projection requests).epochMap.activeEpoch lineageId =
          some ⟨epochId.value + .ofNat requests.length⟩ ↔ requests = []) := by
  constructor
  · intro carriedState trigger hv
    obtain ⟨after, he, ran⟩ := continueAsNew7step_ok trigger active hv
    refine ⟨_, after, ran, he.others, he.epoch, ?_, ?_, ?_⟩
    · rintro event rfl
      exact routeEvent_none he.idle he.epoch
    · simp [he.signals]
    · intro further reason
      rw [continueAsNew7step_none he.epoch]
  · intro requests hv
    cases requests with
    | nil => simpa [final] using active
    | cons request requests =>
      obtain ⟨after, he, ran⟩ := continueAsNew7step_ok request.2 active
        (hv request List.mem_cons_self)
      have last : final (rollover lineageId) projection (request :: requests) = after := by
        unfold final rollover
        rw [ran]
        exact rollover_stays_ended he.epoch requests
      rw [last, he.epoch]
      simp

end

section Sample

attribute [local instance] Json.Text.codec

def sampleSignal : CanonicalEvent := ⟨"order", ⟨3⟩, 7, "Signal", .null⟩

/-- The lineage `order` in its third epoch, with a signal that waits, beside the lineage `stock`. -/
def sampleProjection : Projection where
  epochMap := ⟨((∅ : OrderedStore.Store LineageId EpochId).insert "order" ⟨3⟩).insert "stock" ⟨1⟩, false⟩
  bufferedSignals := ⟨(∅ : OrderedStore.Store LineageId (List CanonicalEvent)).insert "order" [sampleSignal]⟩

def sampleState : CarriedState := ⟨.object [("step", .u64 4)], .null⟩

theorem sampleState_valid : sampleState.Valid := by
  refine ⟨rfl, ?_⟩
  decide +kernel

theorem rollover_ends_lineage_sample : sampleProjection.epochMap.activeEpoch "order" = some ⟨3⟩ ∧ sampleState.Valid ∧
    ∃ result after, continueAsNew7step sampleProjection "order" sampleState .explicit = (.ok result, after) ∧
      after.epochMap.activeEpoch "order" = none := by
  have ha : sampleProjection.epochMap.activeEpoch "order" = some ⟨3⟩ := by decide +kernel
  obtain ⟨result, after, ran, _, he, _⟩ :=
    (rollover_ends_lineage sampleProjection "order" ⟨3⟩ ha).1 sampleState .explicit sampleState_valid
  exact ⟨ha, sampleState_valid, result, after, ran, he⟩

def sampleAfter : Projection := (continueAsNew7step sampleProjection "order" sampleState .explicit).2

/-- The signal is neither buffered nor among the events of the result. -/
theorem lineage_lost : ((continueAsNew7step sampleProjection "order" sampleState .explicit).1.map fun result =>
        (result.newEpochId, result.eventsWritten.map CanonicalEvent.eventType)) =
      .ok (⟨4⟩, ["ContinuedAsNew", "WorkflowStarted"]) ∧
    sampleProjection.bufferedSignals.signals "order" = [sampleSignal] ∧
    (sampleAfter.bufferedSignals.signals "order").length = 0 ∧ sampleAfter.epochMap.activeEpoch "order" = none ∧
    routeEvent sampleAfter.epochMap ⟨"order", ⟨4⟩, 2, "Signal", .null⟩ = .newLineage "order" ⟨4⟩ ∧
    routeEvent sampleAfter.epochMap sampleSignal = .newLineage "order" ⟨3⟩ ∧
    ((continueAsNew7step sampleAfter "order" sampleState .explicit).1.map RolloverResult.newEpochId) =
      .error (.noActiveEpoch "order") := by
  refine ⟨?_, ?_, ?_⟩
  · decide +kernel
  · rfl
  · decide +kernel

end Sample

end Veloxide.Lineage
