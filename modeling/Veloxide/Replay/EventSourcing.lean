import Veloxide.Replay.Spec
import Veloxide.Replay.Upcaster

namespace Veloxide.Replay

open ByteCodec

inductive SnapshotCompat
  | compatible
  | needsUpcast (fromVersion toVersion : UInt16)
  | incompatible (snapshot engine : UInt16)
deriving DecidableEq

def checkSnapshotCompat (snapshotVersion engineVersion : UInt16) : SnapshotCompat :=
  if snapshotVersion = 0 ∨ engineVersion = 0 then .incompatible snapshotVersion engineVersion
  else if snapshotVersion = engineVersion then .compatible
  else if snapshotVersion < engineVersion then .needsUpcast snapshotVersion engineVersion
  else .incompatible snapshotVersion engineVersion

structure Snapshot where
  projectionId : String
  schemaVersion : UInt8
  stateBytes : Bytes
  sequence : UInt64
  createdAt : UInt64
  checksum : UInt64

def Snapshot.isCompatibleWith (snapshot : Snapshot) (engineVersion : UInt8) : Bool :=
  checkSnapshotCompat snapshot.schemaVersion.toUInt16 engineVersion.toUInt16 = .compatible

inductive RecoveryType
  | fullReplay
  | snapshotAccelerated
  | incremental
deriving DecidableEq

structure RecoveryResult (State : Type) where
  state : State
  eventsApplied : UInt64
  startingSequence : UInt64
  endingSequence : UInt64
  recoveryType : RecoveryType
  durationMs : UInt64
  snapshotUsed : Bool
deriving DecidableEq

inductive ProjectionError
  | projectionNotFound (name : String)
  | projectionAlreadyExists (name : String)
  | invalidState (reason : String)
  | buildFailed (reason : String)
  | rebuildFailed (reason : String)
  | upcastingFailed (reason : String)
  | storage (reason : String)
  | incompatibleSchemaVersion (expected actual : UInt8)
  | sequenceGap (sequence : UInt64)
  | checksumMismatch (expected actual : UInt64)
  | concurrencyConflict (reason : String)
  | throttleExceeded (waitMs : UInt64)
  | failedState (reason : String)
deriving DecidableEq

def stateJson (state : Option LifecycleState) : Json := (state.map fun state => Json.string state.serdeName).getD .null

def stateVariants : List (String × LifecycleState) := LifecycleState.variants.map fun state => (state.serdeName, state)

structure EventSourcingEngine where
  maxSchemaVersion : UInt8
  upcasterRegistry : Option UpcasterRegistry

namespace EventSourcingEngine

def replayEvents (engine : EventSourcingEngine) (events : List EventEnvelope) : Except ReplayError ReplayResult :=
  match engine.upcasterRegistry with
  | some registry => replayWithUpcaster registry events
  | none => replay events

def reconstructState (engine : EventSourcingEngine) (events : List EventEnvelope) (elapsed : UInt64) :
    Except ReplayError (RecoveryResult (Option LifecycleState)) := do
  let result ← engine.replayEvents events
  return {
    state := result.finalState
    eventsApplied := UInt64.ofNat result.eventsApplied
    startingSequence := (events.head?.map EventEnvelope.sequence).getD 0
    endingSequence := (events.getLast?.map EventEnvelope.sequence).getD 0
    recoveryType := .fullReplay
    durationMs := elapsed
    snapshotUsed := false }

variable [JsonCodec]

def decodeState (bytes : Bytes) : Except String (Option LifecycleState) := do
  let value ← JsonCodec.ofSlice bytes
  Serde.toOption (Serde.toUnitVariant stateVariants) value

def reconstructStateWithSnapshot (engine : EventSourcingEngine) (snapshot : Option Snapshot)
    (recentEvents : List EventEnvelope) (elapsed : UInt64) :
    Except ProjectionError (RecoveryResult (Option LifecycleState)) :=
  match snapshot with
  | some snap =>
    if !snap.isCompatibleWith engine.maxSchemaVersion then
      .error (.incompatibleSchemaVersion engine.maxSchemaVersion snap.schemaVersion)
    else
      let eventsToReplay := recentEvents.filter fun event => event.sequence > snap.sequence
      let startingSequence := snap.sequence + 1
      let endingSequence := (recentEvents.getLast?.map EventEnvelope.sequence).getD snap.sequence
      if eventsToReplay.isEmpty then do
        let state ← (decodeState snap.stateBytes).mapError fun failure =>
          .storage s!"snapshot deserialization failed: {failure}"
        return {
          state
          eventsApplied := 0
          startingSequence
          endingSequence
          recoveryType := .snapshotAccelerated
          durationMs := elapsed
          snapshotUsed := true }
      else do
        let result ← (engine.replayEvents eventsToReplay).mapError fun failure => .buildFailed failure.toText
        return {
          state := result.finalState
          eventsApplied := UInt64.ofNat result.eventsApplied
          startingSequence
          endingSequence
          recoveryType := .snapshotAccelerated
          durationMs := elapsed
          snapshotUsed := true }
  | none => do
    let result ← (engine.replayEvents recentEvents).mapError fun failure => .buildFailed failure.toText
    return {
      state := result.finalState
      eventsApplied := UInt64.ofNat result.eventsApplied
      startingSequence := (recentEvents.head?.map EventEnvelope.sequence).getD 0
      endingSequence := (recentEvents.getLast?.map EventEnvelope.sequence).getD 0
      recoveryType := .fullReplay
      durationMs := elapsed
      snapshotUsed := false }

end EventSourcingEngine

end Veloxide.Replay
