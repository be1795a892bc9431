import Veloxide.Replay.Engine

namespace Veloxide.Replay

inductive UpcastFailure
  | noUpcasterRegistered (fromVersion toVersion : UInt8)
  | upcastFailed (reason : String)
  | invalidVersion (version : UInt8)
  | chainExhausted
  | invalidTargetVersion (version : UInt8)
  | duplicateRegistration (version : UInt8)

def UpcastFailure.toText : UpcastFailure → String
  | noUpcasterRegistered fromVersion toVersion =>
    s!"No upcaster registered for version transition: {fromVersion} → {toVersion}"
  | upcastFailed reason => s!"Upcaster failed: {reason}"
  | invalidVersion version => s!"Invalid version: {version}"
  | chainExhausted => "Upcast chain exhausted before reaching target version"
  | invalidTargetVersion version => s!"Invalid target version: {version}"
  | duplicateRegistration version => s!"Duplicate registration for source version: {version}"

structure Upcaster where
  sourceVersion : UInt8
  targetVersion : UInt8
  upcast : Json → Except UpcastFailure Json

inductive UpcasterError
  | noUpcasterRegistered (version : UInt8)
  | duplicateRegistration (version : UInt8)
  | upcastingFailed (reason : String)
  | invalidTargetVersion (version : UInt8)
  | circularChain (version : UInt8)
  | invalidUpcastedEnvelope (source : Events.Error)

def UpcasterError.toText : UpcasterError → String
  | noUpcasterRegistered version => s!"No upcaster registered for source version: {version}"
  | duplicateRegistration version => s!"Duplicate upcaster registration for source version: {version}"
  | upcastingFailed reason => s!"Upcasting failed: {reason}"
  | invalidTargetVersion version =>
    s!"Invalid target version: {version} (maximum supported: {maxSupportedVersion})"
  | circularChain version => s!"Circular upcaster chain detected for version: {version}"
  | invalidUpcastedEnvelope source => "Upcaster produced invalid envelope: " ++ source.toText

/-- `UpcasterRegistryImpl`: at most one upcaster for a source version. -/
structure UpcasterRegistry where
  upcasters : List Upcaster
  maxVersion : UInt8
  distinct : (upcasters.map Upcaster.sourceVersion).Nodup

variable (registry : UpcasterRegistry)

namespace UpcasterRegistry

def new (maxVersion : UInt8) : UpcasterRegistry := ⟨[], maxVersion, List.nodup_nil⟩

def get (version : UInt8) : Option Upcaster := registry.upcasters.find? fun upcaster => upcaster.sourceVersion == version

def register (upcaster : Upcaster) : Except UpcasterError UpcasterRegistry :=
  if upcaster.targetVersion > registry.maxVersion then
    .error (.invalidTargetVersion upcaster.targetVersion)
  else if present : upcaster.sourceVersion ∈ registry.upcasters.map Upcaster.sourceVersion then
    .error (.duplicateRegistration upcaster.sourceVersion)
  else
    .ok ⟨upcaster :: registry.upcasters, registry.maxVersion, List.nodup_cons.mpr ⟨present, registry.distinct⟩⟩

/-- A round visits one more version below the maximum, so a round for every version is enough. -/
def buildUpcastChain (registry : UpcasterRegistry) :
    (rounds : Nat) → (visited : List UInt8) → (currentVersion : UInt8) → Except UpcasterError (List Upcaster)
  | 0, _, currentVersion => .error (.circularChain currentVersion)
  | rounds + 1, visited, currentVersion =>
    if currentVersion < registry.maxVersion then
      if currentVersion ∈ visited then .error (.circularChain currentVersion)
      else match registry.get currentVersion with
        | none => .error (.noUpcasterRegistered currentVersion)
        | some upcaster =>
          (buildUpcastChain registry rounds (currentVersion :: visited) upcaster.targetVersion).map (upcaster :: ·)
    else .ok []

def applyUpcastChain (envelope : EventEnvelope) : List Upcaster → Except UpcasterError EventEnvelope
  | [] => .ok envelope
  | upcaster :: chain =>
    match upcaster.upcast envelope.payload with
    | .error failure => .error (.upcastingFailed failure.toText)
    | .ok payload => applyUpcastChain { envelope with schemaVersion := upcaster.targetVersion, payload } chain

def upcastEnvelope (envelope : EventEnvelope) : Except UpcasterError EventEnvelope :=
  if envelope.schemaVersion ≥ registry.maxVersion then .ok envelope
  else do
    let chain ← registry.buildUpcastChain 257 [] envelope.schemaVersion
    applyUpcastChain envelope chain

def SamePosition (left right : EventEnvelope) : Prop :=
  right.sequence = left.sequence ∧ right.instanceId = left.instanceId

variable {env upcast : EventEnvelope}

theorem applyUpcastChain_position {chain : List Upcaster} (ha : applyUpcastChain env chain = .ok upcast) :
    SamePosition env upcast := by
  induction chain generalizing env with
  | nil =>
    cases ha
    exact ⟨rfl, rfl⟩
  | cons upcaster chain ih =>
    rw [applyUpcastChain] at ha
    split at ha
    · contradiction
    · have hp := ih ha
      exact hp

theorem upcastEnvelope_position {registry : UpcasterRegistry}
    (ha : registry.upcastEnvelope env = .ok upcast) : SamePosition env upcast := by
  rw [upcastEnvelope] at ha
  split at ha
  · cases ha
    exact ⟨rfl, rfl⟩
  · obtain ⟨chain, _, ha⟩ := Except.bind_eq_ok.mp ha
    exact applyUpcastChain_position ha

end UpcasterRegistry

variable (events : List EventEnvelope)

def upcastAll : Except ReplayError (List EventEnvelope) :=
  events.mapM fun envelope => (registry.upcastEnvelope envelope).mapError fun failure =>
    .upcastingFailed envelope.sequence failure.toText

def replayWithUpcaster : Except ReplayError ReplayResult := if events = [] then .ok ⟨none, 0, none⟩
  else do
    let upcastedEvents ← upcastAll registry events
    replay upcastedEvents

end Veloxide.Replay
