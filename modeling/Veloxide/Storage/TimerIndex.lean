import Veloxide.Library.ByteOrder
import Veloxide.Library.Uuid
import Veloxide.Storage.KeyEncoding

namespace Veloxide

open ByteCodec OrderedStore KeyEncoding Unsigned

section

variable [Uuid]

theorem TimerId.validate_toText (uuid : BitVec 128) : TimerId.validate (Uuid.toText uuid) = .ok () := by
  have hl := Uuid.length_toText uuid
  have hn : Uuid.toText uuid ≠ "" := by
    intro he
    rw [he] at hl
    exact absurd hl (by decide)
  have hs : ¬ (Uuid.toText uuid).length > 256 := by omega
  have hc : requireCharacters "TimerId" isIdentifierChar (Uuid.toText uuid) = .ok () := by
    rw [requireCharacters_eq_ok]
    intro c mem
    rcases Uuid.hyphenated uuid c mem with ha | hyphen
    · have same : isAsciiAlphanumeric c = true := ha
      simp [isIdentifierChar, same]
    · simp [isIdentifierChar, hyphen]
  simp only [TimerId.validate, if_neg hn, requireMaxLength, if_neg hs, hc]
  rfl

def TimerId.fromBytes (bytes : Bytes) : TimerId :=
  ⟨Uuid.toText (BitVec.ofNat 128 (beNat bytes)), TimerId.validate_toText _⟩

variable [Ulid]

def TimerId.uuid (timerId : TimerId) : BitVec 128 := match Uuid.ofText timerId.value with
  | some uuid => uuid
  | none =>
    match Ulid.ofText timerId.value with
    | .ok ulid => ulid
    | .error _ => Uuid.named (utf8 timerId.value)

def TimerId.toBytes (timerId : TimerId) : Except ParseError Bytes := .ok (beBytes 16 (TimerId.uuid timerId).toNat)

end

namespace TimerIndex

structure TimerRecord [Ulid] where
  timerId : TimerId
  instanceId : InstanceId
  fireAtMs : UInt64
  triggerTimeMs : UInt64
  durationMs : UInt64

variable [Ulid] [Uuid]

def timerKey (fireAtMs : UInt64) (instanceId : InstanceId) (timerId : TimerId) : Except StorageError Bytes := do
  let instanceBytes ← instanceId.toBytes.mapError fun _ => .invalidArgument
  let timerBytes ← (TimerId.toBytes timerId).mapError fun _ => .invalidArgument
  return beBytes 8 fireAtMs.toNat ++ (instanceBytes ++ timerBytes)

variable (key : Bytes)

def keyFireAtMs : UInt64 := UInt64.ofNat (beNat (key.take 8))

def keyInstanceId : InstanceId := InstanceId.fromBytes ((key.drop 8).take 16)

def keyTimerId : TimerId := TimerId.fromBytes ((key.drop 24).take 16)

variable (index : Store Bytes Bytes)

def timerSet (instanceId : InstanceId) (timerId : TimerId) (fireAtMs triggerTimeMs durationMs nowMs : UInt64) :
    Except StorageError (Store Bytes Bytes) :=
  if fireAtMs ≤ nowMs then .error .invalidArgument
  else if durationMs = 0 then .error .invalidArgument
  else if fireAtMs ≠ saturatingAdd triggerTimeMs durationMs then .error .invalidArgument
  else do
    let key ← timerKey fireAtMs instanceId timerId
    return index.insert key (beBytes 8 durationMs.toNat)

def timerDelete (instanceId : InstanceId) (timerId : TimerId) (fireAtMs : UInt64) :
    Except StorageError (Store Bytes Bytes) := do
  let key ← timerKey fireAtMs instanceId timerId
  return index.erase key

def scanStart : Bytes := List.replicate 40 0

def scanEnd (nowMs : UInt64) : Bytes := beBytes 8 (saturatingAdd nowMs 1).toNat ++ List.replicate 32 0

def isClaimed (instanceId : InstanceId) (nowMs : UInt64) (entry : Bytes × Bytes) : Bool :=
  entry.1.length = 40 ∧ keyInstanceId entry.1 = instanceId ∧ keyFireAtMs entry.1 ≤ nowMs ∧ entry.2.length = 8

def record (entry : Bytes × Bytes) : TimerRecord where
  timerId := keyTimerId entry.1
  instanceId := keyInstanceId entry.1
  fireAtMs := keyFireAtMs entry.1
  triggerTimeMs := saturatingSub (keyFireAtMs entry.1) (UInt64.ofNat (beNat entry.2))
  durationMs := UInt64.ofNat (beNat entry.2)

def claim (instanceId : InstanceId) (nowMs : UInt64) :
    Nat → Store Bytes Bytes → List (Bytes × Bytes) → List TimerRecord × Store Bytes Bytes
  | _, index, [] => ([], index)
  | 0, index, _ :: _ => ([], index)
  | left + 1, index, entry :: entries =>
    if isClaimed instanceId nowMs entry then
      let (claimed, after) := claim instanceId nowMs left (index.erase entry.1) entries
      (record entry :: claimed, after)
    else claim instanceId nowMs (left + 1) index entries

def pollExpiredTimers (instanceId : InstanceId) (nowMs : UInt64) (maxTimers : Nat) :
    List TimerRecord × Store Bytes Bytes :=
  claim instanceId nowMs maxTimers index (rangeScan index scanStart (scanEnd nowMs))

end TimerIndex

end Veloxide
