import Veloxide.Library.Keyspace
import Veloxide.Storage.KeyEncoding

namespace Veloxide.HotSpot

open ByteCodec OrderedStore KeyEncoding

def fnvOffset : UInt64 := 14695981039346656037

def fnvPrime : UInt64 := 1099511628211

def fnv1a64 (data : Bytes) : UInt64 := data.foldl (fun hash byte => (hash ^^^ byte.toUInt64) * fnvPrime) fnvOffset

def scrambleBytes (idBytes : Bytes) : Bytes :=
  List.zipWith (· ^^^ ·) (idBytes.take 8) (beBytes 8 (fnv1a64 idBytes).toNat).reverse ++ idBytes.drop 8

theorem length_scrambleBytes {idBytes : Bytes} (hl : idBytes.length = 16) : (scrambleBytes idBytes).length = 16 := by
  simp [scrambleBytes, hl]

structure HotSpotConfig where
  maxEvents : UInt64
  maxWritesPerSecond : UInt64
  windowMs : UInt64

def HotSpotConfig.default : HotSpotConfig := ⟨10000, 500, 1000⟩

structure InstanceMetrics where
  appendCount : UInt64
  windowWrites : UInt64
  windowStart : UInt64

structure HotSpotDetector where
  config : HotSpotConfig
  instances : Store String InstanceMetrics

namespace HotSpotDetector

def new (config : HotSpotConfig) : HotSpotDetector := ⟨config, ∅⟩

/-- `Instant::duration_since` of two readings in nanoseconds, zero when the second one is later. -/
def elapsedMs (reading since : Nat) : UInt64 := UInt64.ofNat ((reading - since) / 1000000)

end HotSpotDetector

variable [Ulid]

def scrambleInstanceId (instanceId : InstanceId) : Except StorageError Bytes := do
  let idBytes ← instanceId.toBytes.mapError .invalidInstanceId
  return scrambleBytes idBytes

theorem scrambleInstanceId_eq (inst : InstanceId) : scrambleInstanceId inst = .ok (scrambleBytes inst.bytes) := by
  rw [scrambleInstanceId, inst.toBytes_eq]
  rfl

/-- The clock is read twice, the second time for the instant that the elapsed time is counted from. -/
def HotSpotDetector.recordAppend (detector : HotSpotDetector) (instanceId : InstanceId) (reading since : Nat) :
    Bool × HotSpotDetector :=
  let metrics := detector.instances[instanceId.text]?.getD ⟨0, 0, 0⟩
  let newCount := metrics.appendCount + 1
  let now := elapsedMs reading since
  let expired := now.toNat - metrics.windowStart.toNat > detector.config.windowMs.toNat
  let windowStart := if expired then now else metrics.windowStart
  let windowCount := (if expired then 0 else metrics.windowWrites) + 1
  (newCount ≥ detector.config.maxEvents || windowCount ≥ detector.config.maxWritesPerSecond,
    { detector with instances := detector.instances.insert instanceId.text ⟨newCount, windowCount, windowStart⟩ })

end Veloxide.HotSpot
