import Veloxide.Library.Execution
import Veloxide.Library.Keyspace
import Veloxide.Types.Ids

namespace Veloxide.Lease

open ByteCodec Unsigned Machine Serde

inductive LeaseStoreError
  | leaseAlreadyHeld (instanceId stepId : String)
  | notFound (instanceId stepId : String)
  | staleFence (expected actual : String)
  | fenceTokenExhausted (instanceId stepId : String)
  | storage (reason : String)
  | codec (reason : String)
  | invalidArgument
deriving DecidableEq

structure LeaseEntry where
  instanceId : String
  stepId : String
  fenceToken : UInt64
  expiresAt : UInt64

namespace LeaseEntry

def new (instanceId stepId : String) (fenceToken expiresAt : UInt64) : Except LeaseStoreError LeaseEntry :=
  if instanceId = "" ∨ stepId = "" then .error .invalidArgument
  else if fenceToken = 0 then .error .invalidArgument
  else .ok ⟨instanceId, stepId, fenceToken, expiresAt⟩

def isExpired (entry : LeaseEntry) (nowMs : UInt64) : Bool := nowMs ≥ entry.expiresAt

def toJson (entry : LeaseEntry) : Json :=
  .object [("instance_id", .string entry.instanceId), ("step_id", .string entry.stepId),
    ("fence_token", Json.u64 entry.fenceToken), ("expires_at", Json.u64 entry.expiresAt)]

def fromJson (value : Json) : Except String LeaseEntry := do
  let fields ← record "LeaseEntry" ["instance_id", "step_id", "fence_token", "expires_at"] value
  let instanceId ← required fields "instance_id" toStr
  let stepId ← required fields "step_id" toStr
  let fenceToken ← required fields "fence_token" toU64
  let expiresAt ← required fields "expires_at" toU64
  return ⟨instanceId, stepId, fenceToken, expiresAt⟩

end LeaseEntry

theorem stepId_ne_empty (stepId : StepId) : stepId.value ≠ "" := by
  intro he
  have hv := stepId.valid
  rw [he] at hv
  exact absurd hv (by decide)

section

variable [Ulid]

structure LeaseRecord where
  instanceId : InstanceId
  stepId : StepId
  token : FenceToken
deriving DecidableEq

def LeaseEntry.toLeaseRecord (entry : LeaseEntry) : Except LeaseStoreError LeaseRecord := do
  let token ← (FenceToken.new entry.fenceToken).mapError fun _ => .codec "invalid fence token value"
  let instanceId ← (InstanceId.parse entry.instanceId).mapError fun failure =>
    .codec ("invalid instance_id: " ++ failure.toText)
  let stepId ← (Text.parse StepId.validate entry.stepId).mapError fun failure =>
    .codec ("invalid step_id: " ++ failure.toText)
  return ⟨instanceId, stepId, token⟩

structure Pair where
  instanceId : InstanceId
  stepId : StepId
deriving DecidableEq

def LeaseRecord.pair (lease : LeaseRecord) : Pair := ⟨lease.instanceId, lease.stepId⟩

theorem LeaseRecord.ext_pair {left right : LeaseRecord} (pair : left.pair = right.pair)
    (ht : left.token.value = right.token.value) : left = right := by
  obtain ⟨_, _, ⟨_, _⟩⟩ := left
  obtain ⟨_, _, ⟨_, _⟩⟩ := right
  cases pair
  cases ht
  rfl

/-- A call of the `LeaseStore` trait, with the time that its clock shows. -/
inductive Call
  | acquire (pair : Pair) (ttlMs nowMs : UInt64)
  | release (lease : LeaseRecord)
  | checkStaleFence (pair : Pair) (token : FenceToken) (nowMs : UInt64)

inductive Reply
  | acquired (result : Except LeaseStoreError LeaseRecord)
  | released (result : Except LeaseStoreError Unit)
  | checked (result : Except LeaseStoreError Bool)
deriving DecidableEq

def Call.pair : Call → Pair
  | acquire pair _ _ => pair
  | release lease => lease.pair
  | checkStaleFence pair _ _ => pair

section

variable {S : Type}

/-- No other lease is granted on a pair until the first is released or expires. -/
def MutuallyExclusive (run : List (Event S Call Reply)) : Prop :=
  ∀ (before : List (Event S Call Reply)) (first : Event S Call Reply)
    (between : List (Event S Call Reply)) (second : Event S Call Reply)
    (after : List (Event S Call Reply)) (pair : Pair) (ttlMs nowMs laterTtlMs laterMs : UInt64)
    (lease laterLease : LeaseRecord),
    run = before ++ first :: (between ++ second :: after) →
    first.call = .acquire pair ttlMs nowMs → first.reply = .acquired (.ok lease) →
    second.call = .acquire pair laterTtlMs laterMs → second.reply = .acquired (.ok laterLease) →
    (∃ event ∈ between, event.call = .release lease ∧ event.reply = .released (.ok ())) ∨
      saturatingAdd nowMs ttlMs ≤ laterMs

def Isolated (step : S → Call → Reply × S) (start : S) (calls : List Call) : Prop :=
  ∀ pair, ((trace step start calls).filter fun event => event.call.pair = pair).map Event.reply =
    (trace step start (calls.filter fun call => call.pair = pair)).map Event.reply

end

theorem LeaseEntry.new_eq (pair : Pair) (token expiresAt : UInt64) (hn : token ≠ 0) :
    LeaseEntry.new pair.instanceId.text pair.stepId.value token expiresAt =
      .ok ⟨pair.instanceId.text, pair.stepId.value, token, expiresAt⟩ := by
  have ha : ¬ (pair.instanceId.text = "" ∨ pair.stepId.value = "") :=
    not_or.mpr ⟨pair.instanceId.text_ne_empty, stepId_ne_empty _⟩
  rw [new, if_neg ha, if_neg hn]

def grant (pair : Pair) (token : FenceToken) : Except LeaseStoreError LeaseRecord := if pair.instanceId.IsNil then
    .error (.codec "invalid instance_id: InstanceId: invalid format: invalid ULID validation: nil value not permitted")
  else .ok ⟨pair.instanceId, pair.stepId, token⟩

theorem toLeaseRecord_eq (pair : Pair) (token : FenceToken) (expiresAt : UInt64) :
    (⟨pair.instanceId.text, pair.stepId.value, token.value, expiresAt⟩ : LeaseEntry).toLeaseRecord =
      grant pair token := by
  have step := pair.stepId.parse_value
  unfold LeaseEntry.toLeaseRecord grant
  simp only [token.new_value, step]
  by_cases nil : pair.instanceId.IsNil
  · have hr := InstanceId.parse_toText (0 : BitVec 128)
    rw [if_pos rfl] at hr
    rw [if_pos nil, show pair.instanceId.text = Ulid.toText 0 from congrArg InstanceId.text nil, hr]
    rfl
  · rw [if_neg nil, InstanceId.parse_text nil]
    rfl

end

section Sample

attribute [local instance] Ulid.Crockford.codec

def samplePair : Pair := ⟨InstanceId.ofUlid 1, ⟨"charge", by decide⟩⟩

end Sample

end Veloxide.Lease
