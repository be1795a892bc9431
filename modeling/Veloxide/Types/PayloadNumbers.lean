import Veloxide.Types.Events

namespace Veloxide.Events

open Except

variable {number : UInt64}

section

variable {obj : List (String × Json)} {field : String}

theorem requireU64_eq_ok : requireU64 obj field = .ok number ↔ Json.lookup obj field = some (Json.u64 number) := by
  rw [requireU64]
  constructor
  · intro read
    obtain ⟨value, hf, read⟩ := bind_eq_ok.mp read
    have hi := Option.okOr_eq_ok.mp read
    rw [Option.okOr_eq_ok.mp hf]
    cases value with
    | number value =>
      cases value with
      | posInt value =>
        cases hi
        rfl
      | negInt predecessor | float text => cases hi
    | null | bool value | string value | array items | object fields => cases hi
  · intro hf
    rw [hf]
    rfl

theorem lookup_of_requireString {text : String} (read : requireString obj field = .ok text) :
    Json.lookup obj field = some (.string text) := by
  obtain ⟨value, hf, read⟩ := bind_eq_ok.mp read
  have string := Option.okOr_eq_ok.mp read
  rw [Option.okOr_eq_ok.mp hf]
  cases value with
  | string value =>
    cases string
    rfl
  | null | bool value | number value | array items | object fields => cases string

end

namespace EventPayload

def numericFields : EventPayload → List (String × Nat)
  | workflowStarted .. => []
  | workflowCompleted _ completionTimeMs => [("completion_time_ms", completionTimeMs.toNat)]
  | workflowFailed .. => []
  | workflowCancelled .. => []
  | stepScheduled _ _ attempt fence _ => [("attempt", attempt.toNat), ("fence", fence.toNat)]
  | stepStarted _ _ startedAtMs => [("started_at_ms", startedAtMs.toNat)]
  | stepCompleted _ _ completedAtMs attempt fence .. =>
    [("completed_at_ms", completedAtMs.toNat), ("attempt", attempt.toNat), ("fence", fence.toNat)]
  | stepFailed _ _ _ attempt fence => [("attempt", attempt.toNat), ("fence", fence.toNat)]
  | effectPrepared _ _ _ _ _ fence => [("fence", fence.toNat)]
  | effectCommitted _ _ _ _ fence => [("fence", fence.toNat)]
  | timerSet _ _ fireAtMs => [("fire_at_ms", fireAtMs.toNat)]
  | timerScheduled _ _ fireAtMs _ => [("fire_at_ms", fireAtMs.toNat)]
  | timerFired _ _ firedAtMs => [("fired_at_ms", firedAtMs.toNat)]
  | cancelRequested .. => []
  | signalAwaiting _ _ _ awaitedAtMs => [("awaited_at_ms", awaitedAtMs.toNat)]
  | instanceResumed _ resumedAtMs => [("resumed_at_ms", resumedAtMs.toNat)]
  | continuedAsNew _ _ oldEpoch newEpoch => [("old_epoch", oldEpoch.toNat), ("new_epoch", newEpoch.toNat)]
  | workflowQuarantined _ failureCount failureWindowSeconds =>
    [("failure_count", failureCount.toNat), ("failure_window_seconds", failureWindowSeconds.toNat)]

def narrowField : String → Option (String × Nat)
  | "StepScheduled" | "StepCompleted" | "StepFailed" => some ("attempt", 2 ^ 32)
  | "WorkflowQuarantined" => some ("failure_count", 2 ^ 8)
  | _ => none

def Lossless (obj : List (String × Json)) (payload : EventPayload) : Prop :=
  ∀ field ∈ payload.numericFields, ∃ number, Json.lookup obj field.1 = some (Json.u64 number) ∧ number.toNat = field.2

def FitsType (obj : List (String × Json)) (payloadType : String) : Prop :=
  ∀ field ∈ narrowField payloadType, ∀ number, Json.lookup obj field.1 = some (Json.u64 number) → number.toNat < field.2

def Fits (obj : List (String × Json)) : Prop :=
  ∀ payloadType, Json.lookup obj "type" = some (.string payloadType) → FitsType obj payloadType

section

variable {obj : List (String × Json)} {name : String}

theorem exact_of_lookup (hf : Json.lookup obj name = some (Json.u64 number)) (value : Nat) :
    (∃ other, Json.lookup obj name = some (Json.u64 other) ∧ other.toNat = value) ↔ number.toNat = value := by
  simp only [hf, Option.some.injEq, Json.u64, Json.number.injEq, JsonNumber.posInt.injEq, exists_eq_left']

theorem toUInt32_exact_iff (number : UInt64) : number.toNat = number.toUInt32.toNat ↔ number.toNat < 2 ^ 32 := by
  rw [UInt64.toNat_toUInt32, eq_comm, Nat.mod_eq_iff_lt (by decide)]

theorem toUInt8_exact_iff (number : UInt64) : number.toNat = number.toUInt8.toNat ↔ number.toNat < 2 ^ 8 := by
  rw [UInt64.toNat_toUInt8, eq_comm, Nat.mod_eq_iff_lt (by decide)]

variable {payloadType : String}

theorem fitsType_of_lookup {bound : Nat} (hn : narrowField payloadType = some (name, bound))
    (hf : Json.lookup obj name = some (Json.u64 number)) : FitsType obj payloadType ↔ number.toNat < bound := by
  simp only [FitsType, hn, Option.mem_def, Option.some.injEq, forall_eq', hf, Json.u64, Json.number.injEq,
    JsonNumber.posInt.injEq]

theorem fitsType_of_none (wide : narrowField payloadType = none) : FitsType obj payloadType := by
  intro field hn
  rw [wide] at hn
  cases hn

theorem lossless_of_wide {body : EventPayload} (wide : narrowField payloadType = none)
    (hl : body.Lossless obj) : body.Lossless obj ↔ FitsType obj payloadType :=
  iff_of_true hl (fitsType_of_none wide)

theorem fromFields_lossless_iff {data : EventPayload} (read : fromFields obj payloadType = .ok data) :
    data.Lossless obj ↔ FitsType obj payloadType := by
  unfold fromFields at read
  split at read
  all_goals simp only [bind_eq_ok, requireU64_eq_ok, pure, Except.pure, Except.ok.injEq, reduceCtorEq] at read
  · obtain ⟨_, _, _, _, _, _, _, _, rfl⟩ := read
    exact lossless_of_wide rfl fun _ hl => by cases hl
  · obtain ⟨_, _, _, hc, rfl⟩ := read
    exact lossless_of_wide rfl (by simp [Lossless, numericFields, exact_of_lookup hc])
  · obtain ⟨_, _, _, _, rfl⟩ := read
    exact lossless_of_wide rfl fun _ hl => by cases hl
  · obtain ⟨_, _, _, _, rfl⟩ := read
    exact lossless_of_wide rfl fun _ hl => by cases hl
  · obtain ⟨_, _, _, _, _, ha, _, hf, _, _, rfl⟩ := read
    rw [fitsType_of_lookup rfl ha, ← toUInt32_exact_iff]
    simp [Lossless, numericFields, exact_of_lookup ha, exact_of_lookup hf]
  · obtain ⟨_, _, _, _, _, hs, rfl⟩ := read
    exact lossless_of_wide rfl (by simp [Lossless, numericFields, exact_of_lookup hs])
  · obtain ⟨_, _, _, _, _, hb, _, ha, _, hf, rfl⟩ := read
    rw [fitsType_of_lookup rfl ha, ← toUInt32_exact_iff]
    simp [Lossless, numericFields, exact_of_lookup hb, exact_of_lookup ha, exact_of_lookup hf]
  · obtain ⟨_, _, _, _, _, _, _, ha, _, hf, rfl⟩ := read
    rw [fitsType_of_lookup rfl ha, ← toUInt32_exact_iff]
    simp [Lossless, numericFields, exact_of_lookup ha, exact_of_lookup hf]
  · obtain ⟨_, _, _, _, _, _, _, _, _, _, _, _, _, hf, rfl⟩ := read
    exact lossless_of_wide rfl (by simp [Lossless, numericFields, exact_of_lookup hf])
  · obtain ⟨_, _, _, _, _, _, _, hf, rfl⟩ := read
    exact lossless_of_wide rfl (by simp [Lossless, numericFields, exact_of_lookup hf])
  · obtain ⟨_, _, _, _, _, hi, rfl⟩ := read
    exact lossless_of_wide rfl (by simp [Lossless, numericFields, exact_of_lookup hi])
  · obtain ⟨_, _, _, _, _, hi, _, _, rfl⟩ := read
    exact lossless_of_wide rfl (by simp [Lossless, numericFields, exact_of_lookup hi])
  · obtain ⟨_, _, _, _, _, hd, rfl⟩ := read
    exact lossless_of_wide rfl (by simp [Lossless, numericFields, exact_of_lookup hd])
  · obtain ⟨_, _, _, _, rfl⟩ := read
    exact lossless_of_wide rfl fun _ hl => by cases hl
  · obtain ⟨_, _, _, _, _, _, _, he, rfl⟩ := read
    exact lossless_of_wide rfl (by simp [Lossless, numericFields, exact_of_lookup he])
  · obtain ⟨_, _, _, hr, rfl⟩ := read
    exact lossless_of_wide rfl (by simp [Lossless, numericFields, exact_of_lookup hr])
  · obtain ⟨_, _, _, _, _, ho, _, hn, rfl⟩ := read
    exact lossless_of_wide rfl (by simp [Lossless, numericFields, exact_of_lookup ho, exact_of_lookup hn])
  · obtain ⟨_, _, _, hu, _, hw, rfl⟩ := read
    rw [fitsType_of_lookup rfl hu, ← toUInt8_exact_iff]
    simp [Lossless, numericFields, exact_of_lookup hu, exact_of_lookup hw]

end

/-- A payload holds the numbers of its JSON exactly when the one narrow field of its type has room for its number. -/
theorem payload_lossless_iff {obj : List (String × Json)} {payload : EventPayload}
    (accepted : tryFromJson (.object obj) = .ok payload) : payload.Lossless obj ↔ Fits obj := by
  obtain ⟨fields, hi, accepted⟩ := bind_eq_ok.mp accepted
  cases hi
  obtain ⟨payloadType, ht, accepted⟩ := bind_eq_ok.mp accepted
  have hn := lookup_of_requireString ht
  have fits : Fits obj ↔ FitsType obj payloadType := by
    simp only [Fits, hn, Option.some.injEq, Json.string.injEq, forall_eq']
  obtain ⟨_, accepted⟩ := guard_eq_ok.mp accepted
  obtain ⟨_, accepted⟩ := guard_eq_ok.mp accepted
  rw [fits]
  exact fromFields_lossless_iff accepted

section Sample

def sampleFailure (attempt : UInt64) : List (String × Json) :=
  [("type", .string "StepFailed"), ("workflow_id", .string "w"), ("step_id", .string "s"),
    ("failure_reason", .string "r"), ("attempt", .u64 attempt), ("fence", .u64 7)]

/-- The attempt 2³² + 1 becomes the attempt 1. -/
theorem attempt_wraps : tryFromJson (.object (sampleFailure 4294967297)) = .ok (.stepFailed "w" "s" "r" 1 7) ∧
    ¬ (EventPayload.stepFailed "w" "s" "r" 1 7).Lossless (sampleFailure 4294967297) := by
  refine ⟨rfl, ?_⟩
  intro hl
  obtain ⟨number, hf, same⟩ := hl ("attempt", 1) (List.mem_cons_self ..)
  cases hf
  cases same

theorem payload_lossless_iff_sample : tryFromJson (.object (sampleFailure 3)) = .ok (.stepFailed "w" "s" "r" 3 7) ∧
    ((EventPayload.stepFailed "w" "s" "r" 3 7).Lossless (sampleFailure 3) ↔ Fits (sampleFailure 3)) :=
  ⟨rfl, payload_lossless_iff rfl⟩

end Sample

end EventPayload

end Veloxide.Events
