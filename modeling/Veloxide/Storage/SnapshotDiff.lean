import Veloxide.Storage.Snapshots

namespace Veloxide.SnapshotDiffs

inductive DiffOperation (α : Type)
  | unchanged
  | added (value : α)
  | removed (value : α)
  | modified (old new : α)

structure StateDiff where
  counter : DiffOperation UInt64

inductive DiffError
  | corruptSnapshot
  | versionMismatch
  | sequenceGap
  | serializationFailed
  | deserializationFailed

inductive ApplyError
  | baseStateMismatch
  | diffTargetInvalid
  | sequenceRegress
deriving DecidableEq

variable (source target : UInt64)

section

variable [Ulid]

structure SnapshotDiff where
  fromSequence : UInt64
  toSequence : UInt64
  instanceId : InstanceId
  stateDiff : StateDiff

inductive DiffResult
  | identical
  | hasDiff (diff : SnapshotDiff)

def counterDiff (source target : UInt64) : DiffOperation UInt64 := if source = target then .unchanged
  else if source = 0 ∧ target > 0 then .added target
  else if source > 0 ∧ target = 0 then .removed source
  else .modified source target

def diff (instanceId : InstanceId) (source target : UInt64 × InstanceState) : DiffResult :=
  if source.1 = target.1 then .identical
  else if target.1 < source.1 then .identical
  else .hasDiff ⟨source.1, target.1, instanceId, ⟨counterDiff source.2.counter target.2.counter⟩⟩

def applyCounter (base : UInt64) : DiffOperation UInt64 → Except ApplyError UInt64
  | .unchanged => .ok base
  | .added value => if base = 0 then .ok value else .error .diffTargetInvalid
  | .removed value => if base = value then .ok 0 else .error .diffTargetInvalid
  | .modified old new => if base = old then .ok new else .error .diffTargetInvalid

def applyDiff (base : UInt64 × InstanceState) (diff : SnapshotDiff) : Except ApplyError InstanceState :=
  if diff.fromSequence ≠ base.1 then .error .baseStateMismatch
  else do
    let newCounter ← applyCounter base.2.counter diff.stateDiff.counter
    return ⟨newCounter, none⟩

def invertCounter : DiffOperation UInt64 → DiffOperation UInt64
  | .unchanged => .unchanged
  | .added value => .removed value
  | .removed value => .added value
  | .modified old new => .modified new old

def invertDiff (diff : SnapshotDiff) : SnapshotDiff :=
  ⟨diff.toSequence, diff.fromSequence, diff.instanceId, ⟨invertCounter diff.stateDiff.counter⟩⟩

def composeCounters : DiffOperation UInt64 → DiffOperation UInt64 → Except DiffError (DiffOperation UInt64)
  | .unchanged, operation => .ok operation
  | operation, .unchanged => .ok operation
  | .added _, .added _ => .error .sequenceGap
  | .removed _, .removed _ => .error .sequenceGap
  | .modified initA newA, .modified oldB finalB =>
    if newA = oldB then .ok (.modified initA finalB) else .error .sequenceGap
  | _, _ => .error .sequenceGap

def SnapshotDiff.compose (self other : SnapshotDiff) : Except DiffError SnapshotDiff :=
  if self.toSequence ≠ other.fromSequence then .error .sequenceGap
  else if self.instanceId ≠ other.instanceId then .error .sequenceGap
  else do
    let composedCounter ← composeCounters self.stateDiff.counter other.stateDiff.counter
    return ⟨self.fromSequence, other.toSequence, self.instanceId, ⟨composedCounter⟩⟩

end

section

theorem counterDiff_cases : (source = target ∧ counterDiff source target = .unchanged) ∨
    (source = 0 ∧ target ≠ 0 ∧ counterDiff source target = .added target) ∨
    (source ≠ 0 ∧ target = 0 ∧ counterDiff source target = .removed source) ∨
    (source ≠ target ∧ source ≠ 0 ∧ target ≠ 0 ∧ counterDiff source target = .modified source target) := by
  simp only [counterDiff, gt_iff_lt, UInt64.pos_iff_ne_zero]
  by_cases same : source = target
  · exact .inl ⟨same, if_pos same⟩
  · rw [if_neg same]
    by_cases hs : source = 0
    · have hf : target ≠ 0 := fun zero => same (hs.trans zero.symm)
      exact .inr (.inl ⟨hs, hf, if_pos ⟨hs, hf⟩⟩)
    · rw [if_neg fun both => hs both.1]
      by_cases hf : target = 0
      · exact .inr (.inr (.inl ⟨hs, hf, if_pos ⟨hs, hf⟩⟩))
      · exact .inr (.inr (.inr ⟨same, hs, hf, if_neg fun both => hf both.2⟩))

theorem applyCounter_counterDiff : applyCounter source (counterDiff source target) = .ok target := by
  rcases counterDiff_cases source target with ⟨same, ho⟩ | ⟨hs, _, ho⟩ | ⟨_, hf, ho⟩ | ⟨_, _, _, ho⟩
  all_goals rw [ho, applyCounter]
  · rw [same]
  · rw [if_pos hs]
  · rw [if_pos rfl, hf]
  · rw [if_pos rfl]

theorem applyCounter_invertCounter : applyCounter target (invertCounter (counterDiff source target)) = .ok source := by
  rcases counterDiff_cases source target with ⟨same, ho⟩ | ⟨hs, _, ho⟩ | ⟨_, hf, ho⟩ | ⟨_, _, _, ho⟩
  all_goals rw [ho, invertCounter, applyCounter]
  · rw [same]
  · rw [if_pos rfl, hs]
  · rw [if_pos hf]
  · rw [if_pos rfl]

def Composable (first second third : UInt64) : Prop :=
  first = second ∨ second = third ∨ (first ≠ 0 ∧ second ≠ 0 ∧ third ≠ 0)

theorem composeCounters_unchanged (operation : DiffOperation UInt64) :
    composeCounters operation .unchanged = .ok operation := by
  cases operation <;> rfl

variable {second first third : UInt64}

theorem composeCounters_ok (hc : Composable first second third) :
    ∃ op, composeCounters (counterDiff first second) (counterDiff second third) = .ok op ∧
      applyCounter first op = .ok third := by
  by_cases same : first = second
  · subst same
    have unchanged : counterDiff first first = .unchanged := if_pos rfl
    rw [unchanged]
    exact ⟨_, rfl, applyCounter_counterDiff first third⟩
  by_cases hl : second = third
  · subst hl
    have unchanged : counterDiff second second = .unchanged := if_pos rfl
    rw [unchanged]
    exact ⟨_, composeCounters_unchanged _, applyCounter_counterDiff first second⟩
  obtain ⟨hs, hm, hf⟩ := (hc.resolve_left same).resolve_left hl
  have left : counterDiff first second = .modified first second := by
    rw [counterDiff, if_neg same, if_neg fun both => hs both.1, if_neg fun both => hm both.2]
  have hr : counterDiff second third = .modified second third := by
    rw [counterDiff, if_neg hl, if_neg fun both => hm both.1, if_neg fun both => hf both.2]
  exact ⟨.modified first third, by rw [left, hr, composeCounters, if_pos rfl], if_pos rfl⟩

theorem composeCounters_refused (ha : ¬ Composable first second third) :
    composeCounters (counterDiff first second) (counterDiff second third) = .error .sequenceGap := by
  obtain ⟨same, rest⟩ := not_or.mp ha
  obtain ⟨hl, hn⟩ := not_or.mp rest
  rcases counterDiff_cases first second with ⟨he, _⟩ | ⟨_, hm, left⟩ | ⟨_, hm, left⟩ | ⟨_, hs, hm, left⟩
  · exact absurd he same
  · rcases counterDiff_cases second third with ⟨he, _⟩ | ⟨zero, _⟩ | ⟨_, _, hr⟩ | ⟨_, _, _, hr⟩
    · exact absurd he hl
    · exact absurd zero hm
    · rw [left, hr]
      rfl
    · rw [left, hr]
      rfl
  · rcases counterDiff_cases second third with ⟨he, _⟩ | ⟨_, _, hr⟩ | ⟨hs, _⟩ | ⟨_, hs, _⟩
    · exact absurd he hl
    · rw [left, hr]
      rfl
    · exact absurd hm hs
    · exact absurd hm hs
  · rcases counterDiff_cases second third with ⟨he, _⟩ | ⟨zero, _⟩ | ⟨_, _, hr⟩ | ⟨_, _, hf, _⟩
    · exact absurd he hl
    · exact absurd zero hm
    · rw [left, hr]
      rfl
    · exact absurd ⟨hs, hm, hf⟩ hn

end

section

variable [Ulid] {instanceId : InstanceId} {first second third : UInt64 × InstanceState}

theorem diff_of_lt (hi : first.1 < second.1) : diff instanceId first second =
    .hasDiff ⟨first.1, second.1, instanceId, ⟨counterDiff first.2.counter second.2.counter⟩⟩ := by
  rw [diff, if_neg (UInt64.ne_of_lt hi), if_neg (UInt64.not_lt.mpr (UInt64.le_of_lt hi))]

theorem applyDiff_eq_iff {base : UInt64 × InstanceState} {delta : SnapshotDiff} {state : InstanceState}
    (hs : delta.fromSequence = base.1)
    (hr : applyCounter base.2.counter delta.stateDiff.counter = .ok state.counter) :
    applyDiff base delta = .ok state ↔ state.binaryHash = none := by
  rw [applyDiff, if_neg (not_not.mpr hs), hr]
  cases state with
  | mk counter hash =>
    show Except.ok (InstanceState.mk counter none) = Except.ok (InstanceState.mk counter hash) ↔ hash = none
    rw [Except.ok.injEq, InstanceState.mk.injEq, and_iff_right rfl, eq_comm]

/-- The laws of differences between three states, and when each of them holds. -/
theorem snapshot_diff_laws_iff (increasing : first.1 < second.1) (further : second.1 < third.1) :
    ∃ left right, diff instanceId first second = .hasDiff left ∧ diff instanceId second third = .hasDiff right ∧
      (applyDiff first left = .ok second.2 ↔ second.2.binaryHash = none) ∧
      (applyDiff second (invertDiff left) = .ok first.2 ↔ first.2.binaryHash = none) ∧
      ((∃ whole, left.compose right = .ok whole ∧ applyDiff first whole = .ok third.2) ↔
        Composable first.2.counter second.2.counter third.2.counter ∧ third.2.binaryHash = none) := by
  refine ⟨_, _, diff_of_lt increasing, diff_of_lt further, ?_, ?_, ?_⟩
  · exact applyDiff_eq_iff rfl (applyCounter_counterDiff _ _)
  · exact applyDiff_eq_iff rfl (applyCounter_invertCounter _ _)
  · simp only [SnapshotDiff.compose, ne_eq, not_true_eq_false, ↓reduceIte]
    by_cases hc : Composable first.2.counter second.2.counter third.2.counter
    · obtain ⟨op, ho, acts⟩ := composeCounters_ok hc
      rw [ho, and_iff_right hc]
      constructor
      · rintro ⟨whole, same, ha⟩
        cases same
        exact (applyDiff_eq_iff rfl acts).mp ha
      · intro hp
        exact ⟨_, rfl, (applyDiff_eq_iff rfl acts).mpr hp⟩
    · rw [composeCounters_refused hc]
      constructor
      · rintro ⟨whole, hi, _⟩
        cases hi
      · intro both
        exact absurd both.1 hc

end

section Sample

attribute [local instance] Ulid.Crockford.codec

/-- A hash is lost, and the differences from 0 to 1 and from 1 to 2 do not compose. -/
theorem diff_laws_broken : (∃ left, diff (.ofUlid 1) (1, ⟨0, none⟩) (2, ⟨1, some "ab"⟩) = .hasDiff left ∧
      applyDiff (1, ⟨0, none⟩) left = .ok ⟨1, none⟩) ∧
    ∃ left right, diff (.ofUlid 1) (1, ⟨0, none⟩) (2, ⟨1, none⟩) = .hasDiff left ∧
      diff (.ofUlid 1) (2, ⟨1, none⟩) (3, ⟨2, none⟩) = .hasDiff right ∧
        (left.compose right).toOption.isNone = true := by
  refine ⟨⟨_, rfl, by decide +kernel⟩, _, _, rfl, rfl, by decide +kernel⟩

theorem snapshot_diff_laws_iff_sample : ∃ left right, diff (.ofUlid 1) (1, ⟨3, none⟩) (2, ⟨4, none⟩) = .hasDiff left ∧
    diff (.ofUlid 1) (2, ⟨4, none⟩) (3, ⟨5, none⟩) = .hasDiff right ∧
    applyDiff (1, ⟨3, none⟩) left = .ok ⟨4, none⟩ ∧ applyDiff (2, ⟨4, none⟩) (invertDiff left) = .ok ⟨3, none⟩ ∧
    ∃ whole, left.compose right = .ok whole ∧ applyDiff (1, ⟨3, none⟩) whole = .ok ⟨5, none⟩ := by
  obtain ⟨left, right, first, second, ha, hi, hc⟩ :=
    @snapshot_diff_laws_iff _ (.ofUlid 1) (1, ⟨3, none⟩) (2, ⟨4, none⟩) (3, ⟨5, none⟩) (by decide) (by decide)
  exact ⟨left, right, first, second, ha.mpr rfl, hi.mpr rfl, hc.mpr ⟨.inr (.inr (by decide)), rfl⟩⟩

end Sample

end Veloxide.SnapshotDiffs
