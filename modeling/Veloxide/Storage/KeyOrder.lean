import Veloxide.Library.ByteOrder
import Veloxide.Storage.KeyEncoding

namespace Veloxide.KeyEncoding

open ByteCodec List

variable [Ulid] {right left : InstanceId} {earlier later : UInt64}

theorem encodeEventKey_le_iff : encodeEventKey left earlier ≤ encodeEventKey right later ↔
    toLex (left.bytes, earlier) ≤ toLex (right.bytes, later) := by
  rw [encodeEventKey_eq, encodeEventKey_eq, append_le_append_left_iff, append_le_append_iff (by simp), beBytes_le_iff,
    Prod.Lex.toLex_le_toLex]

theorem encodeTimerKey_le_iff : encodeTimerKey earlier left ≤ encodeTimerKey later right ↔
    toLex (earlier, left.bytes) ≤ toLex (later, right.bytes) := by
  rw [encodeTimerKey_eq, encodeTimerKey_eq, append_le_append_iff (by simp), append_le_append_left_iff, beBytes_lt_iff,
    beBytes_inj, Prod.Lex.toLex_le_toLex]

theorem encodeEventKey_injective (same : encodeEventKey left earlier = encodeEventKey right later) :
    left = right ∧ earlier = later := by
  rw [encodeEventKey_eq, encodeEventKey_eq] at same
  obtain ⟨ids, hs⟩ := append_inj (append_cancel_left same) (by simp)
  exact ⟨InstanceId.bytes_injective ids, beBytes_inj.mp hs⟩

theorem encodeTimerKey_injective (same : encodeTimerKey earlier left = encodeTimerKey later right) :
    earlier = later ∧ left = right := by
  rw [encodeTimerKey_eq, encodeTimerKey_eq] at same
  obtain ⟨ht, ids⟩ := append_inj same (by simp)
  exact ⟨beBytes_inj.mp ht, InstanceId.bytes_injective (append_cancel_left ids)⟩

theorem getEventKeyPrefix_isPrefix_iff {seq : UInt64} :
    getEventKeyPrefix left <+: encodeEventKey right seq ↔ right = left := by
  rw [getEventKeyPrefix_eq, encodeEventKey_eq, prefix_append_right_inj]
  constructor
  · exact fun hs => (InstanceId.eq_of_isPrefix hs).symm
  · intro same
    rw [same]
    exact prefix_append _ _

theorem getTimerKeyPrefixForTime_isPrefix_iff {inst : InstanceId} :
    getTimerKeyPrefixForTime earlier <+: encodeTimerKey later inst ↔ later = earlier := by
  rw [getTimerKeyPrefixForTime, encodeTimerKey_eq]
  constructor
  · rintro ⟨rest, same⟩
    exact (beBytes_inj.mp (append_inj same (by simp)).1).symm
  · intro same
    rw [same]
    exact prefix_append _ _

/-- Partitions scan event keys by instance and sequence, and timer keys by time and instance. -/
theorem event_and_timer_key_order (left right : InstanceId) (earlier later : UInt64) :
    (encodeEventKey left earlier ≤ encodeEventKey right later ↔
        toLex (left.bytes, earlier) ≤ toLex (right.bytes, later)) ∧
      (encodeEventKey left earlier = encodeEventKey right later → left = right ∧ earlier = later) ∧
      (getEventKeyPrefix left <+: encodeEventKey right later ↔ right = left) ∧
      (encodeTimerKey earlier left ≤ encodeTimerKey later right ↔
        toLex (earlier, left.bytes) ≤ toLex (later, right.bytes)) ∧
      (encodeTimerKey earlier left = encodeTimerKey later right → earlier = later ∧ left = right) ∧
      (getTimerKeyPrefixForTime earlier <+: encodeTimerKey later right ↔ later = earlier) :=
  ⟨encodeEventKey_le_iff, encodeEventKey_injective, getEventKeyPrefix_isPrefix_iff, encodeTimerKey_le_iff,
    encodeTimerKey_injective, getTimerKeyPrefixForTime_isPrefix_iff⟩

end Veloxide.KeyEncoding
