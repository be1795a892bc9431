import Veloxide.Storage.Dedupe

namespace Veloxide.Dedupe

open ByteCodec List Except

section

variable (bytes : Bytes)

def slice (start stop : Nat) : Option Bytes :=
  if start ≤ stop ∧ stop ≤ bytes.length then some ((bytes.drop start).take (stop - start)) else none

/-- `decodeDedupeEntry` with the bounds of every access checked; the outer `Option` is that of `slice`. -/
def decodeDedupeEntryChecked : ExceptT DedupeStoreError Option DedupeEntry := do
  if bytes.length < 12 then
    throw (.codec s!"entry too short: {bytes.length} bytes (minimum 12 for two empty fields + u64)")
  let dkLen := beNat (← slice bytes 0 2)
  if bytes.length < 2 + dkLen + 2 then
    throw (.codec "truncated: cannot read instance_id length after dedupe_key")
  let dkBytes ← slice bytes 2 (2 + dkLen)
  let dkStr ← ExceptT.mk (some (fieldText "dedupe_key" dkBytes))
  let offset := 2 + dkLen
  let iidLen := beNat (← slice bytes offset (offset + 2))
  if bytes.length < offset + 2 + iidLen + 8 then
    throw (.codec "truncated: cannot read expires_at after instance_id")
  let iidBytes ← slice bytes (offset + 2) (offset + 2 + iidLen)
  let iidStr ← ExceptT.mk (some (fieldText "instance_id" iidBytes))
  let tsOffset := offset + 2 + iidLen
  let expiresAt := UInt64.ofNat (beNat (← slice bytes tsOffset (tsOffset + 8)))
  ExceptT.mk (some (DedupeEntry.new dkStr iidStr expiresAt))

end

variable {bytes : Bytes} {start : Nat}

section

theorem slice_eq {length : Nat} (hi : start + length ≤ bytes.length) :
    slice bytes start (start + length) = some ((bytes.drop start).take length) := by
  rw [slice, if_pos ⟨Nat.le_add_right start length, hi⟩, Nat.add_sub_cancel_left]

section

variable {ε α β : Type} (next : α → ExceptT ε Option β) (value : α)

theorem inside_bind : ((liftM (some value) : ExceptT ε Option α) >>= next) = next value := rfl

theorem ok_bind : (ExceptT.mk (some (.ok value)) >>= next) = next value := rfl

end

theorem decodeDedupeEntryChecked_run (bytes : Bytes) :
    (decodeDedupeEntryChecked bytes).run = some (decodeDedupeEntry bytes) := by
  unfold decodeDedupeEntryChecked decodeDedupeEntry
  by_cases ht : bytes.length < 12
  · rw [if_pos ht, if_pos ht]
    rfl
  · have hf : slice bytes 0 2 = some (bytes.take 2) := by
      rw [slice, if_pos ⟨by omega, by omega⟩]
      rfl
    rw [if_neg ht, if_neg ht]
    simp only [hf, inside_bind]
    generalize beNat (bytes.take 2) = dkLen
    by_cases cut : bytes.length < 2 + dkLen + 2
    · rw [if_pos cut, if_pos cut]
      rfl
    · have key : slice bytes 2 (2 + dkLen) = some ((bytes.drop 2).take dkLen) := slice_eq (by omega)
      have hi : slice bytes (2 + dkLen) (2 + dkLen + 2) = some ((bytes.drop (2 + dkLen)).take 2) := slice_eq (by omega)
      simp only [if_neg cut, key, hi, inside_bind]
      cases fieldText "dedupe_key" ((bytes.drop 2).take dkLen) with
      | error reason => rfl
      | ok dkStr =>
        simp only [ok_bind]
        generalize beNat ((bytes.drop (2 + dkLen)).take 2) = iidLen
        by_cases hs : bytes.length < 2 + dkLen + 2 + iidLen + 8
        · simp only [if_pos hs]
          rfl
        · have id : slice bytes (2 + dkLen + 2) (2 + dkLen + 2 + iidLen) =
              some ((bytes.drop (2 + dkLen + 2)).take iidLen) := slice_eq (by omega)
          have he : slice bytes (2 + dkLen + 2 + iidLen) (2 + dkLen + 2 + iidLen + 8) =
              some ((bytes.drop (2 + dkLen + 2 + iidLen)).take 8) := slice_eq (by omega)
          simp only [if_neg hs, id, he, inside_bind]
          cases fieldText "instance_id" ((bytes.drop (2 + dkLen + 2)).take iidLen) with
          | error reason | ok iidStr => rfl

end

section

theorem length_field (hi : start + 2 ≤ bytes.length) : beNat ((bytes.drop start).take 2) < 65536 ∧
    beBytes 2 (beNat ((bytes.drop start).take 2)) = (bytes.drop start).take 2 := by
  have hw : ((bytes.drop start).take 2).length = 2 := by
    rw [length_take, length_drop]
    omega
  have hb := beNat_lt ((bytes.drop start).take 2)
  have hf := beBytes_beNat ((bytes.drop start).take 2)
  rw [hw] at hb hf
  exact ⟨hb, hf⟩

variable {entry : DedupeEntry}

theorem layout_of_decode (read : decodeDedupeEntry bytes = .ok entry) :
    entry.dedupeKey ≠ "" ∧ entry.instanceId ≠ "" ∧ (utf8 entry.dedupeKey).length ≤ 65535 ∧
      (utf8 entry.instanceId).length ≤ 65535 ∧
      layout (utf8 entry.dedupeKey) (utf8 entry.instanceId) entry.expiresAt <+: bytes := by
  obtain ⟨ht, read⟩ := guard_eq_ok.mp read
  have ha := @length_field bytes 0 (by omega)
  simp only [drop_zero] at read ha
  generalize beNat (bytes.take 2) = dkLen at read ha
  obtain ⟨cut, read⟩ := guard_eq_ok.mp read
  obtain ⟨dkStr, hy, read⟩ := bind_eq_ok.mp read
  have key := utf8_fromUtf8 (Option.okOr_eq_ok.mp hy)
  have ho := @length_field bytes (2 + dkLen) (by omega)
  generalize beNat ((bytes.drop (2 + dkLen)).take 2) = iidLen at read ho
  obtain ⟨hs, read⟩ := guard_eq_ok.mp read
  obtain ⟨iidStr, hn, read⟩ := bind_eq_ok.mp read
  have id := utf8_fromUtf8 (Option.okOr_eq_ok.mp hn)
  have he : ((bytes.drop (2 + dkLen + 2 + iidLen)).take 8).length = 8 := by
    rw [length_take, length_drop]
    omega
  have hk : (utf8 dkStr).length = dkLen := by
    rw [key, length_take, length_drop]
    omega
  have hd : (utf8 iidStr).length = iidLen := by
    rw [id, length_take, length_drop]
    omega
  have hx : (utf8 dkStr).length ≤ 65535 := by omega
  have hl : (utf8 iidStr).length ≤ 65535 := by omega
  rw [DedupeEntry.new] at read
  split_ifs at read with missing
  cases read
  obtain ⟨keyed, hi⟩ := not_or.mp missing
  refine ⟨keyed, hi, hx, hl, bytes.drop (2 + dkLen + 2 + iidLen + 8), ?_⟩
  rw [layout, hk, hd, ha.2, ho.2, key, id, beBytes_ofNat_beNat he]
  simp only [append_assoc, ← drop_drop, take_append_drop]

theorem encodeDedupeEntry_eq_ok : encodeDedupeEntry entry = .ok bytes ↔
    (utf8 entry.dedupeKey).length ≤ 65535 ∧ (utf8 entry.instanceId).length ≤ 65535 ∧
      bytes = layout (utf8 entry.dedupeKey) (utf8 entry.instanceId) entry.expiresAt := by
  simp only [encodeDedupeEntry]
  split_ifs with key id
  · exact iff_of_false (fun hi => by cases hi) (fun fits => absurd fits.1 (by omega))
  · exact iff_of_false (fun hi => by cases hi) (fun fits => absurd fits.2.1 (by omega))
  · rw [and_iff_right (by omega), and_iff_right (by omega), Except.ok.injEq, eq_comm]

/-- An entry comes back exactly if its fields are not empty and have a length of two bytes. -/
theorem dedupe_entry_codec : (∀ entry, (encodeDedupeEntry entry >>= decodeDedupeEntry) = .ok entry ↔
      entry.dedupeKey ≠ "" ∧ entry.instanceId ≠ "" ∧ (utf8 entry.dedupeKey).length ≤ 65535 ∧
        (utf8 entry.instanceId).length ≤ 65535) ∧
    ∀ bytes, (decodeDedupeEntryChecked bytes).run = some (decodeDedupeEntry bytes) ∧
      ∀ entry, decodeDedupeEntry bytes = .ok entry →
        ∃ encoded, encodeDedupeEntry entry = .ok encoded ∧ encoded <+: bytes := by
  constructor
  · intro entry
    constructor
    · intro hr
      obtain ⟨encoded, _, read⟩ := bind_eq_ok.mp hr
      obtain ⟨he, hi, hk, hd, _⟩ := layout_of_decode read
      exact ⟨he, hi, hk, hd⟩
    · rintro ⟨he, hi, hk, hd⟩
      exact bind_eq_ok.mpr ⟨_, encodeDedupeEntry_eq_ok.mpr ⟨hk, hd, rfl⟩, decodeDedupeEntry_layout he hi hk hd⟩
  · intro bytes
    refine ⟨decodeDedupeEntryChecked_run bytes, ?_⟩
    intro entry read
    obtain ⟨_, _, hk, hd, hs⟩ := layout_of_decode read
    exact ⟨_, encodeDedupeEntry_eq_ok.mpr ⟨hk, hd, rfl⟩, hs⟩

/-- A key of 65536 bytes has no encoding. -/
theorem long_dedupe_key_refused : ∃ entry, DedupeEntry.new (String.ofList (List.replicate 65536 'a')) "i" 0 = .ok entry ∧
    (encodeDedupeEntry entry >>= decodeDedupeEntry) ≠ .ok entry := by
  have size : (String.ofList (List.replicate 65536 'a')).utf8ByteSize = 65536 := by
    rw [Ulid.Crockford.utf8ByteSize_ofList, length_replicate]
    intro c mem
    rw [eq_of_mem_replicate mem]
    rfl
  have hn : String.ofList (List.replicate 65536 'a') ≠ "" := by
    intro he
    rw [he] at size
    exact absurd size (by decide)
  refine ⟨_, if_neg (not_or.mpr ⟨hn, by decide⟩), ?_⟩
  intro hr
  obtain ⟨encoded, hw, _⟩ := bind_eq_ok.mp hr
  have fits := (encodeDedupeEntry_eq_ok.mp hw).1
  simp only [length_utf8, size] at fits
  omega

end

end Veloxide.Dedupe
