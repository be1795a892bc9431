import Veloxide.Storage.KeyDecoding

namespace Veloxide.KeyEncoding

open ByteCodec List
open InstanceId (ofUlid)

section

def delimiterPositions (key : Bytes) : List Nat :=
  (List.range (key.length - 1)).filter fun i => key[i]? = some 58 && key[i + 1]? = some 58

variable [Ulid]

def isLegacyDelimiterLeaseKey (key : Bytes) : Bool := if key.length < 14 then false
  else if 18 ≤ key.length ∧ key.length = 18 + beNat ((key.drop 16).take 2) then false
  else
    match delimiterPositions key with
    | [delimPos] =>
      if delimPos < 11 then false
      else if key.length ≤ delimPos + 2 then false
      else
        match fromUtf8 (key.take delimPos), fromUtf8 (key.drop (delimPos + 2)) with
        | some iidStr, some sidStr => (InstanceId.parse iidStr).isOk && (Text.parse StepId.validate sidStr).isOk
        | _, _ => false
    | _ => false

def extractLegacyLeaseComponents (key : Bytes) : Option (String × String) := if !isLegacyDelimiterLeaseKey key then none
  else
    match delimiterPositions key with
    | [delimPos] => do
      let iidStr ← fromUtf8 (key.take delimPos)
      let sidStr ← fromUtf8 (key.drop (delimPos + 2))
      if !(InstanceId.parse iidStr).isOk || !(Text.parse StepId.validate sidStr).isOk then none
      else some (iidStr, sidStr)
    | _ => none

def legacyLeaseKey (instanceId : InstanceId) (stepId : StepId) : Bytes := utf8 (instanceId.text ++ "::" ++ stepId.value)

end

section

theorem getElem?_ne_of_not_mem {bytes : Bytes} {byte : UInt8} (free : byte ∉ bytes) (i : Nat) :
    bytes[i]? ≠ some byte := fun hf => free (mem_of_getElem? hf)

theorem delimiterPositions_between {left right : Bytes} (hl : 58 ∉ left) (hr : 58 ∉ right) :
    delimiterPositions (left ++ ([58, 58] ++ right)) = [left.length] := by
  have here : ∀ i, ((left ++ ([58, 58] ++ right))[i]? = some 58 && (left ++ ([58, 58] ++ right))[i + 1]? = some 58) =
      decide (i = left.length) := by
    intro i
    rcases Nat.lt_trichotomy i left.length with hb | same | after
    · rw [getElem?_append_left hb]
      simp [getElem?_ne_of_not_mem hl i, Nat.ne_of_lt hb]
    · subst same
      simp
    · obtain ⟨k, rfl⟩ := Nat.exists_eq_add_of_lt after
      have he : (left ++ ([58, 58] ++ right))[left.length + k + 1 + 1]? = right[k]? := by
        rw [getElem?_append_right (by omega), getElem?_append_right (by simp; omega)]
        congr 1
        simp
        omega
      rw [he]
      simp [getElem?_ne_of_not_mem hr k]
      omega
  have ho : left.length < (left ++ ([58, 58] ++ right)).length - 1 := by simp
  simp only [delimiterPositions, here]
  rw [filter_eq, count_eq_one_of_mem nodup_range (mem_range.mpr ho)]
  rfl

theorem colon_not_mem_utf8 {text : String} (free : ':' ∉ text.toList) : 58 ∉ utf8 text := by
  intro mem
  obtain ⟨c, hl, code⟩ := ascii_of_mem_utf8 mem (by decide)
  have hc : c = ':' := Char.toNat_inj.mp code
  exact free (hc ▸ hl)

end

section

variable [Ulid] (inst : InstanceId) (stepId : StepId)

theorem isLegacy_encodeLeaseKey (hs : (utf8 stepId.value).length ≤ 65535) :
    isLegacyDelimiterLeaseKey (encodeLeaseKey inst stepId) = false := by
  obtain ⟨hf, tail⟩ := drop_encodeLeaseKey inst stepId []
  rw [append_nil] at hf
  have length : (encodeLeaseKey inst stepId).length = 18 + (utf8 stepId.value).length := by
    rw [encodeLeaseKey_eq]
    simp
    omega
  rw [isLegacyDelimiterLeaseKey, hf, beNat_beBytes_of_lt (Nat.lt_succ_iff.mpr hs), length, if_neg (by omega),
    if_pos ⟨by omega, rfl⟩]

theorem legacyLeaseKey_eq : legacyLeaseKey inst stepId = utf8 inst.text ++ ([58, 58] ++ utf8 stepId.value) := by
  rw [legacyLeaseKey, utf8_append, utf8_append, append_assoc]
  rfl

theorem isOk_parse_text : (InstanceId.parse inst.text).isOk = !decide inst.IsNil := by
  by_cases nil : inst.IsNil
  · rw [decide_eq_true nil, show inst.text = Ulid.toText 0 by rw [nil]; rfl, InstanceId.parse_toText]
    rfl
  · rw [decide_eq_false nil, InstanceId.parse_text nil]
    rfl

theorem delimiterPositions_legacyLeaseKey [Ulid.Alphanumeric] :
    delimiterPositions (legacyLeaseKey inst stepId) = [26] := by
  have hs : ':' ∉ stepId.value.toList := fun mem =>
    absurd (StepId.isIdentifierChar_of_mem stepId ':' mem) (by decide)
  rw [legacyLeaseKey_eq, delimiterPositions_between (colon_not_mem_utf8 inst.colon_not_mem_text)
    (colon_not_mem_utf8 hs), inst.length_text]

theorem length_legacyLeaseKey : (legacyLeaseKey inst stepId).length = 28 + (utf8 stepId.value).length := by
  rw [legacyLeaseKey_eq, length_append, length_append, inst.length_text]
  simp
  omega

theorem legacyLeaseKey_parts : (legacyLeaseKey inst stepId).take 26 = utf8 inst.text ∧
    (legacyLeaseKey inst stepId).drop 28 = utf8 stepId.value ∧
    ((legacyLeaseKey inst stepId).drop 16).take 2 = ((utf8 inst.text).drop 16).take 2 := by
  have hl := inst.length_text
  rw [legacyLeaseKey_eq]
  refine ⟨take_left' hl, ?_, ?_⟩
  · rw [← append_assoc]
    exact drop_left' (by simp [hl])
  · rw [drop_append_of_le_length (by omega), take_append_of_le_length (by rw [length_drop]; omega)]

variable [Ulid.Alphanumeric]

theorem isLegacy_legacyLeaseKey : isLegacyDelimiterLeaseKey (legacyLeaseKey inst stepId) = true ↔
    ¬ inst.IsNil ∧ (utf8 stepId.value).length + 10 ≠ beNat (((utf8 inst.text).drop 16).take 2) := by
  obtain ⟨head, tail, hf⟩ := legacyLeaseKey_parts inst stepId
  have some := length_utf8_pos stepId.ne_empty
  have long : ¬ 28 + (utf8 stepId.value).length < 14 := by omega
  rw [isLegacyDelimiterLeaseKey, hf, length_legacyLeaseKey, if_neg long]
  by_cases ha : (utf8 stepId.value).length + 10 = beNat (((utf8 inst.text).drop 16).take 2)
  · rw [if_pos ⟨by omega, by omega⟩]
    simp [ha]
  · rw [if_neg (by omega), delimiterPositions_legacyLeaseKey]
    simp only [head, tail, fromUtf8_utf8, isOk_parse_text, Text.parse_value]
    rw [if_neg (by decide), if_neg (by omega)]
    simp [ha, Except.isOk, Except.toBool]

theorem extract_legacyLeaseKey (hr : isLegacyDelimiterLeaseKey (legacyLeaseKey inst stepId) = true) :
    extractLegacyLeaseComponents (legacyLeaseKey inst stepId) = some (inst.text, stepId.value) := by
  obtain ⟨head, tail, _⟩ := legacyLeaseKey_parts inst stepId
  have hp := ((isLegacy_legacyLeaseKey inst stepId).mp hr).1
  rw [extractLegacyLeaseComponents, hr, delimiterPositions_legacyLeaseKey]
  simp [head, tail, fromUtf8_utf8, InstanceId.parse_text hp, Text.parse_value, Except.isOk, Except.toBool]

end

theorem legacy_lease_keys_iff [Ulid] [Ulid.Alphanumeric] (instanceId : InstanceId) (stepId : StepId)
    (short : (utf8 stepId.value).length ≤ 65535) :
    (isLegacyDelimiterLeaseKey (encodeLeaseKey instanceId stepId) = false ∧
        isLegacyDelimiterLeaseKey (legacyLeaseKey instanceId stepId) = true ∧
        extractLegacyLeaseComponents (legacyLeaseKey instanceId stepId) = some (instanceId.text, stepId.value)) ↔
      ¬ instanceId.IsNil ∧ (utf8 stepId.value).length + 10 ≠ beNat (((utf8 instanceId.text).drop 16).take 2) := by
  constructor
  · rintro ⟨_, hr, _⟩
    exact (isLegacy_legacyLeaseKey instanceId stepId).mp hr
  · intro hd
    have hr := (isLegacy_legacyLeaseKey instanceId stepId).mpr hd
    exact ⟨isLegacy_encodeLeaseKey instanceId stepId short, hr, extract_legacyLeaseKey instanceId stepId hr⟩

section Sample

attribute [local instance] Ulid.Crockford.codec Ulid.Crockford.alphanumeric

/-- A key of the length that two zeros in its id announce; and the nil id, which `parse` refuses. -/
theorem legacy_keys_missed : (utf8 (letters 12325).value).length ≤ 65535 ∧
    isLegacyDelimiterLeaseKey (legacyLeaseKey (ofUlid 1) (letters 12325)) = false ∧
    isLegacyDelimiterLeaseKey (legacyLeaseKey (ofUlid 0) (letters 3)) = false := by
  refine ⟨by rw [length_letters]; decide, ?_, by decide +kernel⟩
  have ha : beNat (((utf8 (ofUlid 1).text).drop 16).take 2) = 12336 := by decide +kernel
  rw [Bool.eq_false_iff, Ne, isLegacy_legacyLeaseKey, length_letters, ha]
  exact fun hd => hd.2 rfl

theorem legacy_lease_keys_iff_letters : (utf8 (letters 3).value).length ≤ 65535 ∧
    isLegacyDelimiterLeaseKey (encodeLeaseKey (ofUlid 1) (letters 3)) = false ∧
    isLegacyDelimiterLeaseKey (legacyLeaseKey (ofUlid 1) (letters 3)) = true ∧
    extractLegacyLeaseComponents (legacyLeaseKey (ofUlid 1) (letters 3)) =
      some ((ofUlid 1).text, (letters 3).value) := by
  have hs : (utf8 (letters 3).value).length ≤ 65535 := by decide +kernel
  exact ⟨hs, (legacy_lease_keys_iff (ofUlid 1) (letters 3) hs).mpr
    ⟨by decide +kernel, by decide +kernel⟩⟩

end Sample

end Veloxide.KeyEncoding
