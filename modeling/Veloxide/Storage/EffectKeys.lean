import Veloxide.Storage.EffectAgreement
import Veloxide.Storage.KeyDecoding

namespace Veloxide.EffectJournal

open ByteCodec KeyEncoding InMemory List Except

section

def keyTooShort (bytes : Bytes) : EffectJournalError := .codec s!"effect key too short: {bytes.length} bytes"

def keyTruncated (expected : Nat) (bytes : Bytes) : EffectJournalError :=
  .codec s!"effect key truncated: expected {expected} bytes, got {bytes.length}"

variable [Ulid]

def decodeEffectKey (invalidUtf8 : Bytes → String) (bytes : Bytes) : Except EffectJournalError EffectId :=
  if bytes.length < 18 then
    match decodeLengthPrefixed bytes with
    | .ok (decoded, _) => do
      let text ← (fromUtf8 decoded).okOr (.codec (invalidUtf8 decoded))
      if nonempty : text ≠ "" then .ok ⟨text, nonempty⟩ else .error (keyTooShort bytes)
    | .error _ => .error (keyTooShort bytes)
  else
    let instanceId := InstanceId.fromBytes (bytes.take 16)
    let intentLen := beNat ((bytes.drop 16).take 2)
    if bytes.length < 18 + intentLen then .error (keyTruncated (18 + intentLen) bytes)
    else do
      let intentBytes := (bytes.drop 18).take intentLen
      let intentId ← (fromUtf8 intentBytes).okOr (.codec ("invalid intent_id UTF-8: " ++ invalidUtf8 intentBytes))
      (EffectId.new instanceId intentId).mapError fun _ => .codec "empty intent_id in decoded key"

end

theorem EffectId.ext {left right : EffectId} (same : left.text = right.text) : left = right := by
  cases left
  cases right
  cases same
  rfl

theorem append_of_splitOnce {pattern chars front back : List Char}
    (hs : splitOnce pattern chars = some (front, back)) : chars = front ++ (pattern ++ back) := by
  induction chars generalizing front with
  | nil => cases hs
  | cons c rest ih =>
    rw [splitOnce] at hs
    split_ifs at hs with starts
    · cases hs
      obtain ⟨tail, same⟩ := isPrefixOf_iff_prefix.mp starts
      rw [← same, drop_left, nil_append]
    · obtain ⟨parts, hf, same⟩ := Option.map_eq_some_iff.mp hs
      cases same
      rw [cons_append, ← ih hf]

section

variable [Ulid] {invalidUtf8 : Bytes → String} {bytes : Bytes} {id : EffectId}

theorem decodeEffectKey_short (hs : bytes.length < 18) : decodeEffectKey invalidUtf8 bytes = .ok id ↔
    ∃ rest, decodeLengthPrefixed bytes = .ok (utf8 id.text, rest) := by
  rw [decodeEffectKey, if_pos hs]
  cases hf : decodeLengthPrefixed bytes with
  | error err => simp
  | ok parts =>
    obtain ⟨dec, rest⟩ := parts
    simp only [Except.ok.injEq, Prod.mk.injEq, exists_and_left, exists_eq', and_true]
    constructor
    · intro read
      obtain ⟨text, hv, read⟩ := bind_eq_ok.mp read
      split_ifs at read with nonempty
      cases read
      exact (utf8_fromUtf8 (Option.okOr_eq_ok.mp hv)).symm
    · intro same
      refine bind_eq_ok.mpr ⟨id.text, ?_, dif_pos id.nonempty⟩
      rw [same, fromUtf8_utf8, Option.okOr_some]

theorem decodeEffectKey_long (long : 18 ≤ bytes.length) : decodeEffectKey invalidUtf8 bytes = .ok id ↔
    ∃ inst intent rest, intent ≠ "" ∧ id.text = effectText inst intent ∧ (utf8 intent).length < 65536 ∧
      bytes = inst.bytes ++ (beBytes 2 (utf8 intent).length ++ (utf8 intent ++ rest)) := by
  rw [decodeEffectKey, if_neg (Nat.not_lt.mpr long)]
  constructor
  · intro read
    simp only at read
    split_ifs at read with cut
    obtain ⟨intent, hv, read⟩ := bind_eq_ok.mp read
    obtain ⟨hn, text⟩ := EffectId.new_eq_ok (mapError_eq_ok.mp read)
    have hi := utf8_fromUtf8 (Option.okOr_eq_ok.mp hv)
    have hw : ((bytes.drop 16).take 2).length = 2 := by
      rw [length_take, length_drop]
      omega
    have hb := beNat_lt ((bytes.drop 16).take 2)
    rw [hw] at hb
    have length : (utf8 intent).length = beNat ((bytes.drop 16).take 2) := by
      rw [hi, length_take, length_drop]
      omega
    have hs : utf8 intent ++ (bytes.drop 18).drop (utf8 intent).length = bytes.drop 18 := by
      rw [length, hi, take_append_drop]
    refine ⟨_, intent, (bytes.drop 18).drop (utf8 intent).length, hn, text, by omega, ?_⟩
    rw [hs, length]
    exact leaseKey_layout long
  · rintro ⟨inst, intent, rest, hn, text, hb, rfl⟩
    have hf : ((inst.bytes ++ (beBytes 2 (utf8 intent).length ++ (utf8 intent ++ rest))).drop 16).take 2 =
        beBytes 2 (utf8 intent).length := by
      rw [drop_left' inst.length_bytes, take_left' (length_beBytes _ _)]
    have tail : (inst.bytes ++ (beBytes 2 (utf8 intent).length ++ (utf8 intent ++ rest))).drop 18 =
        utf8 intent ++ rest := by
      rw [← append_assoc, drop_left' (by simp)]
    have he : ¬ (inst.bytes ++ (beBytes 2 (utf8 intent).length ++ (utf8 intent ++ rest))).length <
        18 + (utf8 intent).length := by
      simp only [length_append, InstanceId.length_bytes, length_beBytes]
      omega
    have hu : beNat (beBytes 2 (utf8 intent).length) = (utf8 intent).length :=
      beNat_beBytes_of_lt (Nat.lt_of_lt_of_le hb (by decide))
    simp only [hf, hu, if_neg he, tail, take_left, fromUtf8_utf8, Option.okOr_some,
      take_left' inst.length_bytes, InstanceId.fromBytes_bytes]
    refine mapError_eq_ok.mpr ?_
    rw [EffectId.new, if_neg hn]
    exact congrArg Except.ok (EffectId.ext text.symm)

end

section

variable [Ulid] {id : EffectId}

theorem standardKey_eq_some {key : Bytes} (hs : standardKey id = some key) :
    ∃ spelling inst intent, id.text = spelling ++ "::" ++ intent ∧ InstanceId.parse spelling = .ok inst ∧
      key = inst.bytes ++ (beBytes 2 (utf8 intent).length ++ utf8 intent) := by
  obtain ⟨⟨front, back⟩, ha, hs⟩ := Option.bind_eq_some_iff.mp hs
  obtain ⟨inst, hp, he⟩ := Option.bind_eq_some_iff.mp hs
  refine ⟨String.ofList front, inst, String.ofList back, ?_, ?_, ?_⟩
  · rw [← String.toList_inj, append_of_splitOnce ha]
    simp
  · cases read : InstanceId.parse (String.ofList front) with
    | error err =>
      rw [read] at hp
      cases hp
    | ok other =>
      rw [read] at hp
      cases hp
      rfl
  · rw [instanceKey, inst.toBytes_eq] at he
    cases he
    rfl

theorem standardKey_of_short (hh : (utf8 id.text).length < 28) : standardKey id = none := by
  cases hs : standardKey id with
  | none => rfl
  | some key =>
    obtain ⟨spelling, inst, intent, text, hp, _⟩ := standardKey_eq_some hs
    have size := (InstanceId.ulid_of_parse hp).1
    rw [← length_utf8] at size
    have hc : (utf8 "::").length = 2 := by decide
    rw [text, utf8_append, utf8_append, length_append, length_append, size, hc] at hh
    omega

end

section

variable [Ulid]

/-- The id is shorter than 16 bytes, or made of an id other than nil and an intent of 65535 bytes. -/
def EffectId.HasExactKey (effectId : EffectId) : Prop := (utf8 effectId.text).length < 16 ∨
    ∃ instanceId intentId, ¬ instanceId.IsNil ∧ intentId ≠ "" ∧ (utf8 intentId).length ≤ 65535 ∧
      effectId.text = effectText instanceId intentId

variable [Ulid.Alphanumeric] {invalidUtf8 : Bytes → String} {id : EffectId}

omit [Ulid.Alphanumeric] in
theorem decode_encode_short (hs : (utf8 id.text).length < 16) :
    (encodeEffectKey id).map (decodeEffectKey invalidUtf8) = some (.ok id) := by
  have hf : encodeEffectKey id = some (beBytes 2 (utf8 id.text).length ++ utf8 id.text) := by
    rw [encodeEffectKey, standardKey_of_short (by omega), encodeLengthPrefixed, if_neg (by omega)]
    rfl
  rw [hf, Option.map_some]
  refine congrArg some ((decodeEffectKey_short ?_).mpr ⟨[], ?_⟩)
  · rw [length_append, length_beBytes]
    omega
  · rw [decodeLengthPrefixed_eq_ok, append_nil]
    exact ⟨by omega, rfl⟩

theorem decode_encode_standard (effect : Effect) (hn : effect.intentId ≠ "")
    (hb : (utf8 effect.intentId).length ≤ 65535) (text : id.text = effect.text) :
    (encodeEffectKey id).map (decodeEffectKey invalidUtf8) = some (.ok id) := by
  rw [Effect.encodeEffectKey_eq text, Option.map_some]
  refine congrArg some ((decodeEffectKey_long ?_).mpr ?_)
  · rw [Effect.key, length_append, length_append, InstanceId.length_bytes, length_beBytes]
    omega
  · exact ⟨effect.instanceId, effect.intentId, [], hn, text, by omega, by rw [append_nil, Effect.key]⟩

omit [Ulid.Alphanumeric] in
theorem not_isNil_of_length {inst : InstanceId} {length : Nat} {text rest : Bytes} (hp : 0 < length)
    (hb : length < 65536) (same : beBytes 2 length ++ text = inst.bytes ++ rest) : ¬ inst.IsNil := by
  intro nil
  have hz : inst.bytes = beBytes 2 0 ++ beBytes 14 0 := by
    rw [nil, InstanceId.bytes_ofUlid]
    rfl
  rw [hz, append_assoc] at same
  have hf := (append_inj same (by simp)).1
  have he := beBytes_injective (Nat.lt_of_lt_of_le hb (by decide)) (by decide) hf
  omega

theorem hasExactKey_of_decode {key : Bytes} (he : encodeEffectKey id = some key)
    (hd : decodeEffectKey invalidUtf8 key = .ok id) : id.HasExactKey := by
  cases hs : standardKey id with
  | some other =>
    rw [encodeEffectKey, hs] at he
    cases he
    obtain ⟨spelling, owner, _, _, hp, hw⟩ := standardKey_eq_some hs
    have long : 18 ≤ key.length := by
      rw [hw, length_append, length_append, InstanceId.length_bytes, length_beBytes]
      omega
    obtain ⟨inst, intentId, rest, hn, text, hb, hl⟩ := (decodeEffectKey_long long).mp hd
    have ids : owner.bytes = inst.bytes := (append_inj (hw.symm.trans hl) (by simp)).1
    rw [← InstanceId.bytes_injective ids] at text
    exact .inr ⟨owner, intentId, InstanceId.not_isNil_of_parse hp, hn, by omega, text⟩
  | none =>
    rw [encodeEffectKey, hs, encodeLengthPrefixed] at he
    split_ifs at he with large
    · cases he
    · cases he
      by_cases hh : (utf8 id.text).length < 16
      · exact .inl hh
      · have long : 18 ≤ (beBytes 2 (utf8 id.text).length ++ utf8 id.text).length := by
          rw [length_append, length_beBytes]
          omega
        obtain ⟨inst, intentId, rest, hn, text, hb, hl⟩ := (decodeEffectKey_long long).mp hd
        have hr := not_isNil_of_length (by omega) (by omega) hl
        have hf := @Effect.standardKey_eq _ _ ⟨inst, intentId, hr⟩ id text
        rw [hs] at hf
        cases hf

theorem effect_key_roundtrip_iff (invalidUtf8 : Bytes → String) :
    (∀ effectId, (encodeEffectKey effectId).map (decodeEffectKey invalidUtf8) = some (.ok effectId) ↔
        effectId.HasExactKey) ∧ ∀ left right : EffectId, left.HasExactKey → right.HasExactKey →
        encodeEffectKey left = encodeEffectKey right → left = right := by
  have he : ∀ effectId, (encodeEffectKey effectId).map (decodeEffectKey invalidUtf8) = some (.ok effectId) ↔
      effectId.HasExactKey := by
    intro effectId
    constructor
    · intro ha
      obtain ⟨key, hc, hd⟩ := Option.map_eq_some_iff.mp ha
      exact hasExactKey_of_decode hc hd
    · rintro (hs | ⟨inst, intent, hp, hn, hb, text⟩)
      · exact decode_encode_short hs
      · exact decode_encode_standard ⟨inst, intent, hp⟩ hn hb text
  refine ⟨he, ?_⟩
  intro left right hl hr same
  have ha := (he left).mpr hl
  rw [same, (he right).mpr hr] at ha
  cases ha
  rfl

end

section Sample

attribute [local instance] Ulid.Crockford.codec Ulid.Crockford.alphanumeric

theorem effect_key_roundtrip_iff_sample :
    (∀ effectId, (encodeEffectKey effectId).map (decodeEffectKey fun _ => "") = some (.ok effectId) ↔
        effectId.HasExactKey) ∧ ∀ left right : EffectId, left.HasExactKey → right.HasExactKey →
        encodeEffectKey left = encodeEffectKey right → left = right :=
  effect_key_roundtrip_iff fun _ => ""

/-- An id of 17 letters whose key does not decode, and two ids with one key. -/
theorem inexact_effect_keys : (encodeEffectKey ⟨"charge-card-12345", by decide⟩).map (decodeEffectKey fun _ => "") ≠
      some (.ok ⟨"charge-card-12345", by decide⟩) ∧
    ∃ left right : EffectId, encodeEffectKey left = encodeEffectKey right ∧ left ≠ right := by
  refine ⟨by decide +kernel, ⟨"aaaaaaaaaaaaaa\x00\x01x", by decide⟩,
    ⟨effectText (InstanceId.fromBytes (0 :: 17 :: List.replicate 14 97)) "x", by decide +kernel⟩,
    by decide +kernel, by decide +kernel⟩

end Sample

end Veloxide.EffectJournal
