import Veloxide.Storage.KeyEncoding

namespace Veloxide.KeyEncoding

open ByteCodec List Except
open InstanceId (ofUlid)

section

def decodeU16Be (bytes : Bytes) : Except KeyEncodingError Nat :=
  if bytes.length ≠ 2 then .error (.invalidLength 2 bytes.length) else .ok (beNat bytes)

def decodeLengthPrefixed (bytes : Bytes) : Except KeyEncodingError (Bytes × Bytes) :=
  if bytes.length < 2 then .error (.invalidLength 2 bytes.length)
  else do
    let len ← decodeU16Be (bytes.take 2)
    if bytes.length < 2 + len then .error (.invalidLength (2 + len) bytes.length)
    else .ok ((bytes.drop 2).take len, bytes.drop (2 + len))

def decodeStepId (invalidUtf8 : Bytes → String) (bytes : Bytes) : Except KeyEncodingError StepId := do
  let (idBytes, _) ← decodeLengthPrefixed bytes
  let text ← (fromUtf8 idBytes).okOr (.stepId (.invalidFormat "StepId" (invalidUtf8 idBytes)))
  (Text.parse StepId.validate text).mapError .instanceId

variable [Ulid]

def decodeEventKey (bytes : Bytes) : Except KeyEncodingError (InstanceId × SequenceNumber) :=
  if bytes.length ≠ 26 then .error (.invalidLength 26 bytes.length)
  else do
    let _len ← decodeU16Be (bytes.take 2)
    let instanceId := InstanceId.fromBytes ((bytes.drop 2).take 16)
    let seqBytes := (bytes.drop 18).take 8
    let sequence ← (SequenceNumber.tryFrom (UInt64.ofNat (beNat seqBytes))).mapError .instanceId
    return (instanceId, sequence)

def decodeTimerKey (bytes : Bytes) : Except KeyEncodingError (UInt64 × InstanceId) :=
  if bytes.length < 10 then .error (.invalidLength 10 bytes.length)
  else do
    let iidLen ← decodeU16Be ((bytes.drop 8).take 2)
    if bytes.length < 10 + iidLen then .error (.invalidLength (10 + iidLen) bytes.length)
    else if iidLen ≠ 16 then .error (.invalidLength 16 iidLen)
    else .ok (UInt64.ofNat (beNat (bytes.take 8)), InstanceId.fromBytes ((bytes.drop 10).take iidLen))

def decodeLeaseKey (invalidUtf8 : Bytes → String) (bytes : Bytes) : Except KeyEncodingError (InstanceId × StepId) :=
  if bytes.length < 18 then .error (.invalidLength 18 bytes.length)
  else do
    let instanceId := InstanceId.fromBytes (bytes.take 16)
    let stepId ← decodeStepId invalidUtf8 (bytes.drop 16)
    return (instanceId, stepId)

end

section

variable [Ulid] {bytes : Bytes}

theorem eventKey_layout (hl : bytes.length = 26) :
    bytes = bytes.take 2 ++ ((InstanceId.fromBytes ((bytes.drop 2).take 16)).bytes ++
      beBytes 8 (UInt64.ofNat (beNat ((bytes.drop 18).take 8))).toNat) := by
  have tail : (bytes.drop 18).take 8 = (bytes.drop 2).drop 16 := by
    rw [drop_drop, take_of_length_le (by simp [hl])]
  rw [InstanceId.bytes_fromBytes (by simp [hl]), beBytes_ofNat_beNat (by simp [hl]), tail,
    take_append_drop, take_append_drop]

theorem timerKey_layout (long : 26 ≤ bytes.length) (hf : (bytes.drop 8).take 2 = beBytes 2 16) :
    bytes = encodeTimerKey (UInt64.ofNat (beNat (bytes.take 8))) (InstanceId.fromBytes ((bytes.drop 10).take 16)) ++
      bytes.drop 26 := by
  have word : (bytes.take 8).length = 8 := by
    rw [length_take]
    omega
  have id : ((bytes.drop 10).take 16).length = 16 := by
    rw [length_take, length_drop]
    omega
  have hl : bytes.drop 10 = (bytes.drop 8).drop 2 := by rw [drop_drop]
  have last : bytes.drop 26 = ((bytes.drop 8).drop 2).drop 16 := by rw [drop_drop, drop_drop]
  rw [encodeTimerKey_eq, beBytes_ofNat_beNat word, InstanceId.bytes_fromBytes id, ← hf, append_assoc,
    append_assoc, hl, last, take_append_drop, take_append_drop, take_append_drop]

theorem leaseKey_layout (long : 18 ≤ bytes.length) : bytes = (InstanceId.fromBytes (bytes.take 16)).bytes ++
    (beBytes 2 (beNat ((bytes.drop 16).take 2)) ++ bytes.drop 18) := by
  have id : (bytes.take 16).length = 16 := by
    rw [length_take]
    omega
  have hw : ((bytes.drop 16).take 2).length = 2 := by
    rw [length_take, length_drop]
    omega
  have hf := beBytes_beNat ((bytes.drop 16).take 2)
  have hl : bytes.drop 18 = (bytes.drop 16).drop 2 := by rw [drop_drop]
  rw [hw] at hf
  rw [InstanceId.bytes_fromBytes id, hf, hl, take_append_drop, take_append_drop]

end

section

variable {bytes : Bytes}

theorem decodeU16Be_eq_ok {len : Nat} : decodeU16Be bytes = .ok len ↔ len < 65536 ∧ bytes = beBytes 2 len := by
  rw [decodeU16Be]
  constructor
  · intro read
    split_ifs at read with length
    cases read
    have hw : bytes.length = 2 := not_not.mp length
    have hb := beNat_lt bytes
    rw [hw] at hb
    exact ⟨hb, by rw [← hw, beBytes_beNat]⟩
  · rintro ⟨hb, rfl⟩
    rw [if_neg (by simp), beNat_beBytes_of_lt hb]

theorem decodeLengthPrefixed_eq_ok {data rest : Bytes} : decodeLengthPrefixed bytes = .ok (data, rest) ↔
    data.length < 65536 ∧ bytes = beBytes 2 data.length ++ (data ++ rest) := by
  rw [decodeLengthPrefixed]
  constructor
  · intro read
    split_ifs at read with short
    obtain ⟨len, hf, read⟩ := bind_eq_ok.mp read
    obtain ⟨hb, hf⟩ := decodeU16Be_eq_ok.mp hf
    split_ifs at read with cut
    cases read
    have length : ((bytes.drop 2).take len).length = len := by
      rw [length_take, length_drop]
      omega
    rw [length, ← hf, ← drop_drop, take_append_drop, take_append_drop]
    exact ⟨hb, rfl⟩
  · rintro ⟨hb, rfl⟩
    have hf : (beBytes 2 data.length ++ (data ++ rest)).take 2 = beBytes 2 data.length := take_left' (by simp)
    have ha : (beBytes 2 data.length ++ (data ++ rest)).drop 2 = data ++ rest := drop_left' (by simp)
    have he : ¬ (beBytes 2 data.length ++ (data ++ rest)).length < 2 := by
      rw [length_append, length_beBytes]
      omega
    rw [if_neg he, hf]
    refine bind_eq_ok.mpr ⟨data.length, decodeU16Be_eq_ok.mpr ⟨hb, rfl⟩, ?_⟩
    rw [if_neg (by simp), ← drop_drop, ha, take_left, drop_left]

variable {invalidUtf8 : Bytes → String} {stepId : StepId}

theorem decodeStepId_eq_ok : decodeStepId invalidUtf8 bytes = .ok stepId ↔
    ∃ rest, decodeLengthPrefixed bytes = .ok (utf8 stepId.value, rest) := by
  rw [decodeStepId]
  constructor
  · intro read
    obtain ⟨⟨idBytes, rest⟩, hf, read⟩ := bind_eq_ok.mp read
    obtain ⟨text, hd, read⟩ := bind_eq_ok.mp read
    have same := Text.parse_eq_ok.mp (mapError_eq_ok.mp read)
    subst same
    refine ⟨rest, ?_⟩
    rw [utf8_fromUtf8 (Option.okOr_eq_ok.mp hd)]
    exact hf
  · rintro ⟨rest, hf⟩
    refine bind_eq_ok.mpr ⟨_, hf, bind_eq_ok.mpr ⟨stepId.value, ?_, ?_⟩⟩
    · exact Option.okOr_eq_ok.mpr (fromUtf8_utf8 _)
    · exact mapError_eq_ok.mpr (Text.parse_value stepId)

variable [Ulid] {inst : InstanceId}

theorem decodeEventKey_eq_ok {seq : SequenceNumber} : decodeEventKey bytes = .ok (inst, seq) ↔
    ∃ field : Bytes, field.length = 2 ∧ bytes = field ++ (inst.bytes ++ beBytes 8 seq.value.toNat) := by
  rw [decodeEventKey]
  constructor
  · intro read
    split_ifs at read with hl
    have hl : bytes.length = 26 := not_not.mp hl
    obtain ⟨_, _, read⟩ := bind_eq_ok.mp read
    obtain ⟨number, ht, read⟩ := bind_eq_ok.mp read
    cases read
    have ht := SequenceNumber.tryFrom_eq_ok.mp (mapError_eq_ok.mp ht)
    exact ⟨bytes.take 2, by simp [hl], ht ▸ eventKey_layout hl⟩
  · rintro ⟨field, hw, rfl⟩
    have head : (field ++ (inst.bytes ++ beBytes 8 seq.value.toNat)).take 2 = field := take_left' hw
    have hm : (field ++ (inst.bytes ++ beBytes 8 seq.value.toNat)).drop 2 =
        inst.bytes ++ beBytes 8 seq.value.toNat := drop_left' hw
    have tail : (field ++ (inst.bytes ++ beBytes 8 seq.value.toNat)).drop 18 = beBytes 8 seq.value.toNat := by
      rw [← append_assoc]
      exact drop_left' (by simp [hw])
    rw [if_neg (by simp [hw]), head, hm, tail, take_left' (inst.length_bytes),
      take_of_length_le (by simp), InstanceId.fromBytes_bytes]
    refine bind_eq_ok.mpr ⟨beNat field, by rw [decodeU16Be, if_neg (not_not.mpr hw)], ?_⟩
    refine bind_eq_ok.mpr ⟨seq, ?_, rfl⟩
    exact mapError_eq_ok.mpr (SequenceNumber.tryFrom_eq_ok.mpr (ofNat_beNat_beBytes _))

theorem decodeTimerKey_eq_ok {fire : UInt64} : decodeTimerKey bytes = .ok (fire, inst) ↔
    ∃ rest, bytes = encodeTimerKey fire inst ++ rest := by
  rw [decodeTimerKey]
  constructor
  · intro read
    split_ifs at read with short
    obtain ⟨iidLen, hf, read⟩ := bind_eq_ok.mp read
    obtain ⟨_, hf⟩ := decodeU16Be_eq_ok.mp hf
    split_ifs at read with cut hw
    cases read
    have hw : iidLen = 16 := not_not.mp hw
    subst hw
    exact ⟨bytes.drop 26, timerKey_layout (by omega) hf⟩
  · rintro ⟨rest, rfl⟩
    rw [encodeTimerKey_eq, append_assoc, append_assoc]
    generalize hh : beBytes 8 fire.toNat ++ (beBytes 2 16 ++ (inst.bytes ++ rest)) = key
    have head : key.take 8 = beBytes 8 fire.toNat := by
      rw [← hh]
      exact take_left' (by simp)
    have hm : key.drop 8 = beBytes 2 16 ++ (inst.bytes ++ rest) := by
      rw [← hh]
      exact drop_left' (by simp)
    have tail : key.drop 10 = inst.bytes ++ rest := by
      rw [← drop_drop (i := 2) (j := 8), hm]
      exact drop_left' (by simp)
    have length : key.length = 26 + rest.length := by
      rw [← hh]
      simp
      omega
    rw [if_neg (by omega), hm, take_left' (by simp)]
    refine bind_eq_ok.mpr ⟨16, decodeU16Be_eq_ok.mpr ⟨by decide, rfl⟩, ?_⟩
    rw [if_neg (by omega), if_neg (by decide), head, tail, ofNat_beNat_beBytes,
      take_left' inst.length_bytes, InstanceId.fromBytes_bytes]

theorem decodeLeaseKey_eq_ok : decodeLeaseKey invalidUtf8 bytes = .ok (inst, stepId) ↔
    (utf8 stepId.value).length < 65536 ∧ ∃ rest, bytes = encodeLeaseKey inst stepId ++ rest := by
  rw [decodeLeaseKey, encodeLeaseKey_eq]
  constructor
  · intro read
    split_ifs at read with short
    obtain ⟨step, hd, read⟩ := bind_eq_ok.mp read
    cases read
    obtain ⟨rest, hf⟩ := decodeStepId_eq_ok.mp hd
    obtain ⟨hb, tail⟩ := decodeLengthPrefixed_eq_ok.mp hf
    have id : (bytes.take 16).length = 16 := by
      rw [length_take]
      omega
    refine ⟨hb, rest, ?_⟩
    rw [InstanceId.bytes_fromBytes id, append_assoc, append_assoc, ← tail, take_append_drop]
  · rintro ⟨hb, rest, rfl⟩
    rw [append_assoc, append_assoc]
    generalize hw : inst.bytes ++ (beBytes 2 (utf8 stepId.value).length ++ (utf8 stepId.value ++ rest)) = key
    have head : key.take 16 = inst.bytes := by
      rw [← hw]
      exact take_left' inst.length_bytes
    have tail : key.drop 16 = beBytes 2 (utf8 stepId.value).length ++ (utf8 stepId.value ++ rest) := by
      rw [← hw]
      exact drop_left' inst.length_bytes
    have he : ¬ key.length < 18 := by
      rw [← hw, length_append, length_append, length_beBytes, inst.length_bytes]
      omega
    rw [if_neg he, head, tail, InstanceId.fromBytes_bytes]
    refine bind_eq_ok.mpr ⟨stepId, decodeStepId_eq_ok.mpr ⟨rest, ?_⟩, rfl⟩
    exact decodeLengthPrefixed_eq_ok.mpr ⟨hb, rfl⟩

end

section

variable [Ulid] {bytes : Bytes}

theorem decodeEventKey_exact_iff : (∀ inst seq, decodeEventKey bytes = .ok (inst, seq) ↔
      bytes = encodeEventKey inst seq.value) ↔
    (bytes.length = 26 → beNat ((bytes.drop 18).take 8) ≠ 0 → bytes.take 2 = beBytes 2 16) := by
  constructor
  · intro hi hl hn
    have hb := beNat_lt ((bytes.drop 18).take 8)
    rw [show ((bytes.drop 18).take 8).length = 8 by simp [hl]] at hb
    have hp : UInt64.ofNat (beNat ((bytes.drop 18).take 8)) ≠ 0 := by
      intro zero
      have hu := congrArg UInt64.toNat zero
      rw [UInt64.toNat_ofNat_of_lt' hb] at hu
      exact hn hu
    have hd : decodeEventKey bytes = .ok (_, ⟨_, hp⟩) :=
      decodeEventKey_eq_ok.mpr ⟨bytes.take 2, by simp [hl], eventKey_layout hl⟩
    have same := (hi _ _).mp hd
    rw [same, encodeEventKey_eq]
    exact take_left' (by simp)
  · intro ha inst seq
    rw [decodeEventKey_eq_ok, encodeEventKey_eq]
    constructor
    · rintro ⟨field, hw, rfl⟩
      have tail : (field ++ (inst.bytes ++ beBytes 8 seq.value.toNat)).drop 18 = beBytes 8 seq.value.toNat := by
        rw [← append_assoc]
        exact drop_left' (by simp [hw])
      rw [tail, take_of_length_le (by simp), beNat_beBytes_of_lt seq.value.toNat_lt, take_left' hw] at ha
      rw [ha (by simp [hw]) (fun zero => seq.nonzero (UInt64.toNat.inj zero))]
    · intro same
      exact ⟨_, length_beBytes 2 16, same⟩

@[simp] theorem length_encodeTimerKey (fire : UInt64) (inst : InstanceId) :
    (encodeTimerKey fire inst).length = 26 := by
  rw [encodeTimerKey_eq]
  simp

theorem decodeTimerKey_exact_iff : (∀ fire inst, decodeTimerKey bytes = .ok (fire, inst) ↔
      bytes = encodeTimerKey fire inst) ↔ ((bytes.drop 8).take 2 = beBytes 2 16 → bytes.length ≤ 26) := by
  constructor
  · intro hi hf
    by_contra long
    have hd := decodeTimerKey_eq_ok.mpr ⟨bytes.drop 26, timerKey_layout (by omega) hf⟩
    have same := (hi _ _).mp hd
    have hl := congrArg List.length same
    rw [length_encodeTimerKey] at hl
    omega
  · intro hb fire inst
    rw [decodeTimerKey_eq_ok]
    constructor
    · rintro ⟨rest, rfl⟩
      have hf : ((encodeTimerKey fire inst ++ rest).drop 8).take 2 = beBytes 2 16 := by
        rw [encodeTimerKey_eq, append_assoc, append_assoc, drop_left' (by simp)]
        exact take_left' (by simp)
      have hl := hb hf
      rw [length_append, length_encodeTimerKey] at hl
      rw [length_eq_zero_iff.mp (show rest.length = 0 by omega), append_nil]
    · intro same
      exact ⟨[], by rw [append_nil, same]⟩

def IsStepId (payload : Bytes) : Prop := ∃ stepId : StepId, utf8 stepId.value = payload

theorem drop_encodeLeaseKey (inst : InstanceId) (stepId : StepId) (rest : Bytes) :
    ((encodeLeaseKey inst stepId ++ rest).drop 16).take 2 = beBytes 2 (utf8 stepId.value).length ∧
      (encodeLeaseKey inst stepId ++ rest).drop 18 = utf8 stepId.value ++ rest := by
  have tail : (encodeLeaseKey inst stepId ++ rest).drop 16 =
      beBytes 2 (utf8 stepId.value).length ++ (utf8 stepId.value ++ rest) := by
    rw [encodeLeaseKey_eq, append_assoc, append_assoc]
    exact drop_left' inst.length_bytes
  refine ⟨by rw [tail]; exact take_left' (by simp), ?_⟩
  rw [← drop_drop (i := 2) (j := 16), tail]
  exact drop_left' (by simp)

theorem decodeLeaseKey_exact_iff {invalidUtf8 : Bytes → String} :
    (∀ inst stepId, decodeLeaseKey invalidUtf8 bytes = .ok (inst, stepId) ↔ bytes = encodeLeaseKey inst stepId) ↔
      (beNat ((bytes.drop 16).take 2) < (bytes.drop 18).length →
        ¬ IsStepId ((bytes.drop 18).take (beNat ((bytes.drop 16).take 2)))) ∧
      (65536 ≤ (bytes.drop 18).length → beNat ((bytes.drop 16).take 2) = (bytes.drop 18).length % 65536 →
        ¬ IsStepId (bytes.drop 18)) := by
  constructor
  · intro hi
    refine ⟨?_, ?_⟩
    · rintro more ⟨stepId, hp⟩
      have hw := beNat_lt ((bytes.drop 16).take 2)
      have length : (utf8 stepId.value).length = beNat ((bytes.drop 16).take 2) := by
        rw [hp, length_take]
        omega
      rw [length_drop] at more
      have hh : bytes = encodeLeaseKey (InstanceId.fromBytes (bytes.take 16)) stepId ++
          (bytes.drop 18).drop (beNat ((bytes.drop 16).take 2)) := by
        rw [encodeLeaseKey_eq, length, hp, append_assoc, append_assoc, take_append_drop]
        exact leaseKey_layout (by omega)
      rw [length_take_of_le (by rw [length_drop]; omega), ← length] at hw
      have same := (hi _ _).mp (decodeLeaseKey_eq_ok.mpr ⟨hw, _, hh⟩)
      have hf := congrArg List.length hh
      rw [length_append, ← same, length_drop, length_drop] at hf
      omega
    · rintro long ht ⟨stepId, hp⟩
      have ha : beBytes 2 (beNat ((bytes.drop 16).take 2)) = beBytes 2 (bytes.drop 18).length := by
        rw [ht]
        exact beBytes_mod 2 _
      have hh : bytes = encodeLeaseKey (InstanceId.fromBytes (bytes.take 16)) stepId := by
        rw [encodeLeaseKey_eq, hp, ← ha]
        rw [length_drop] at long
        exact leaseKey_layout (by omega)
      have hs := (decodeLeaseKey_eq_ok.mp ((hi _ _).mpr hh)).1
      rw [hp] at hs
      omega
  · rintro ⟨hn, hu⟩ inst stepId
    rw [decodeLeaseKey_eq_ok]
    constructor
    · rintro ⟨hb, rest, rfl⟩
      obtain ⟨ha, tail⟩ := drop_encodeLeaseKey inst stepId rest
      rw [ha, tail, beNat_beBytes_of_lt hb, take_left, length_append] at hn
      have he : rest.length = 0 := by
        by_contra more
        exact hn (by omega) ⟨stepId, rfl⟩
      rw [length_eq_zero_iff.mp he, append_nil]
    · rintro rfl
      obtain ⟨ha, tail⟩ := drop_encodeLeaseKey inst stepId []
      rw [append_nil] at ha tail
      rw [append_nil] at tail
      rw [ha, tail, beNat_beBytes] at hu
      refine ⟨?_, [], (append_nil _).symm⟩
      by_contra long
      exact hu (by omega) rfl ⟨stepId, rfl⟩

end

theorem key_decoders_exact_iff [Ulid] (invalidUtf8 : Bytes → String) (bytes : Bytes) :
    ((∀ instanceId sequence, decodeEventKey bytes = .ok (instanceId, sequence) ↔
          bytes = encodeEventKey instanceId sequence.value) ↔
        (bytes.length = 26 → beNat ((bytes.drop 18).take 8) ≠ 0 → bytes.take 2 = beBytes 2 16)) ∧
      ((∀ fireAtMs instanceId, decodeTimerKey bytes = .ok (fireAtMs, instanceId) ↔
          bytes = encodeTimerKey fireAtMs instanceId) ↔ ((bytes.drop 8).take 2 = beBytes 2 16 → bytes.length ≤ 26)) ∧
      ((∀ instanceId stepId, decodeLeaseKey invalidUtf8 bytes = .ok (instanceId, stepId) ↔
          bytes = encodeLeaseKey instanceId stepId) ↔ (beNat ((bytes.drop 16).take 2) < (bytes.drop 18).length →
          ¬ IsStepId ((bytes.drop 18).take (beNat ((bytes.drop 16).take 2)))) ∧
        (65536 ≤ (bytes.drop 18).length → beNat ((bytes.drop 16).take 2) = (bytes.drop 18).length % 65536 →
          ¬ IsStepId (bytes.drop 18))) ∧ (∀ instanceId (sequence : SequenceNumber),
        decodeEventKey (encodeEventKey instanceId sequence.value) = .ok (instanceId, sequence)) ∧
      (∀ fireAtMs instanceId, decodeTimerKey (encodeTimerKey fireAtMs instanceId) = .ok (fireAtMs, instanceId)) ∧
      ∀ instanceId stepId, decodeLeaseKey invalidUtf8 (encodeLeaseKey instanceId stepId) = .ok (instanceId, stepId) ↔
        (utf8 stepId.value).length ≤ 65535 := by
  refine ⟨decodeEventKey_exact_iff, decodeTimerKey_exact_iff, decodeLeaseKey_exact_iff, ?_, ?_, ?_⟩
  · intro instanceId sequence
    exact decodeEventKey_eq_ok.mpr ⟨_, length_beBytes 2 16, encodeEventKey_eq instanceId sequence.value⟩
  · intro fireAtMs instanceId
    exact decodeTimerKey_eq_ok.mpr ⟨[], (append_nil _).symm⟩
  · intro instanceId stepId
    rw [decodeLeaseKey_eq_ok, Nat.lt_succ_iff]
    exact and_iff_left ⟨[], (append_nil _).symm⟩

section Sample

variable (count : Nat)

theorem validate_letters : StepId.validate (String.ofList (List.replicate (count + 1) 'a')) = .ok () := by
  have hn : String.ofList (List.replicate (count + 1) 'a') ≠ "" := by
    intro he
    have hh := congrArg String.toList he
    rw [String.toList_ofList, replicate_succ] at hh
    cases hh
  have hc : requireCharacters "StepId" isIdentifierChar
      (String.ofList (List.replicate (count + 1) 'a')) = .ok () := by
    rw [requireCharacters_eq_ok, String.toList_ofList]
    intro c mem
    rw [eq_of_mem_replicate mem]
    decide
  simp only [StepId.validate, if_neg hn, hc, checkIdentifierBoundaries, String.toList_ofList,
    getLast?_replicate, head?_replicate]
  rfl

def letters (count : Nat) : StepId := ⟨String.ofList (List.replicate (count + 1) 'a'), validate_letters count⟩

theorem length_letters : (utf8 (letters count).value).length = count + 1 := by
  rw [letters, length_utf8, Ulid.Crockford.utf8ByteSize_ofList, length_replicate]
  intro c mem
  rw [eq_of_mem_replicate mem]
  rfl

attribute [local instance] Ulid.Crockford.codec

/-- An empty announced id, two keys with a byte too many, and a step id of 65536 letters. -/
theorem inexact_keys : (decodeEventKey (beBytes 2 0 ++ (ofUlid 7).bytes ++ beBytes 8 1) =
        .ok (ofUlid 7, ⟨1, by decide⟩) ∧
      beBytes 2 0 ++ (ofUlid 7).bytes ++ beBytes 8 1 ≠ encodeEventKey (ofUlid 7) 1) ∧
    (decodeTimerKey (encodeTimerKey 5 (ofUlid 7) ++ [0]) = .ok (5, ofUlid 7) ∧
      encodeTimerKey 5 (ofUlid 7) ++ [0] ≠ encodeTimerKey 5 (ofUlid 7)) ∧
    (decodeLeaseKey (fun _ => "") (encodeLeaseKey (ofUlid 7) (letters 3) ++ [0]) =
        .ok (ofUlid 7, letters 3) ∧
      encodeLeaseKey (ofUlid 7) (letters 3) ++ [0] ≠ encodeLeaseKey (ofUlid 7) (letters 3)) ∧
    decodeLeaseKey (fun _ => "") (encodeLeaseKey (ofUlid 7) (letters 65535)) ≠
      .ok (ofUlid 7, letters 65535) := by
  refine ⟨⟨by decide +kernel, by decide +kernel⟩, ⟨by decide +kernel, by simp⟩, ⟨by decide +kernel, by simp⟩, ?_⟩
  intro read
  have hs := (decodeLeaseKey_eq_ok.mp read).1
  rw [length_letters] at hs
  omega

end Sample

end Veloxide.KeyEncoding
