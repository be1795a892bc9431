import Veloxide.Library.ByteReader
import Veloxide.Library.JsonText
import Veloxide.Library.Serde

namespace Veloxide.Ipc

open ByteCodec Stateful Serde List

inductive IpcError
  | payloadTooLarge (size : Nat)
  | incompleteRead (expected actual : Nat)
  | invalidJson (detail : String)
  | invalidPostcard (detail : String)
  | versionMismatch (version : Nat)
  | schemaViolation (detail : String)
  | ioError (detail : String)
deriving DecidableEq

def maxPayloadSize : Nat := 10485760

/-- `char::is_alphanumeric`, which is read off the Unicode tables. -/
class UnicodeTables where
  isAlphanumeric : Char → Bool

@[reducible] def UnicodeTables.ascii : UnicodeTables := ⟨Char.isAlphanum⟩

/-- The derived serializers of an envelope, to JSON and to postcard. -/
class Envelope (T : Type) where
  toJson : T → Except String Json
  fromJson : Json → Except String T
  toPostcard : T → Except String Bytes
  fromPostcard : Bytes → Except String T

/-- What is serialized is deserialized again. -/
class Envelope.Inverse (T : Type) [Envelope T] : Prop where
  json : ∀ {envelope : T} {value other : Json}, toJson envelope = .ok value → value.Same other →
    fromJson other = .ok envelope
  postcard : ∀ {envelope : T} {bytes : Bytes}, toPostcard envelope = .ok bytes → fromPostcard bytes = .ok envelope

/-- Payloads are JSON in builds with debug assertions, and postcard in others. -/
inductive Profile
  | debug
  | release

section

variable [UnicodeTables] (fields : List (String × Json))

def validateVersion : Except IpcError Unit := match Json.lookup fields "version" with
  | none => .ok ()
  | some value =>
    match value.asU64 with
    | none => .error (.schemaViolation "version must be an integer")
    | some number =>
      if 256 ≤ number.toNat then .error (.versionMismatch 255)
      else if number ≠ 1 then .error (.versionMismatch number.toNat)
      else .ok ()

def validateIdField (field : String) : Except IpcError Unit := match Json.lookup fields field with
  | none => .ok ()
  | some value =>
    match value.asStr with
    | none => .error (.schemaViolation s!"{field} must be a string")
    | some id =>
      if id.isEmpty then .error (.schemaViolation s!"{field} cannot be empty")
      else if id.toList.all UnicodeTables.isAlphanumeric then .ok ()
      else .error (.schemaViolation s!"{field} contains invalid characters")

def validateJsonSchema (value : Json) : Except IpcError Unit := match value.asObject with
  | none => .ok ()
  | some fields => do
    validateVersion fields
    validateIdField fields "instance_id"
    validateIdField fields "node_id"

end

section

variable {T σ : Type} [Envelope T] [JsonCodec] (profile : Profile) (envelope : T)

def serializeEnvelope : Except IpcError Bytes := match profile with
  | .debug => (Envelope.toJson envelope >>= JsonCodec.toVec).mapError .invalidJson
  | .release => (Envelope.toPostcard envelope).mapError .invalidPostcard

def writeAll (bytes : Bytes) : Stateful Bytes IpcError Unit := modify fun written => written ++ bytes

def writeEnvelope : Stateful Bytes IpcError Unit := do
  let payload ← lift (serializeEnvelope profile envelope)
  if 2 ^ 32 ≤ payload.length then fail (.payloadTooLarge (2 ^ 32 - 1))
  else if maxPayloadSize < payload.length then fail (.payloadTooLarge payload.length)
  else do
    writeAll (beBytes 4 payload.length)
    writeAll payload

def writeEnvelopes (profile : Profile) : List T → Stateful Bytes IpcError Unit
  | [] => pure ()
  | envelope :: envelopes => do
    writeEnvelope profile envelope
    writeEnvelopes profile envelopes

variable [UnicodeTables]

def deserializeAndValidate (profile : Profile) (payload : Bytes) : Except IpcError T := match profile with
  | .debug => do
    let value ← (JsonCodec.ofSlice payload).mapError .invalidJson
    validateJsonSchema value
    (Envelope.fromJson value).mapError .schemaViolation
  | .release => (Envelope.fromPostcard payload).mapError .invalidPostcard

variable [ByteReader σ]

def readHeader : Stateful σ IpcError Bytes := ByteReader.fill .ioError (.incompleteRead 4) (fun missing => missing) 4 []

def readPayload (len : Nat) : Stateful σ IpcError Bytes := ByteReader.fill .ioError (.incompleteRead len) (min 4096) len []

def readEnvelope (profile : Profile) : Stateful σ IpcError T := do
  let header ← readHeader
  let len := beNat header
  if maxPayloadSize < len then fail (.payloadTooLarge len)
  else do
    let payload ← readPayload len
    lift (deserializeAndValidate profile payload)

def readEnvelopes (profile : Profile) : Nat → Stateful σ IpcError (List T)
  | 0 => pure []
  | count + 1 => do
    let envelope ← readEnvelope profile
    let envelopes ← readEnvelopes profile count
    return envelope :: envelopes

end

section

variable [UnicodeTables] {fields right : List (String × Json)}

omit [UnicodeTables] in
theorem validateVersion_same (hr : ∀ name, Option.Rel Json.Same (Json.lookup fields name) (Json.lookup right name)) :
    validateVersion right = validateVersion fields := by
  have here := hr "version"
  rw [validateVersion, validateVersion]
  generalize Json.lookup fields "version" = first at here
  generalize Json.lookup right "version" = second at here
  cases here with
  | none => rfl
  | some same => simp only [same.asU64_eq]

theorem validateIdField_same (hr : ∀ name, Option.Rel Json.Same (Json.lookup fields name) (Json.lookup right name))
    (field : String) : validateIdField right field = validateIdField fields field := by
  have here := hr field
  rw [validateIdField, validateIdField]
  generalize Json.lookup fields field = first at here
  generalize Json.lookup right field = second at here
  cases here with
  | none => rfl
  | some same => simp only [same.asStr_eq]

theorem validateJsonSchema_same {value other : Json} (same : value.Same other) :
    validateJsonSchema other = validateJsonSchema value := by
  cases same with
  | object hr =>
    simp only [validateJsonSchema, Json.asObject, validateVersion_same hr, validateIdField_same hr]
  | null | bool | number | string | array => rfl

end

section

variable {T σ : Type} [Envelope T] [JsonCodec] {profile : Profile} {envelope : T}

structure HasPayload (profile : Profile) (envelope : T) (payload : Bytes) : Prop where
  serialized : serializeEnvelope profile envelope = .ok payload
  small : payload.length ≤ maxPayloadSize

def frame (payload : Bytes) : Bytes := beBytes 4 payload.length ++ payload

variable {payload : Bytes}

theorem HasPayload.header (hw : HasPayload profile envelope payload) :
    beNat (beBytes 4 payload.length) = payload.length :=
  beNat_beBytes_of_lt (Nat.lt_of_le_of_lt hw.small (by decide))

theorem HasPayload.writeEnvelope (hw : HasPayload profile envelope payload) (before : Bytes) :
    (writeEnvelope profile envelope).run before = (.ok (), before ++ frame payload) := by
  have fits : ¬ 2 ^ 32 ≤ payload.length := Nat.not_le.mpr (Nat.lt_of_le_of_lt hw.small (by decide))
  have hs : (lift (serializeEnvelope profile envelope) : Stateful Bytes IpcError Bytes).run before =
      (.ok payload, before) := by
    rw [hw.serialized]
    rfl
  rw [Ipc.writeEnvelope, bind_ok hs, if_neg fits, if_neg (Nat.not_lt.mpr hw.small)]
  refine (bind_ok rfl).trans ?_
  rw [frame, ← append_assoc]
  rfl

theorem hasPayload_of_writeEnvelope {before after : Bytes}
    (ran : (writeEnvelope profile envelope).run before = (.ok (), after)) :
    ∃ payload, HasPayload profile envelope payload := by
  rcases hs : serializeEnvelope profile envelope with err | payload
  · rw [writeEnvelope, hs, bind_error (show (lift (.error err)).run before = (.error err, before) from rfl)]
      at ran
    cases ran
  · rw [writeEnvelope, hs, bind_ok (show (lift (.ok payload)).run before = (.ok payload, before) from rfl)] at ran
    by_cases huge : 2 ^ 32 ≤ payload.length
    · rw [if_pos huge] at ran
      cases ran
    · by_cases hl : maxPayloadSize < payload.length
      · rw [if_neg huge, if_pos hl] at ran
        cases ran
      · exact ⟨payload, hs, Nat.not_lt.mp hl⟩

end

section

variable {σ : Type} [PiecewiseReader σ] {reader : σ} {bytes rest : Bytes}

open PiecewiseReader

theorem readHeader_complete (hh : remaining reader = bytes ++ rest) (hl : bytes.length = 4) :
    ∃ after, readHeader.run reader = (.ok bytes, after) ∧ remaining after = rest :=
  ByteReader.fill_complete (fun _ hp => ⟨hp, Nat.le_refl _⟩) hh (by simpa using hl)

theorem readHeader_short (hh : remaining reader = bytes) (less : bytes.length < 4) :
    ∃ after, readHeader.run reader = (.error (.incompleteRead 4 bytes.length), after) := by
  have hf := @ByteReader.fill_short σ IpcError _ .ioError (.incompleteRead 4) _
    (fun _ hp => ⟨hp, Nat.le_refl _⟩) 4 [] bytes reader hh (by simpa using less)
  rw [length_nil, Nat.zero_add] at hf
  exact hf

theorem readPayload_complete (hh : remaining reader = bytes ++ rest) :
    ∃ after, (readPayload bytes.length).run reader = (.ok bytes, after) ∧ remaining after = rest :=
  ByteReader.fill_complete (fun _ _ => ⟨by omega, by omega⟩) hh (by simp)

theorem readPayload_short {len : Nat} (hh : remaining reader = bytes) (less : bytes.length < len) :
    ∃ after, (readPayload len).run reader = (.error (.incompleteRead len bytes.length), after) := by
  have hf := @ByteReader.fill_short σ IpcError _ .ioError (.incompleteRead len) (min 4096)
    (fun _ _ => ⟨by omega, by omega⟩) len [] bytes reader hh (by simpa using less)
  rw [length_nil, Nat.zero_add] at hf
  exact hf

end

section

variable {T σ : Type} [Envelope T] [JsonCodec] [UnicodeTables] [PiecewiseReader σ] {profile : Profile} {envelope : T}
  {payload : Bytes}

open PiecewiseReader

def Validated (profile : Profile) (envelope : T) : Prop := match profile with
  | .debug => ∀ value, Envelope.toJson envelope = .ok value → validateJsonSchema value = .ok ()
  | .release => True

omit [PiecewiseReader σ] in
theorem HasPayload.deserialize [Envelope.Inverse T] (hw : HasPayload profile envelope payload)
    (hv : Validated profile envelope) : deserializeAndValidate profile payload = .ok envelope := by
  have hs := hw.serialized
  cases profile with
  | release =>
    have he := Except.mapError_eq_ok.mp hs
    rw [deserializeAndValidate, Envelope.Inverse.postcard he]
    rfl
  | debug =>
    obtain ⟨value, hc, hp⟩ := Except.bind_eq_ok.mp (Except.mapError_eq_ok.mp hs)
    obtain ⟨bytes, other, same, ha, hr⟩ := JsonCodec.ofSlice_toVec value
    cases hp.symm.trans same
    have hb := validateJsonSchema_same hr
    rw [hv value hc] at hb
    rw [deserializeAndValidate, ha]
    simp only [Except.mapError, bind, Except.bind, hb, Envelope.Inverse.json hc hr]

variable {reader : σ} {rest : Bytes}

theorem HasPayload.readEnvelope [Envelope.Inverse T] (hw : HasPayload profile envelope payload)
    (hv : Validated profile envelope) (ho : remaining reader = frame payload ++ rest) :
    ∃ after, (readEnvelope profile).run reader = (.ok envelope, after) ∧ remaining after = rest := by
  rw [frame, append_assoc] at ho
  obtain ⟨middle, hh, left⟩ := readHeader_complete ho (length_beBytes 4 payload.length)
  obtain ⟨after, body, hf⟩ := readPayload_complete left
  refine ⟨after, ?_, hf⟩
  rw [Ipc.readEnvelope, bind_ok hh, hw.header, if_neg (Nat.not_lt.mpr hw.small), bind_ok body, hw.deserialize hv]
  rfl

theorem HasPayload.readEnvelope_cut (hw : HasPayload profile envelope payload) {cut : Bytes}
    (hi : cut <+: frame payload) (hp : cut ≠ frame payload) (ho : remaining reader = cut) : ∃ want actual after,
      (Ipc.readEnvelope profile : Stateful σ IpcError T).run reader = (.error (.incompleteRead want actual), after) := by
  by_cases hs : cut.length < 4
  · obtain ⟨after, hf⟩ := readHeader_short ho hs
    exact ⟨4, cut.length, after, bind_error hf⟩
  · have hb : beBytes 4 payload.length <+: cut := by
      refine prefix_of_prefix_length_le (prefix_append _ payload) hi ?_
      rw [length_beBytes]
      exact Nat.not_lt.mp hs
    obtain ⟨part, rfl⟩ := hb
    have hn : part <+: payload := (prefix_append_right_inj _).mp hi
    have less : part.length < payload.length := by
      refine Nat.lt_of_le_of_ne hn.length_le fun same => hp ?_
      rw [hn.eq_of_length same, frame]
    obtain ⟨middle, hh, left⟩ := readHeader_complete ho (length_beBytes 4 payload.length)
    obtain ⟨after, hf⟩ := readPayload_short left less
    refine ⟨payload.length, part.length, after, ?_⟩
    rw [Ipc.readEnvelope, bind_ok hh, hw.header, if_neg (Nat.not_lt.mpr hw.small)]
    exact bind_error hf

/-- `write_envelope` takes the envelope, and so does the validation of `read_envelope`. -/
structure Accepted (profile : Profile) (envelope : T) : Prop where
  written : ∃ bytes, (writeEnvelope profile envelope).run [] = (.ok (), bytes)
  validated : Validated profile envelope

variable {envelopes : List T}

omit [PiecewiseReader σ] in
theorem exists_payloads (ha : ∀ envelope ∈ envelopes, Accepted profile envelope) :
    ∃ payloads, List.Forall₂ (HasPayload profile) envelopes payloads := by
  induction envelopes with
  | nil => exact ⟨[], .nil⟩
  | cons envelope envelopes ih =>
    obtain ⟨bytes, ran⟩ := (ha envelope mem_cons_self).written
    obtain ⟨payload, hw⟩ := hasPayload_of_writeEnvelope ran
    obtain ⟨payloads, rest⟩ := ih fun other mem => ha other (mem_cons_of_mem _ mem)
    exact ⟨payload :: payloads, .cons hw rest⟩

variable {payloads : List Bytes}

omit [UnicodeTables] [PiecewiseReader σ] in
theorem writeEnvelopes_run (hw : List.Forall₂ (HasPayload profile) envelopes payloads) (before : Bytes) :
    (writeEnvelopes profile envelopes).run before = (.ok (), before ++ payloads.flatMap frame) := by
  induction hw generalizing before with
  | nil => rw [flatMap_nil, append_nil]; rfl
  | cons head _ ih => rw [writeEnvelopes, bind_ok (head.writeEnvelope before), ih, flatMap_cons, append_assoc]

theorem readEnvelopes_run [Envelope.Inverse T] (hw : List.Forall₂ (HasPayload profile) envelopes payloads)
    (hv : ∀ envelope ∈ envelopes, Validated profile envelope)
    (hh : remaining reader = payloads.flatMap frame ++ rest) :
    ∃ after, (readEnvelopes profile envelopes.length).run reader = (.ok envelopes, after) ∧ remaining after = rest := by
  induction hw generalizing reader with
  | nil => exact ⟨reader, rfl, hh⟩
  | cons head _ ih =>
    rw [flatMap_cons, append_assoc] at hh
    obtain ⟨middle, hi, left⟩ := head.readEnvelope (hv _ mem_cons_self) hh
    obtain ⟨after, hl, hf⟩ := ih (fun other mem => hv other (mem_cons_of_mem _ mem)) left
    refine ⟨after, ?_, hf⟩
    rw [length_cons, readEnvelopes, bind_ok hi, bind_ok hl]
    rfl

/-- Envelopes are read back as written however their frames are cut; a short frame is refused. -/
theorem framing_chunk_independent [Envelope.Inverse T] (profile : Profile) (envelopes : List T)
    (accepted : ∀ envelope ∈ envelopes, Accepted profile envelope) :
    (∀ first second, envelopes = first ++ second → ∃ earlier later,
        (writeEnvelopes profile first).run [] = (.ok (), earlier) ∧
        (writeEnvelopes profile envelopes).run [] = (.ok (), earlier ++ later) ∧
        ∀ (reader : σ) (rest : Bytes), remaining reader = earlier ++ later ++ rest →
          ∃ after, (readEnvelopes profile first.length).run reader = (.ok first, after) ∧
            remaining after = later ++ rest) ∧
      ∀ envelope ∈ envelopes, ∀ bytes cut, (writeEnvelope profile envelope).run [] = (.ok (), bytes) →
        cut <+: bytes → cut ≠ bytes → ∀ reader : σ, remaining reader = cut → ∃ expected actual after,
          (readEnvelope profile : Stateful σ IpcError T).run reader = (.error (.incompleteRead expected actual), after) := by
  refine ⟨fun first second hs => ?_, fun envelope mem bytes cut ran hi hp reader hh => ?_⟩
  · subst hs
    obtain ⟨earlier, hb⟩ := exists_payloads fun envelope mem => accepted envelope (mem_append_left _ mem)
    obtain ⟨later, he⟩ := exists_payloads fun envelope mem => accepted envelope (mem_append_right _ mem)
    refine ⟨earlier.flatMap frame, later.flatMap frame, writeEnvelopes_run hb [], ?_, fun reader rest hh => ?_⟩
    · rw [writeEnvelopes_run (rel_append hb he) [], nil_append, flatMap_append]
    · rw [append_assoc] at hh
      exact readEnvelopes_run hb
        (fun envelope mem => (accepted envelope (mem_append_left _ mem)).validated) hh
  · obtain ⟨payload, here⟩ := hasPayload_of_writeEnvelope ran
    cases (here.writeEnvelope []).symm.trans ran
    exact here.readEnvelope_cut hi hp hh

end

section Sample

structure VersionHandshake where
  version : UInt8

instance : Envelope VersionHandshake where
  toJson handshake := .ok (.object [("version", .u64 handshake.version.toUInt64)])
  fromJson value := do
    let fields ← record "VersionHandshake" ["version"] value
    let version ← required fields "version" (toUnsigned "u8" (2 ^ 8))
    return ⟨version.toUInt8⟩
  toPostcard handshake := .ok [handshake.version]
  fromPostcard
    | [version] => .ok ⟨version⟩
    | _ => .error "Hit the end of buffer, expected more data"

instance : Envelope.Inverse VersionHandshake where
  json := by
    intro handshake value other converted same
    cases converted
    obtain ⟨right, rfl, related⟩ := same.object_right
    have version : required right "version" (toUnsigned "u8" (2 ^ 8)) = .ok handshake.version.toUInt64 := by
      refine required_related related (Json.lookup_cons _ _ _ _) ?_
      intro other same
      rw [same.number_right, toUnsigned, if_pos]
      rw [UInt8.toNat_toUInt64]
      exact handshake.version.toNat_lt
    have decoded : Envelope.fromJson (.object right) = (do
        let version ← required right "version" (toUnsigned "u8" (2 ^ 8))
        return VersionHandshake.mk version.toUInt8) := rfl
    rw [decoded, version]
    show Except.ok (VersionHandshake.mk handshake.version.toUInt64.toUInt8) = _
    rw [UInt8.toUInt8_toUInt64]
  postcard := by
    intro handshake bytes encoded
    cases encoded
    rfl

structure ByteTrickle where
  bytes : Bytes

instance : PiecewiseReader ByteTrickle where
  read reader room := (.ok (reader.bytes.take (min 1 room)), ⟨reader.bytes.drop (min 1 room)⟩)
  remaining reader := reader.bytes
  read_piece reader room positive := by
    refine ⟨_, _, rfl, (take_append_drop _ reader.bytes).symm, ?_, ?_⟩
    · rw [length_take]
      omega
    · intro empty
      rw [take_eq_nil_iff] at empty
      exact empty.resolve_left (by omega)

attribute [local instance] Json.Text.codec UnicodeTables.ascii

theorem framing_chunk_independent_sample : Accepted .debug (VersionHandshake.mk 1) ∧
    ∃ bytes, (writeEnvelopes .debug [VersionHandshake.mk 1, ⟨1⟩]).run [] = (.ok (), bytes) ∧
      ∃ after, (readEnvelopes .debug 2).run (ByteTrickle.mk bytes) = (.ok [VersionHandshake.mk 1, ⟨1⟩], after) ∧
        after.bytes = [] := by
  have ha : Accepted .debug (VersionHandshake.mk 1) := by
    refine ⟨⟨_, rfl⟩, ?_⟩
    intro value hc
    cases hc
    decide
  have both : ∀ envelope ∈ [VersionHandshake.mk 1, ⟨1⟩], Accepted .debug envelope := by
    simpa using ha
  obtain ⟨earlier, later, hf, hw, read⟩ := (@framing_chunk_independent VersionHandshake ByteTrickle _ _ _ _ _ .debug _
    both).1 _ [] (append_nil _).symm
  obtain ⟨after, ran, left⟩ := read ⟨earlier ++ later⟩ [] (append_nil _).symm
  have hn : later = [] := self_eq_append_right.mp (Prod.mk.inj (hf.symm.trans hw)).2
  rw [hn] at left
  exact ⟨ha, earlier ++ later, hw, after, ran, left⟩

end Sample

end Veloxide.Ipc
