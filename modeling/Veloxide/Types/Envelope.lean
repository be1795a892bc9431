import Veloxide.Types.Events

namespace Veloxide

open ByteCodec Serde Except

abbrev TimestampMs := UInt64

inductive Issuer
  | system
  | apiClient
  | operator
  | aiAgent
  | timerLoop
  | recoveryLoop
deriving DecidableEq

def Issuer.variants : List (String × Issuer) :=
  [("system", .system), ("api_client", .apiClient), ("operator", .operator), ("ai_agent", .aiAgent),
    ("timer_loop", .timerLoop), ("recovery_loop", .recoveryLoop)]

def Issuer.serdeName : Issuer → String
  | system => "system"
  | apiClient => "api_client"
  | operator => "operator"
  | aiAgent => "ai_agent"
  | timerLoop => "timer_loop"
  | recoveryLoop => "recovery_loop"

theorem Issuer.lookup_serdeName (issuer : Issuer) : variants.lookup issuer.serdeName = some issuer := by
  cases issuer <;> decide

structure CommandMetadata where
  commandId : IdempotencyKey
  correlationId : IdempotencyKey
  causationId : IdempotencyKey
  issuer : Issuer
  issuedAt : TimestampMs

variable (fields : List (String × Json))

namespace CommandMetadata

variable (value : Json)

def decodeKey : Except String IdempotencyKey := do
  let text ← toStr value
  (Text.parse IdempotencyKey.validate text).mapError ParseError.toText

def toJson (metadata : CommandMetadata) : Json := .object [("command_id", .string metadata.commandId.value),
    ("correlation_id", .string metadata.correlationId.value),
    ("causation_id", .string metadata.causationId.value), ("issuer", .string metadata.issuer.serdeName),
    ("issued_at", Json.u64 metadata.issuedAt)]

/-- Fields are visited in the order of their names; what is missing is reported in that of declaration. -/
def fromFields : Except String CommandMetadata := do
  let causationId ← present fields "causation_id" decodeKey
  let commandId ← present fields "command_id" decodeKey
  let correlationId ← present fields "correlation_id" decodeKey
  let issuedAt ← present fields "issued_at" toU64
  let issuer ← present fields "issuer" (toUnitVariant Issuer.variants)
  let commandId ← commandId.okOr (missingField "command_id")
  let correlationId ← correlationId.okOr (missingField "correlation_id")
  let causationId ← causationId.okOr (missingField "causation_id")
  let issuer ← issuer.okOr (missingField "issuer")
  let issuedAt ← issuedAt.okOr (missingField "issued_at")
  return { commandId, correlationId, causationId, issuer, issuedAt }

def fromItems (items : List Json) : Except String CommandMetadata := do
  let item (index : Nat) : Except String Json :=
    items[index]?.okOr s!"invalid length {index}, expected struct CommandMetadata with 5 elements"
  let commandId ← decodeKey (← item 0)
  let correlationId ← decodeKey (← item 1)
  let causationId ← decodeKey (← item 2)
  let issuer ← toUnitVariant Issuer.variants (← item 3)
  let issuedAt ← toU64 (← item 4)
  if items.length > 5 then throw s!"invalid length {items.length}, expected fewer elements in array"
  return { commandId, correlationId, causationId, issuer, issuedAt }

def deserialize : Except String CommandMetadata := match value with
  | .object fields => fromFields fields
  | .array items => fromItems items
  | value => .error (invalidType value "struct CommandMetadata")

end CommandMetadata

structure EventMetadata where
  commandMetadata : Option CommandMetadata
  annotations : List (String × Json)

namespace EventMetadata

def default : EventMetadata := ⟨none, []⟩

def toJson (metadata : EventMetadata) : Json :=
  .object [("command_metadata", (metadata.commandMetadata.map CommandMetadata.toJson).getD .null),
    ("annotations", .object metadata.annotations)]

def deserialize (fields : List (String × Json)) : Except String EventMetadata := do
  let annotations ← present fields "annotations" toMap
  let commandMetadata ← present fields "command_metadata" (toOption CommandMetadata.deserialize)
  return ⟨commandMetadata.getD none, annotations.getD []⟩

variable (text pattern : List Char)

def startsWith (text : List Char) : Bool := pattern.isPrefixOf text

def contains : Bool := text.tails.any (startsWith pattern)

def quoted : Option (List Char) := match text.dropWhile (· ≠ Char.ofNat 96) with
  | [] => none
  | _ :: rest => if Char.ofNat 96 ∈ rest then some (rest.takeWhile (· ≠ Char.ofNat 96)) else none

def errorOf (message : String) : Events.Error := if contains message.toList "unknown variant".toList then
    match quoted message.toList with
    | some name => .invalidIssuer (String.ofList name)
    | none => .invalidCommandMetadata
  else .invalidCommandMetadata

def fromJson : Except Events.Error EventMetadata := (deserialize fields).mapError errorOf

end EventMetadata

structure EventEnvelope where
  schemaVersion : UInt8
  instanceId : String
  sequence : UInt64
  timestampMs : UInt64
  payload : Json
  metadata : EventMetadata

namespace EventEnvelope

section

variable (obj : List (String × Json)) (field : String)

def envelopeString : Except Events.Error String := do
  let value ← (Json.lookup obj field).okOr (.missingEnvelopeField field)
  value.asStr.okOr (.invalidEnvelopeField s!"{field} must be a string")

def envelopeU64 : Except Events.Error UInt64 := do
  let value ← (Json.lookup obj field).okOr (.missingEnvelopeField field)
  value.asU64.okOr (.invalidEnvelopeField s!"{field} must be an integer")

def envelopeMetadata : Except Events.Error EventMetadata := match Json.lookup obj "metadata" with
  | some value => do
    let fields ← value.asObject.okOr (.invalidEnvelopeField "metadata must be an object")
    EventMetadata.fromJson fields
  | none => .ok .default

def fromFields : Except Events.Error EventEnvelope := do
  let version ← envelopeU64 obj "version"
  if version > 255 then throw (.invalidEnvelopeField "version exceeds maximum supported value")
  let instanceId ← envelopeString obj "instance_id"
  let sequence ← envelopeU64 obj "sequence"
  let timestampMs ← envelopeU64 obj "timestamp_ms"
  let payload ← (Json.lookup obj "payload").okOr (.missingEnvelopeField "payload")
  let _ ← payload.asObject.okOr (.invalidEnvelopeField "payload")
  let metadata ← envelopeMetadata obj
  if instanceId = "" then throw (.invalidEnvelopeField "instance_id cannot be empty")
  if sequence = 0 then throw (.invalidEnvelopeField "sequence must be >= 1")
  if version.toUInt8 > maxSupportedVersion then throw (.unsupportedEnvelopeVersion version.toUInt8)
  return { schemaVersion := version.toUInt8, instanceId, sequence, timestampMs, payload, metadata }

end

variable [JsonCodec]

def fromStr (input : String) : Except Events.Error EventEnvelope := do
  let value ← (JsonCodec.ofText input).mapError fun _ => .invalidEnvelopeFormat
  let obj ← value.asObject.okOr .invalidEnvelopeFormat
  fromFields obj

def fromBytes (input : Bytes) : Except Events.Error EventEnvelope := do
  let text ← (fromUtf8 input).okOr .invalidInput
  fromStr text

def toJson (envelope : EventEnvelope) : Json := .object [("schema_version", Json.u64 envelope.schemaVersion.toUInt64),
    ("instance_id", .string envelope.instanceId), ("sequence", Json.u64 envelope.sequence),
    ("timestamp_ms", Json.u64 envelope.timestampMs), ("payload", envelope.payload),
    ("metadata", envelope.metadata.toJson)]

end EventEnvelope

section

theorem CommandMetadata.decodeKey_string (key : IdempotencyKey) : decodeKey (.string key.value) = .ok key := by
  show (Text.parse IdempotencyKey.validate key.value).mapError ParseError.toText = .ok key
  rw [key.parse_value]
  rfl

variable {other : Json}

theorem CommandMetadata.deserialize_same {metadata : CommandMetadata} (same : metadata.toJson.Same other) :
    deserialize other = .ok metadata := by
  obtain ⟨right, ho, hr⟩ := same.object_right
  have key : ∀ (key : IdempotencyKey) (other : Json), (Json.string key.value).Same other → decodeKey other = .ok key := by
    intro key other same
    rw [same.string_right]
    exact decodeKey_string key
  have ha : present right "command_id" decodeKey = .ok (some metadata.commandId) :=
    present_related hr (by simp [Json.lookup_cons]) (key metadata.commandId)
  have hc : present right "correlation_id" decodeKey = .ok (some metadata.correlationId) :=
    present_related hr (by simp [Json.lookup_cons]) (key metadata.correlationId)
  have hb : present right "causation_id" decodeKey = .ok (some metadata.causationId) :=
    present_related hr (by simp [Json.lookup_cons]) (key metadata.causationId)
  have hs : present right "issuer" (toUnitVariant Issuer.variants) = .ok (some metadata.issuer) := by
    apply present_related hr
      (show Json.lookup _ "issuer" = some (.string metadata.issuer.serdeName) by simp [Json.lookup_cons])
    intro other same
    rw [same.string_right, toUnitVariant, Issuer.lookup_serdeName]
    rfl
  have hi : present right "issued_at" toU64 = .ok (some metadata.issuedAt) :=
    present_related hr (by simp [Json.lookup_cons]) fun _ same => toU64_related _ same
  rw [ho, deserialize, fromFields, ha, hc, hb, hs, hi]
  rfl

variable {metadata : EventMetadata}

theorem EventMetadata.deserialize_same (same : metadata.toJson.Same other) :
    ∃ fields decoded, other = .object fields ∧ deserialize fields = .ok decoded ∧
      decoded.commandMetadata = metadata.commandMetadata := by
  obtain ⟨right, ho, hr⟩ := same.object_right
  obtain ⟨found, ha, hq⟩ := lookup_related hr
      (show Json.lookup _ "annotations" = some (.object metadata.annotations) by simp [Json.lookup_cons])
  obtain ⟨annotations, hs, _⟩ := hq.object_right
  have he : present right "annotations" toMap = .ok (some annotations) := by
    apply present_some ha
    rw [hs]
    rfl
  have hc : present right "command_metadata" (toOption CommandMetadata.deserialize) =
      .ok (some metadata.commandMetadata) := by
    apply present_related hr (show Json.lookup _ "command_metadata" =
      some ((metadata.commandMetadata.map CommandMetadata.toJson).getD .null) by simp [Json.lookup_cons])
    intro other same
    cases held : metadata.commandMetadata with
    | none =>
      rw [held] at same
      rw [Json.Same.null_right same]
      rfl
    | some details =>
      rw [held] at same
      have decoded := CommandMetadata.deserialize_same same
      obtain ⟨fields, ho, _⟩ := Json.Same.object_right same
      rw [ho] at decoded ⊢
      simp only [toOption, decoded]
      rfl
  refine ⟨right, ⟨metadata.commandMetadata, annotations⟩, ho, ?_, rfl⟩
  rw [deserialize, he, hc]
  rfl

namespace EventEnvelope

variable {obj : List (String × Json)}

theorem fromFields_without_version (hm : Json.lookup obj "version" = none) :
    fromFields obj = .error (.missingEnvelopeField "version") := by
  rw [fromFields, envelopeU64, hm]
  rfl

variable {env : EventEnvelope}

theorem fromFields_nonzero (hd : fromFields obj = .ok env) : env.sequence ≠ 0 := by
  obtain ⟨ver, _, rest⟩ := bind_eq_ok.mp hd
  dsimp only at rest
  by_cases hl : ver > 255
  · rw [if_pos hl] at rest
    cases rest
  rw [if_neg hl] at rest
  obtain ⟨inst, _, rest⟩ := bind_eq_ok.mp rest
  obtain ⟨seq, _, rest⟩ := bind_eq_ok.mp rest
  obtain ⟨timestampMs, _, rest⟩ := bind_eq_ok.mp rest
  obtain ⟨body, _, rest⟩ := bind_eq_ok.mp rest
  obtain ⟨_, _, rest⟩ := bind_eq_ok.mp rest
  obtain ⟨metadata, _, rest⟩ := bind_eq_ok.mp rest
  by_cases hu : inst = ""
  · rw [if_pos hu] at rest
    cases rest
  by_cases zero : seq = 0
  · rw [if_neg hu, if_pos zero] at rest
    cases rest
  rw [if_neg hu, if_neg zero] at rest
  split_ifs at rest
  · cases rest
  · cases rest
    exact zero

theorem fromFields_eq {ver sequence timestampMs : UInt64} {inst : String} {payload : Json}
    (hv : envelopeU64 obj "version" = .ok ver) (hi : envelopeString obj "instance_id" = .ok inst)
    (hs : envelopeU64 obj "sequence" = .ok sequence) (ht : envelopeU64 obj "timestamp_ms" = .ok timestampMs)
    (hp : Json.lookup obj "payload" = some payload) (hm : envelopeMetadata obj = .ok metadata) (ha : ¬ ver > 255)
    (hu : ¬ ver.toUInt8 > maxSupportedVersion) (hd : inst ≠ "") (hn : sequence ≠ 0) :
    fromFields obj = if payload.asObject.isSome then
        .ok { schemaVersion := ver.toUInt8, instanceId := inst, sequence, timestampMs, payload, metadata }
      else .error (.invalidEnvelopeField "payload") := by
  rw [fromFields, hv, hi, hs, ht, hp, hm]
  cases hh : payload.asObject with
  | none => simp [bind, Except.bind, Option.okOr, hh, ha]
  | some content =>
    simp [bind, Except.bind, Option.okOr, hh, ha, hu, hd, hn, pure, Except.pure]

theorem fromBytes_object [JsonCodec] :
    ∃ right, (∀ name, Option.Rel Json.Same (Json.lookup fields name) (Json.lookup right name)) ∧
      fromBytes (JsonCodec.bytes (.object fields)) = fromFields right := by
  obtain ⟨text, other, hp, ha, same⟩ := JsonCodec.toVec_ok (.object fields)
  obtain ⟨right, ho, hr⟩ := same.object_right
  rw [JsonCodec.toVec_eq] at hp
  refine ⟨right, hr, ?_⟩
  rw [Except.ok.inj hp, fromBytes, fromUtf8_utf8]
  show fromStr text = fromFields right
  rw [fromStr, ha, ho]
  rfl

theorem fromBytes_nonzero [JsonCodec] {input : Bytes} (hd : fromBytes input = .ok env) : env.sequence ≠ 0 := by
  obtain ⟨text, _, rest⟩ := bind_eq_ok.mp hd
  obtain ⟨value, _, rest⟩ := bind_eq_ok.mp rest
  obtain ⟨obj, _, rest⟩ := bind_eq_ok.mp rest
  exact fromFields_nonzero rest

end EventEnvelope

end

end Veloxide
