import Veloxide.Ipc.Envelope
import Veloxide.Types.Envelope

namespace Veloxide.Executor

open ByteCodec Stateful Serde List

/-! The engine's end of the two pipes. -/

structure Fd3Envelope where
  version : UInt8
  instanceId : String
  nodeId : String
  input : Json
  secrets : List (String × String)
  metadata : List (String × String)

structure TaskError where
  code : String
  message : String
  details : Option Json

structure EffectIntentEnvelope where
  effectKind : String
  params : Json
  connectorId : String

inductive TaskResult
  | success (output : Json)
  | failure (error : TaskError)
  | effectIntent (intent : EffectIntentEnvelope)

structure Fd4Envelope where
  version : UInt8
  instanceId : String
  nodeId : String
  result : TaskResult

variable (value : Json)

section

def mapJson (entries : List (String × String)) : Json := .object (entries.map fun entry => (entry.1, .string entry.2))

def Fd3Envelope.toJson (envelope : Fd3Envelope) : Json :=
  .object [("version", Json.u64 envelope.version.toUInt64), ("instance_id", .string envelope.instanceId),
    ("node_id", .string envelope.nodeId), ("input", envelope.input), ("secrets", mapJson envelope.secrets),
    ("metadata", mapJson envelope.metadata)]

def decodeTaskError : Except String TaskError := do
  let fields ← record "TaskError" ["code", "message", "details"] value
  let code ← present fields "code" toStr
  let message ← present fields "message" toStr
  let details ← present fields "details" (toOption .ok)
  let code ← code.okOr (missingField "code")
  let message ← message.okOr (missingField "message")
  return { code, message, details := details.getD none }

def decodeIntent : Except String EffectIntentEnvelope := do
  let fields ← record "EffectIntentEnvelope" ["effect_kind", "params", "connector_id"] value
  let effectKind ← present fields "effect_kind" toStr
  let params ← present fields "params" .ok
  let connectorId ← present fields "connector_id" toStr
  let effectKind ← effectKind.okOr (missingField "effect_kind")
  let params ← params.okOr (missingField "params")
  let connectorId ← connectorId.okOr (missingField "connector_id")
  return { effectKind, params, connectorId }

def decodeVariant (name : String) (content : Json) : Except String TaskResult :=
  if name = "success" then do
    let fields ← record "variant TaskResult::Success" ["output"] content
    let output ← required fields "output" .ok
    return .success output
  else if name = "failure" then do
    let fields ← record "variant TaskResult::Failure" ["error"] content
    let error ← required fields "error" decodeTaskError
    return .failure error
  else if name = "effect_intent" then do
    let fields ← record "variant TaskResult::EffectIntent" ["intent"] content
    let intent ← required fields "intent" decodeIntent
    return .effectIntent intent
  else .error (unknownVariant ["success", "failure", "effect_intent"] name)

def decodeTaskResult : Except String TaskResult :=
  match value with
  | .object [(name, content)] => decodeVariant name content
  | .string name =>
    if name ∈ ["success", "failure", "effect_intent"] then
      .error "invalid type: unit variant, expected struct variant"
    else .error (unknownVariant ["success", "failure", "effect_intent"] name)
  | _ => .error "expected value"

def Fd4Envelope.decode : Except String Fd4Envelope := do
  let fields ← record "Fd4Envelope" ["version", "instance_id", "node_id", "result"] value
  let version ← present fields "version" toU8
  let instanceId ← present fields "instance_id" toStr
  let nodeId ← present fields "node_id" toStr
  let result ← present fields "result" decodeTaskResult
  let version ← version.okOr (missingField "version")
  let instanceId ← instanceId.okOr (missingField "instance_id")
  let nodeId ← nodeId.okOr (missingField "node_id")
  let result ← result.okOr (missingField "result")
  return { version, instanceId, nodeId, result }

end

inductive RunError
  | fd3WriteFailed (detail : String)
  | fd4ReadFailed (detail : String)
  | processFailed (exitCode : Int)

def RunError.toText : RunError → String
  | fd3WriteFailed detail => s!"failed to write fd3 payload: {detail}"
  | fd4ReadFailed detail => s!"failed to read fd4 payload: {detail}"
  | processFailed exitCode => s!"subprocess exited with code {exitCode}"

inductive HeaderStop
  | io (detail : String)
  | eof (totalRead : Nat)

section

def fd3Stream (payload : Bytes) : Except String Bytes :=
  if 2 ^ 32 ≤ payload.length then .error "fd3 payload exceeds u32::MAX"
  else if Ipc.maxPayloadSize < payload.length then .error s!"fd3 payload too large: {payload.length} bytes"
  else .ok (Ipc.frame payload)

variable {σ : Type} [ByteReader σ]

def readFd4 : Stateful σ String Bytes := do
  let header ← attempt (ByteReader.fill HeaderStop.io HeaderStop.eof (fun missing => missing) 4 [])
  match header with
  | .error (.io detail) => fail detail
  | .error (.eof totalRead) => if totalRead = 0 then pure [] else fail "early eof"
  | .ok header =>
    let len := beNat header
    if Ipc.maxPayloadSize < len then fail s!"fd4 payload too large: {len} bytes"
    else ByteReader.fill (fun detail => detail) (fun _ => "early eof") (fun missing => missing) len []

/-- Both pipes are served before either outcome is looked at; an exit code of zero is success. -/
def performIpc (fd3Payload : Bytes) (exitCode : Int) : Stateful σ RunError Bytes := do
  let received ← attempt readFd4
  let _ ← lift ((fd3Stream fd3Payload).mapError .fd3WriteFailed)
  let fd4Bytes ← lift (received.mapError .fd4ReadFailed)
  if exitCode = 0 then pure fd4Bytes else fail (.processFailed exitCode)

end

inductive SubprocessKind
  | pure
  | unsafeNode
  | managedEffect

inductive StepResult
  | success (output : String)
  | failure (output : String)
  | effectIntent (effectKind params connectorId : String)

inductive ExecuteNodeError
  | transientError (reason : String) (recoverable : Bool)
  | dispatchIpc (detail : String)
  | dispatchMismatch (nodeKind expected got : String)

structure Dispatch where
  instanceId : String
  nodeId : String
  input : Json
  secrets : List (String × String)
  metadata : List (String × String)

def Dispatch.fd3 (dispatch : Dispatch) : Fd3Envelope :=
  ⟨1, dispatch.instanceId, dispatch.nodeId, dispatch.input, dispatch.secrets, dispatch.metadata⟩

section

variable [JsonCodec]

def valueText (value : Json) : String := (JsonCodec.toText value).toOption.getD ""

def interpretResult (kind : SubprocessKind) (envelope : Fd4Envelope) : Except ExecuteNodeError StepResult :=
  match envelope.result, kind with
  | .success output, .pure | .success output, .unsafeNode => .ok (.success (valueText output))
  | .failure error, .pure | .failure error, .unsafeNode | .failure error, .managedEffect =>
    .ok (.failure error.message)
  | .effectIntent intent, .managedEffect =>
    .ok (.effectIntent intent.effectKind (valueText intent.params) intent.connectorId)
  | .effectIntent _, .pure => .error (.dispatchMismatch "pure" "success_or_failure" "effect_intent")
  | .effectIntent _, .unsafeNode => .error (.dispatchMismatch "unsafe" "success_or_failure" "effect_intent")
  | .success _, .managedEffect => .error (.dispatchMismatch "managed_effect" "effect_intent_or_failure" "success")

def parseFd4 (fd4Bytes : Bytes) : Except ExecuteNodeError Fd4Envelope :=
  (JsonCodec.ofSlice fd4Bytes >>= Fd4Envelope.decode).mapError fun failure => .dispatchIpc s!"fd4 parse: {failure}"

def runFailure : RunError → ExecuteNodeError
  | .processFailed exitCode => .transientError s!"process exited with code {exitCode}" false
  | other => .dispatchIpc s!"subprocess: {other.toText}"

def sentOnFd3 (dispatch : Dispatch) : Except String Bytes := do
  let payload ← JsonCodec.toVec dispatch.fd3.toJson
  fd3Stream payload

def dispatchSubprocess {σ : Type} [ByteReader σ] (kind : SubprocessKind) (dispatch : Dispatch) (exitCode : Int) :
    Stateful σ ExecuteNodeError StepResult := do
  let fd3Payload ← lift ((JsonCodec.toVec dispatch.fd3.toJson).mapError fun failure =>
    .dispatchIpc s!"fd3 serialize: {failure}")
  let fd4Bytes ← mapError runFailure (performIpc fd3Payload exitCode)
  let fd4 ← lift (parseFd4 fd4Bytes)
  lift (interpretResult kind fd4)

end

/-! The task's end, in the SDK. -/

inductive SdkError
  | invalidInput
  | fdNotOpen
  | alreadyWritten
  | writeError
deriving DecidableEq

inductive TaskFailureKind
  | user
  | system
  | timeout

def TaskFailureKind.asStr : TaskFailureKind → String
  | user => "User"
  | system => "System"
  | timeout => "Timeout"

structure TaskInput where
  idempotencyKey : IdempotencyKey
  data : Json
  secrets : List (String × String)

structure TaskInputEnvelope where
  idempotencyKey : String
  data : Json
  secrets : List (String × String)

def TaskInputEnvelope.parse (envelope : TaskInputEnvelope) : Option TaskInput :=
  (Text.parse IdempotencyKey.validate envelope.idempotencyKey).toOption.map fun key =>
    ⟨key, envelope.data, envelope.secrets⟩

def decodeSecrets : Except String (List (String × String)) := do
  let fields ← toMap value
  fields.mapM fun field => (toStr field.2).map (Prod.mk field.1)

def TaskInputEnvelope.decode : Except String TaskInputEnvelope := do
  let fields ← recordWithDefaults "TaskInputEnvelope" ["idempotency_key", "data", "secrets"] 2 value
  let idempotencyKey ← present fields "idempotency_key" toStr
  let data ← present fields "data" .ok
  let secrets ← present fields "secrets" decodeSecrets
  let idempotencyKey ← idempotencyKey.okOr (missingField "idempotency_key")
  let data ← data.okOr (missingField "data")
  return { idempotencyKey, data, secrets := secrets.getD [] }

def maxOutputSize : Nat := 10 * 1024 * 1024

def maxInputSize : Nat := 10 * 1024 * 1024

def maxMessageBytes : Nat := 1024

section

variable [JsonCodec]

def writeSuccessInner (output : Json) : Except SdkError Bytes := do
  let bytes ← (JsonCodec.toVec (.object [("status", .string "success"), ("output", output)])).mapError fun _ =>
    .writeError
  if maxOutputSize < bytes.length then throw .writeError
  return Ipc.frame bytes

def writeFailureInner (kind : TaskFailureKind) (message : String) : Except SdkError Bytes := do
  if maxMessageBytes < (utf8 message).length then throw .invalidInput
  let bytes ← (JsonCodec.toVec (mapJson [("status", "failure"), ("kind", kind.asStr),
    ("message", message)])).mapError fun _ => .writeError
  return Ipc.frame bytes

def parseEnvelope (buf : Bytes) : Except SdkError TaskInput := do
  let json ← (fromUtf8 buf).okOr .invalidInput
  let env ← (JsonCodec.ofText json >>= TaskInputEnvelope.decode).mapError fun _ => .invalidInput
  env.parse.okOr .invalidInput

def readInputInner (stream : Bytes) : Except SdkError TaskInput :=
  let buf := stream.take (maxInputSize + 1)
  if buf.length = 0 then .error .invalidInput
  else if maxInputSize < buf.length then .error .invalidInput
  else parseEnvelope buf

end

section

variable {stream payload : Bytes}

theorem fd3Stream_ok (sent : fd3Stream payload = .ok stream) :
    payload.length ≤ Ipc.maxPayloadSize ∧ stream = Ipc.frame payload := by
  rw [fd3Stream] at sent
  split_ifs at sent with huge large
  cases sent
  exact ⟨Nat.not_lt.mp large, rfl⟩

theorem frame_head (hs : payload.length ≤ Ipc.maxPayloadSize) : ∃ rest, Ipc.frame payload = 0 :: rest := by
  have zero : payload.length / 256 ^ 3 % 256 = 0 := by
    rw [Nat.div_eq_of_lt (Nat.lt_of_le_of_lt hs (by decide)), Nat.zero_mod]
  refine ⟨beBytes 3 payload.length ++ payload, ?_⟩
  rw [Ipc.frame, beBytes, Radix.digits, zero]
  rfl

variable [JsonCodec] [JsonCodec.RefusesNul] (rest : Bytes)

theorem parseEnvelope_nul : parseEnvelope (0 :: rest) = .error .invalidInput := by
  rw [parseEnvelope]
  cases read : fromUtf8 (0 :: rest) with
  | none => rfl
  | some text =>
    obtain ⟨c, chars, same, nul⟩ := head_of_utf8_ascii (utf8_fromUtf8 read) (by decide)
    obtain ⟨err, hr⟩ := JsonCodec.RefusesNul.refused c chars nul
    rw [← same] at hr
    show ((JsonCodec.ofText text >>= TaskInputEnvelope.decode).mapError (fun _ => SdkError.invalidInput) >>= _) = _
    rw [hr]
    rfl

theorem readInputInner_nul : readInputInner (0 :: rest) = .error .invalidInput := by
  rw [readInputInner]
  split
  · rfl
  · split
    · rfl
    · exact parseEnvelope_nul (rest.take maxInputSize)

variable {dispatch : Dispatch}

omit [JsonCodec.RefusesNul] in
theorem sentOnFd3_ok (sent : sentOnFd3 dispatch = .ok stream) :
    ∃ payload, JsonCodec.toVec dispatch.fd3.toJson = .ok payload ∧ fd3Stream payload = .ok stream :=
  Except.bind_eq_ok.mp sent

theorem readInputInner_sent (sent : sentOnFd3 dispatch = .ok stream) :
    readInputInner stream = .error .invalidInput := by
  obtain ⟨payload, _, hf⟩ := sentOnFd3_ok sent
  obtain ⟨hs, rfl⟩ := fd3Stream_ok hf
  obtain ⟨rest, head⟩ := frame_head hs
  rw [head]
  exact readInputInner_nul rest

end

section

open PiecewiseReader

variable {σ : Type} [PiecewiseReader σ] {reader : σ} {payload rest : Bytes}

theorem fill_header {header : Bytes} (hh : remaining reader = header ++ rest) (hl : header.length = 4) :
    ∃ after, (ByteReader.fill HeaderStop.io HeaderStop.eof (fun missing => missing) 4 []).run reader =
      (.ok header, after) ∧ remaining after = rest :=
  ByteReader.fill_complete (fun _ hp => ⟨hp, Nat.le_refl _⟩) hh (by simpa using hl)

theorem fill_payload (hh : remaining reader = payload) :
    ∃ after, (ByteReader.fill (fun detail => detail) (fun _ => "early eof") (fun missing => missing)
      payload.length []).run reader = (.ok payload, after) := by
  rw [← payload.append_nil] at hh
  obtain ⟨after, ran, _⟩ := @ByteReader.fill_complete σ String _ (fun detail => detail) (fun _ => "early eof") _
    (fun _ hp => ⟨hp, Nat.le_refl _⟩) _ [] payload [] reader hh (Nat.zero_add _)
  exact ⟨after, ran⟩

theorem readFd4_frame (hs : payload.length ≤ Ipc.maxPayloadSize) (ho : remaining reader = Ipc.frame payload) :
    ∃ after, readFd4.run reader = (.ok payload, after) := by
  have length : beNat (beBytes 4 payload.length) = payload.length :=
    beNat_beBytes_of_lt (Nat.lt_of_le_of_lt hs (by decide))
  obtain ⟨middle, hh, left⟩ := fill_header ho (length_beBytes 4 payload.length)
  obtain ⟨after, body⟩ := fill_payload left
  refine ⟨after, ?_⟩
  rw [readFd4, bind_ok (attempt_run hh)]
  simp only [length, if_neg (Nat.not_lt.mpr hs)]
  exact body

variable {fd3Payload stream : Bytes}

theorem performIpc_frame (sent : fd3Stream fd3Payload = .ok stream) (hs : payload.length ≤ Ipc.maxPayloadSize)
    (hh : remaining reader = Ipc.frame payload) :
    ∃ after, (performIpc fd3Payload 0).run reader = (.ok payload, after) := by
  obtain ⟨after, read⟩ := readFd4_frame hs hh
  refine ⟨after, ?_⟩
  rw [performIpc, bind_ok (attempt_run read), sent]
  rfl

variable {fields : List (String × Json)}

theorem decode_unversioned (hm : Json.lookup fields "version" = none) (envelope : Fd4Envelope) :
    Fd4Envelope.decode (.object fields) ≠ .ok envelope := by
  intro hd
  simp only [Fd4Envelope.decode, record, Except.bind_eq_ok] at hd
  obtain ⟨_, same, _, read, _, _, _, _, _, _, _, hv, _⟩ := hd
  cases same
  rw [Option.okOr_eq_ok.mp hv] at read
  obtain ⟨_, hf, _⟩ := exists_of_present read
  rw [hm] at hf
  cases hf

variable [JsonCodec]

theorem parseFd4_unversioned (hm : Json.lookup fields "version" = none) :
    ∃ detail, parseFd4 (JsonCodec.bytes (.object fields)) = .error (.dispatchIpc detail) := by
  obtain ⟨value, hp, same⟩ := JsonCodec.ofSlice_bytes (.object fields)
  obtain ⟨right, rfl, hr⟩ := same.object_right
  rw [parseFd4, hp]
  cases hd : Fd4Envelope.decode (.object right) with
  | ok env => exact absurd hd (decode_unversioned (lookup_none_related hr hm) env)
  | error failure =>
    refine ⟨s!"fd4 parse: {failure}", ?_⟩
    show (Fd4Envelope.decode (.object right)).mapError _ = _
    rw [hd]
    rfl

variable {dispatch : Dispatch}

theorem dispatchSubprocess_unversioned (kind : SubprocessKind) (sent : sentOnFd3 dispatch = .ok stream)
    (hm : Json.lookup fields "version" = none) (ha : (JsonCodec.bytes (.object fields)).length ≤ Ipc.maxPayloadSize)
    (hh : remaining reader = Ipc.frame (JsonCodec.bytes (.object fields))) :
    ∃ detail, ((dispatchSubprocess kind dispatch 0).run reader).1 = .error (.dispatchIpc detail) := by
  obtain ⟨fd3Payload, hs, hf⟩ := sentOnFd3_ok sent
  obtain ⟨after, hr⟩ := performIpc_frame hf ha hh
  obtain ⟨detail, he⟩ := parseFd4_unversioned hm
  have payload : (lift ((JsonCodec.toVec dispatch.fd3.toJson).mapError fun failure =>
      ExecuteNodeError.dispatchIpc s!"fd3 serialize: {failure}")).run reader = (.ok fd3Payload, reader) := by
    rw [hs]
    rfl
  refine ⟨detail, ?_⟩
  rw [dispatchSubprocess, bind_ok payload, bind_ok (mapError_ok hr), he]
  rfl

end

section

variable [JsonCodec] {frame : Bytes}

theorem writeSuccessInner_ok {output : Json} (hw : writeSuccessInner output = .ok frame) :
    let envelope := JsonCodec.bytes (.object [("status", .string "success"), ("output", output)])
    envelope.length ≤ Ipc.maxPayloadSize ∧ frame = Ipc.frame envelope := by
  rw [writeSuccessInner, JsonCodec.toVec_eq] at hw
  obtain ⟨bytes, same, hw⟩ := Except.bind_eq_ok.mp hw
  cases same
  by_cases hl : maxOutputSize < (JsonCodec.bytes (.object [("status", .string "success"), ("output", output)])).length
  · rw [if_pos hl] at hw
    cases hw
  · rw [if_neg hl] at hw
    cases hw
    exact ⟨Nat.not_lt.mp hl, rfl⟩

theorem writeFailureInner_ok [JsonCodec.ShortStrings] {kind : TaskFailureKind} {message : String}
    (hw : writeFailureInner kind message = .ok frame) :
    let envelope := JsonCodec.bytes (mapJson [("status", "failure"), ("kind", kind.asStr), ("message", message)])
    envelope.length ≤ Ipc.maxPayloadSize ∧ frame = Ipc.frame envelope := by
  rw [writeFailureInner] at hw
  by_cases long : maxMessageBytes < (utf8 message).length
  · rw [if_pos long] at hw
    cases hw
  · rw [if_neg long, JsonCodec.toVec_eq] at hw
    cases hw
    refine ⟨?_, rfl⟩
    have hb := JsonCodec.ShortStrings.length_le [("status", "failure"), ("kind", kind.asStr), ("message", message)]
    have hs : (utf8 "status").length = 6 := by decide +kernel
    have hf : (utf8 "failure").length = 7 := by decide +kernel
    have hk : (utf8 "kind").length = 4 := by decide +kernel
    have hm : (utf8 "message").length = 7 := by decide +kernel
    have hh : (utf8 kind.asStr).length ≤ 7 := by
      cases kind <;> decide +kernel
    simp only [map_cons, map_nil, sum_cons, sum_nil, hs, hf, hk, hm] at hb
    rw [maxMessageBytes] at long
    refine Nat.le_trans hb ?_
    rw [Ipc.maxPayloadSize]
    omega

end

/-- Neither end of the protocol reads what the other one writes. -/
theorem task_protocol_never_agrees {σ : Type} [PiecewiseReader σ] [JsonCodec] [JsonCodec.RefusesNul]
    [JsonCodec.ShortStrings] (dispatch : Dispatch) (stream : Bytes) (within : sentOnFd3 dispatch = .ok stream) :
    readInputInner stream = .error .invalidInput ∧
    ∀ (kind : SubprocessKind) (frame : Bytes) (reader : σ), PiecewiseReader.remaining reader = frame →
      (∀ output, writeSuccessInner output = .ok frame →
        ∃ detail, ((dispatchSubprocess kind dispatch 0).run reader).1 = .error (.dispatchIpc detail)) ∧
      (∀ failure message, writeFailureInner failure message = .ok frame →
        ∃ detail, ((dispatchSubprocess kind dispatch 0).run reader).1 = .error (.dispatchIpc detail)) := by
  refine ⟨readInputInner_sent within, fun kind frame reader hh => ⟨fun output hw => ?_, ?_⟩⟩
  · obtain ⟨hs, same⟩ := writeSuccessInner_ok hw
    exact dispatchSubprocess_unversioned kind within rfl hs (hh.trans same)
  · intro failure message hw
    obtain ⟨hs, same⟩ := writeFailureInner_ok hw
    exact dispatchSubprocess_unversioned kind within rfl hs (hh.trans same)

section Sample

attribute [local instance] Json.Text.codec Json.Text.codec_refusesNul Json.Text.codec_shortStrings

def sampleDispatch : Dispatch := ⟨"order", "pack", .string "box", [("token", "t")], []⟩

def sampleStream : Bytes := Ipc.frame (JsonCodec.bytes sampleDispatch.fd3.toJson)

def sampleFrame : Bytes :=
  Ipc.frame (JsonCodec.bytes (.object [("status", .string "success"), ("output", .bool true)]))

theorem sampleStream_sent : sentOnFd3 sampleDispatch = .ok sampleStream := by decide +kernel

theorem sampleFrame_written : writeSuccessInner (.bool true) = .ok sampleFrame := by decide +kernel

theorem task_protocol_never_agrees_sample :
    sentOnFd3 sampleDispatch = .ok sampleStream ∧ readInputInner sampleStream = .error .invalidInput ∧
      writeSuccessInner (.bool true) = .ok sampleFrame ∧
        ∃ detail, ((dispatchSubprocess .pure sampleDispatch 0).run (Ipc.ByteTrickle.mk sampleFrame)).1 =
          .error (.dispatchIpc detail) := by
  obtain ⟨hr, he⟩ := @task_protocol_never_agrees Ipc.ByteTrickle _ _ _ _ sampleDispatch _ sampleStream_sent
  exact ⟨sampleStream_sent, hr, sampleFrame_written, (he .pure _ ⟨_⟩ rfl).1 _ sampleFrame_written⟩

/-- A dispatch whose envelope the task does not read, and an output that the engine does not take. -/
theorem task_protocol_refuses : sentOnFd3 sampleDispatch = .ok sampleStream ∧
    (¬ ∃ input, readInputInner sampleStream = .ok input ∧ input.data = sampleDispatch.input ∧
      input.secrets = sampleDispatch.secrets) ∧ writeSuccessInner (.bool true) = .ok sampleFrame ∧
    ((dispatchSubprocess .pure sampleDispatch 0).run (Ipc.ByteTrickle.mk sampleFrame)).1 ≠
      .ok (.success (valueText (.bool true))) := by
  refine ⟨sampleStream_sent, fun ha => ?_, sampleFrame_written, fun ht => ?_⟩
  · obtain ⟨input, read, _⟩ := ha
    rw [readInputInner_sent sampleStream_sent] at read
    cases read
  · obtain ⟨hs, _⟩ := writeSuccessInner_ok sampleFrame_written
    have hh : PiecewiseReader.remaining (Ipc.ByteTrickle.mk sampleFrame) = sampleFrame := rfl
    obtain ⟨detail, hr⟩ := dispatchSubprocess_unversioned .pure sampleStream_sent rfl hs hh
    rw [hr] at ht
    cases ht

end Sample

end Veloxide.Executor
