import Veloxide.Library.Serde
import Veloxide.Library.Ulid

namespace Veloxide

open ByteCodec Except

inductive ParseError
  | empty (typeName : String)
  | invalidCharacters (typeName invalidChars : String)
  | invalidFormat (typeName reason : String)
  | exceedsMaxLength (typeName : String) (max actual : Nat)
  | boundaryViolation (typeName reason : String)
  | consecutiveHyphens (typeName : String)
  | consecutiveSeparators (typeName : String)
  | notAnInteger (typeName input : String)
  | zeroValue (typeName : String)
  | outOfRange (typeName : String) (value min max : UInt64)
  | internalError (reason : String)
deriving DecidableEq

namespace ParseError

def toText : ParseError → String
  | empty typeName => s!"{typeName}: value must not be empty"
  | invalidCharacters typeName invalidChars => s!"{typeName}: invalid characters: {Serde.debugText invalidChars}"
  | invalidFormat typeName reason => s!"{typeName}: invalid format: {reason}"
  | exceedsMaxLength typeName max actual => s!"{typeName}: exceeds maximum length of {max} (got {actual})"
  | boundaryViolation typeName reason => s!"{typeName}: {reason}"
  | consecutiveHyphens typeName => s!"{typeName}: consecutive hyphens not permitted"
  | consecutiveSeparators typeName =>
    s!"{typeName}: consecutive underscores or mixed separators not permitted"
  | notAnInteger typeName input => s!"{typeName}: not a valid unsigned integer: {input}"
  | zeroValue typeName => s!"{typeName}: value must not be zero"
  | outOfRange typeName value min max =>
    s!"{typeName}: value {value} is out of range (must be {min}..={max})"
  | internalError reason => s!"internal error: {reason}"

end ParseError

/-- A string that a validator accepts: the newtypes built by `parse`. -/
structure Text (validate : String → Except ParseError Unit) where
  value : String
  valid : validate value = .ok ()
deriving DecidableEq

namespace Text

variable {validate : String → Except ParseError Unit}

@[ext] theorem ext {left right : Text validate} (same : left.value = right.value) : left = right := by
  cases left
  cases right
  cases same
  rfl

/-- The derived order, that of the strings. -/
instance : Ord (Text validate) := ⟨fun left right => compare left.value right.value⟩

instance : Std.TransOrd (Text validate) where
  eq_swap {left right} := (Std.OrientedOrd.eq_swap : compare left.value right.value = _)
  isLE_trans {left middle right} := (Std.TransCmp.isLE_trans :
    (compare left.value middle.value).isLE → (compare middle.value right.value).isLE → _)

instance : Std.LawfulEqOrd (Text validate) where
  compare_self := Std.ReflCmp.compare_self
  eq_of_compare same := ext (Std.LawfulEqOrd.eq_of_compare same)

def parse (validate : String → Except ParseError Unit) (input : String) : Except ParseError (Text validate) :=
  match valid : validate input with
  | .ok () => .ok ⟨input, valid⟩
  | .error failure => .error failure

theorem parse_value (text : Text validate) : parse validate text.value = .ok text := by
  have hv := text.valid
  unfold parse
  split
  · rfl
  · rename_i failure hr
    rw [hv] at hr
    contradiction

theorem parse_eq_ok {input : String} {text : Text validate} : parse validate input = .ok text ↔ input = text.value := by
  constructor
  · intro hp
    unfold parse at hp
    split at hp
    · cases hp
      rfl
    · cases hp
  · intro same
    rw [same, parse_value]

end Text

section

def isAsciiAlphanumeric (c : Char) : Bool := c.isAlpha || c.isDigit

def isIdentifierChar (c : Char) : Bool := isAsciiAlphanumeric c || c == '-' || c == '_'

def isLowercaseHex (c : Char) : Bool := c.isDigit || ('a' ≤ c && c ≤ 'f')

def extractInvalidChars (input : String) (isValid : Char → Bool) : String :=
  String.ofList (input.toList.filter fun c => !isValid c)

def requireCharacters (typeName : String) (isValid : Char → Bool) (input : String) : Except ParseError Unit :=
  let invalid := extractInvalidChars input isValid
  if invalid ≠ "" then .error (.invalidCharacters typeName invalid) else .ok ()

def requireMaxLength (typeName : String) (max : Nat) (input : String) : Except ParseError Unit :=
  if input.length > max then .error (.exceedsMaxLength typeName max input.length) else .ok ()

def checkIdentifierBoundaries (input typeName : String) : Except ParseError Unit :=
  match input.toList.head?, input.toList.getLast? with
  | some '-', _ => .error (.boundaryViolation typeName "must not start with hyphen")
  | _, some '-' => .error (.boundaryViolation typeName "must not end with hyphen")
  | _, some '_' => .error (.boundaryViolation typeName "must not end with underscore")
  | _, _ => .ok ()

def StepId.validate (input : String) : Except ParseError Unit := do
  if input = "" then throw (.invalidCharacters "StepId" "")
  requireCharacters "StepId" isIdentifierChar input
  checkIdentifierBoundaries input "StepId"
  if input.toList.head? = some '_' then
    throw (.boundaryViolation "StepId" "must not start with underscore")

def IdempotencyKey.validate (input : String) : Except ParseError Unit := do
  if input = "" then throw (.empty "IdempotencyKey")
  requireMaxLength "IdempotencyKey" 1024 input
  requireCharacters "IdempotencyKey" isIdentifierChar input

def TimerId.validate (input : String) : Except ParseError Unit := do
  if input = "" then throw (.empty "TimerId")
  requireMaxLength "TimerId" 256 input
  requireCharacters "TimerId" isIdentifierChar input

def WorkflowVersionHash.validate (input : String) : Except ParseError Unit := do
  if input = "" then throw (.empty "WorkflowVersionHash")
  requireCharacters "WorkflowVersionHash" isLowercaseHex input
  if input.utf8ByteSize % 2 ≠ 0 then throw (.invalidFormat "WorkflowVersionHash" "hex string has odd length")
  if input.utf8ByteSize < 8 then
    throw (.invalidFormat "WorkflowVersionHash" "hex string must be at least 8 characters")

def BinaryHash.validate (input : String) : Except ParseError Unit := do
  if input = "" then throw (.empty "BinaryHash")
  requireCharacters "BinaryHash" isLowercaseHex input
  if input.utf8ByteSize % 2 ≠ 0 then throw (.invalidFormat "BinaryHash" "hex string has odd length")
  if input.utf8ByteSize < 8 then throw (.invalidFormat "BinaryHash" "hex string must be at least 8 characters")

def DedupeKey.validate (input : String) : Except ParseError Unit := do
  if input = "" then throw (.empty "DedupeKey")
  requireMaxLength "DedupeKey" 256 input

abbrev StepId := Text StepId.validate

abbrev IdempotencyKey := Text IdempotencyKey.validate

abbrev TimerId := Text TimerId.validate

abbrev WorkflowVersionHash := Text WorkflowVersionHash.validate

abbrev BinaryHash := Text BinaryHash.validate

abbrev DedupeKey := Text DedupeKey.validate

theorem requireCharacters_eq_ok {typeName input : String} {isValid : Char → Bool} :
    requireCharacters typeName isValid input = .ok () ↔ ∀ c ∈ input.toList, isValid c = true := by
  have hn : extractInvalidChars input isValid = "" ↔ ∀ c ∈ input.toList, isValid c = true := by
    rw [extractInvalidChars, ← String.toList_inj, String.toList_ofList]
    simp
  simp only [requireCharacters]
  split_ifs with invalid
  · exact iff_of_false id (mt hn.mpr invalid)
  · exact iff_of_true rfl (hn.mp (not_not.mp invalid))

namespace StepId

variable (stepId : StepId)

theorem ne_empty : stepId.value ≠ "" := by
  intro he
  have hv := stepId.valid
  rw [he] at hv
  exact absurd hv (by decide)

theorem isIdentifierChar_of_mem : ∀ c ∈ stepId.value.toList, isIdentifierChar c = true := by
  have hv := stepId.valid
  rw [validate, if_neg (ne_empty stepId)] at hv
  obtain ⟨_, hc, _⟩ := bind_eq_ok.mp hv
  exact requireCharacters_eq_ok.mp hc

end StepId

theorem DedupeKey.ne_empty (key : DedupeKey) : key.value ≠ "" := by
  intro he
  have hv := key.valid
  rw [he] at hv
  exact absurd hv (by decide)

theorem DedupeKey.length_le (key : DedupeKey) : key.value.length ≤ 256 := by
  have hv := key.valid
  by_contra long
  rw [validate, if_neg (ne_empty key)] at hv
  simp only [requireMaxLength, if_pos (Nat.lt_of_not_le long)] at hv
  cases hv

end

abbrev FireAtMs := UInt64

structure SequenceNumber where
  value : UInt64
  nonzero : value ≠ 0
deriving DecidableEq

namespace SequenceNumber

@[ext] theorem ext {left right : SequenceNumber} (same : left.value = right.value) : left = right := by
  cases left
  cases right
  cases same
  rfl

def tryFrom (value : UInt64) : Except ParseError SequenceNumber :=
  if zero : value = 0 then .error (.zeroValue "SequenceNumber") else .ok ⟨value, zero⟩

theorem tryFrom_eq_ok {value : UInt64} {seq : SequenceNumber} : tryFrom value = .ok seq ↔ value = seq.value := by
  rw [tryFrom]
  split_ifs with zero
  · simp only [false_iff]
    exact fun same => seq.nonzero (same ▸ zero)
  · rw [Except.ok.injEq, SequenceNumber.ext_iff]

end SequenceNumber

structure FenceToken where
  value : UInt64
  nonzero : value ≠ 0
deriving DecidableEq

namespace FenceToken

def new (value : UInt64) : Except ParseError FenceToken :=
  if zero : value = 0 then .error (.zeroValue "FenceToken") else .ok ⟨value, zero⟩

theorem new_value (token : FenceToken) : new token.value = .ok token := by
  rw [new, dif_neg token.nonzero]

end FenceToken

structure InstanceId [Ulid] where
  text : String
  canonical : ∃ ulid, text = Ulid.toText ulid
deriving DecidableEq

namespace InstanceId

variable [Ulid]

@[ext] theorem ext {left right : InstanceId} (same : left.text = right.text) : left = right := by
  cases left
  cases right
  cases same
  rfl

def ofUlid (ulid : BitVec 128) : InstanceId := ⟨Ulid.toText ulid, ulid, rfl⟩

variable (id : InstanceId)

theorem eq_ofUlid : ∃ ulid, id = ofUlid ulid := by
  obtain ⟨ulid, text⟩ := id.canonical
  exact ⟨ulid, ext text⟩

def parse (input : String) : Except ParseError InstanceId := do
  if input = "" then throw (.empty "InstanceId")
  if input.utf8ByteSize ≠ 26 then
    throw (.invalidFormat "InstanceId" s!"expected 26 characters, got {input.utf8ByteSize}")
  match Ulid.ofText input with
  | .error failure => throw (.invalidFormat "InstanceId" s!"invalid ULID: {failure}")
  | .ok ulid =>
    if ulid = 0 then
      throw (.invalidFormat "InstanceId" "invalid ULID validation: nil value not permitted")
    return ofUlid ulid

/-- Read back as a string that is parsed. -/
def fromJson (value : Json) : Except String InstanceId := do
  let text ← Serde.toStr value
  (parse text).mapError ParseError.toText

def toBytes (id : InstanceId) : Except ParseError Bytes := match Ulid.ofText id.text with
  | .ok ulid => .ok (beBytes 16 ulid.toNat)
  | .error failure => .error (.invalidFormat "InstanceId" s!"cannot convert to bytes: {failure}")

def fromBytes (bytes : Bytes) : InstanceId := ofUlid (BitVec.ofNat 128 (beNat bytes))

def IsNil (id : InstanceId) : Prop := id = ofUlid 0

instance (id : InstanceId) : Decidable id.IsNil := inferInstanceAs (Decidable (id = ofUlid 0))

variable (ulid : BitVec 128)

theorem parse_toText : parse (Ulid.toText ulid) = if ulid = 0 then
      .error (.invalidFormat "InstanceId" "invalid ULID validation: nil value not permitted")
    else .ok (ofUlid ulid) := by
  have size := Ulid.size_toText ulid
  have hn : Ulid.toText ulid ≠ "" := by
    intro he
    rw [he] at size
    exact absurd size (by decide)
  simp only [parse, if_neg hn, size, Ulid.ofText_toText]
  by_cases nil : ulid = 0
  · simp only [nil, ↓reduceIte]
    rfl
  · simp only [nil, ↓reduceIte]
    rfl

variable {input : String}

theorem ulid_of_parse {id : InstanceId} (hp : parse input = .ok id) :
    input.utf8ByteSize = 26 ∧ ∃ ulid, Ulid.ofText input = .ok ulid ∧ ulid ≠ 0 ∧ id = ofUlid ulid := by
  obtain ⟨_, hp⟩ := guard_eq_ok.mp hp
  obtain ⟨size, hp⟩ := guard_eq_ok.mp hp
  refine ⟨not_not.mp size, ?_⟩
  cases read : Ulid.ofText input with
  | error err =>
    rw [read] at hp
    cases hp
  | ok ulid =>
    rw [read] at hp
    obtain ⟨hn, hp⟩ := guard_eq_ok.mp hp
    cases hp
    exact ⟨ulid, rfl, hn, rfl⟩

theorem not_isNil_of_parse {id : InstanceId} (hp : parse input = .ok id) : ¬ id.IsNil := by
  obtain ⟨_, ulid, _, hn, rfl⟩ := ulid_of_parse hp
  intro nil
  exact hn (Ulid.toText_injective (congrArg text nil))

theorem parse_text {id : InstanceId} (hp : ¬ id.IsNil) : parse id.text = .ok id := by
  obtain ⟨ulid, rfl⟩ := id.eq_ofUlid
  have hn : ulid ≠ 0 := by
    intro he
    subst he
    exact hp rfl
  exact (parse_toText ulid).trans (if_neg hn)

theorem fromJson_text {id : InstanceId} (hp : ¬ id.IsNil) : fromJson (.string id.text) = .ok id :=
  bind_eq_ok.mpr ⟨_, rfl, by rw [parse_text hp]; rfl⟩

theorem not_isNil_of_fromJson {id : InstanceId} {value : Json} (read : fromJson value = .ok id) : ¬ id.IsNil := by
  obtain ⟨text, _, hp⟩ := bind_eq_ok.mp read
  exact not_isNil_of_parse (mapError_eq_ok.mp hp)

theorem fromJson_nil {id : InstanceId} (nil : id.IsNil) : ∃ message, fromJson (.string id.text) = .error message := by
  cases read : fromJson (.string id.text) with
  | error message => exact ⟨message, rfl⟩
  | ok other =>
    obtain ⟨text, same, hp⟩ := bind_eq_ok.mp read
    cases same
    have refused := parse_toText 0
    rw [nil, ofUlid, refused] at hp
    cases hp

def bytes (id : InstanceId) : Bytes := id.toBytes.toOption.getD []

theorem bytes_ofUlid : (ofUlid ulid).bytes = beBytes 16 ulid.toNat := by
  simp only [bytes, toBytes, ofUlid, Ulid.ofText_toText]
  rfl

theorem toBytes_eq : id.toBytes = .ok id.bytes := by
  obtain ⟨ulid, rfl⟩ := id.eq_ofUlid
  rw [bytes_ofUlid]
  simp only [toBytes, ofUlid, Ulid.ofText_toText]

@[simp] theorem length_bytes : id.bytes.length = 16 := by
  obtain ⟨ulid, rfl⟩ := id.eq_ofUlid
  rw [bytes_ofUlid, length_beBytes]

theorem bytes_injective {left right : InstanceId} (same : left.bytes = right.bytes) : left = right := by
  obtain ⟨first, rfl⟩ := left.eq_ofUlid
  obtain ⟨second, rfl⟩ := right.eq_ofUlid
  rw [bytes_ofUlid, bytes_ofUlid] at same
  have hn := beBytes_injective (Nat.lt_of_lt_of_le first.isLt (by decide))
    (Nat.lt_of_lt_of_le second.isLt (by decide)) same
  rw [BitVec.eq_of_toNat_eq hn]

theorem eq_of_isPrefix {left right : InstanceId} {rest : Bytes} (hs : left.bytes <+: right.bytes ++ rest) :
    left = right := by
  obtain ⟨tail, same⟩ := hs
  exact bytes_injective (List.append_inj same (by simp)).1

theorem fromBytes_bytes : fromBytes id.bytes = id := by
  obtain ⟨ulid, rfl⟩ := id.eq_ofUlid
  rw [bytes_ofUlid, fromBytes, beNat_beBytes_of_lt (Nat.lt_of_lt_of_le ulid.isLt (by decide))]
  simp

theorem bytes_fromBytes {source : Bytes} (hl : source.length = 16) : (fromBytes source).bytes = source := by
  have hb : beNat source < 2 ^ 128 := by
    have hw := beNat_lt source
    rw [hl] at hw
    exact Nat.lt_of_lt_of_le hw (by decide)
  rw [fromBytes, bytes_ofUlid, BitVec.toNat_ofNat, Nat.mod_eq_of_lt hb, ← hl, beBytes_beNat]

theorem length_text : (utf8 id.text).length = 26 := by
  obtain ⟨ulid, rfl⟩ := id.eq_ofUlid
  rw [length_utf8]
  exact Ulid.size_toText ulid

theorem colon_not_mem_text [Ulid.Alphanumeric] : ':' ∉ id.text.toList := by
  obtain ⟨ulid, hc⟩ := id.canonical
  intro mem
  rw [hc] at mem
  exact absurd (Ulid.Alphanumeric.isAlphanum_toText ulid ':' mem) (by decide)

theorem text_ne_empty : id.text ≠ "" := by
  intro he
  have hl := id.length_text
  rw [he] at hl
  exact absurd hl (by decide)

end InstanceId

end Veloxide
