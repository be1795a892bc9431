import Veloxide.Library.Bytes

open ByteCodec List

variable (c : Char)

namespace Json.Text

def fractional : Bool := c == '.' || c == 'e'

def numeric : Bool := c.isDigit || fractional c || c == '-' || c == '+'

end Json.Text

structure FloatText where
  chars : List Char
  fraction : chars.any Json.Text.fractional = true
  digits : chars.all Json.Text.numeric = true

inductive JsonNumber
  | posInt (value : UInt64)
  | negInt (predecessor : Fin (2 ^ 63))
  | float (text : FloatText)

/-- A JSON value. The fields of an object stand for the map `Json.lookup fields`. -/
inductive Json
  | null
  | bool (value : Bool)
  | number (value : JsonNumber)
  | string (value : String)
  | array (items : List Json)
  | object (fields : List (String × Json))

variable (value : Json)

namespace Json

def lookup (fields : List (String × Json)) (name : String) : Option Json :=
  (fields.find? fun field => field.1 == name).map Prod.snd

def asObject : Json → Option (List (String × Json))
  | object fields => some fields
  | _ => none

def asStr : Json → Option String
  | string value => some value
  | _ => none

def asU64 : Json → Option UInt64
  | number (.posInt value) => some value
  | _ => none

def u64 (value : UInt64) : Json := number (.posInt value)

def isNull : Json → Bool
  | null => true
  | _ => false

@[simp] theorem lookup_nil (name : String) : lookup [] name = none := rfl

theorem lookup_cons (key name : String) (value : Json) (fields : List (String × Json)) :
    lookup ((key, value) :: fields) name = if key = name then some value else lookup fields name := by
  by_cases same : key = name
  · simp [lookup, same]
  · simp [lookup, same]

variable {fields : List (String × Json)}

theorem mem_of_lookup {name : String} {value : Json}
    (hf : lookup fields name = some value) : ∃ field ∈ fields, field.2 = value := by
  obtain ⟨field, mem, same⟩ := Option.map_eq_some_iff.mp hf
  exact ⟨field, mem_of_find?_eq_some mem, same⟩

@[elab_as_elim] theorem induct {motive : Json → Prop} (null : motive null)
    (bool : ∀ value, motive (bool value)) (number : ∀ value, motive (number value))
    (string : ∀ value, motive (string value))
    (array : ∀ items, (∀ item ∈ items, motive item) → motive (array items))
    (object : ∀ fields : List (String × Json), (∀ field ∈ fields, motive field.2) → motive (object fields))
    (value : Json) : motive value := by
  match value with
  | .null => exact null
  | .bool value => exact bool value
  | .number value => exact number value
  | .string value => exact string value
  | .array items => exact array items fun item _ => induct null bool number string array object item
  | .object fields =>
    refine object fields fun field mem => ?_
    have hi := sizeOf_lt_of_mem mem
    have hc : sizeOf field.2 < sizeOf field := by
      cases field
      simp
    exact induct null bool number string array object field.2
termination_by sizeOf value

/-- Equality up to the order in which the fields of an object are listed. -/
inductive Same : Json → Json → Prop
  | null : Same null null
  | bool (value : Bool) : Same (bool value) (bool value)
  | number (value : JsonNumber) : Same (number value) (number value)
  | string (value : String) : Same (string value) (string value)
  | array {left right : List Json} (items : List.Forall₂ Same left right) : Same (array left) (array right)
  | object {left right : List (String × Json)}
      (fields : ∀ name, Option.Rel Same (lookup left name) (lookup right name)) :
      Same (object left) (object right)

theorem Same.refl : Same value value := by
  induction value using Json.induct with
  | null => exact .null
  | bool value => exact .bool value
  | number value => exact .number value
  | string value => exact .string value
  | array items ih => exact .array (forall₂_same.mpr ih)
  | object fields ih =>
    refine .object fun name => ?_
    cases hf : lookup fields name with
    | none => exact .none
    | some value =>
      obtain ⟨field, mem, same⟩ := mem_of_lookup hf
      subst same
      exact .some (ih field mem)

theorem forall₂_trans {first second third : List Json}
    (step : ∀ item ∈ first, ∀ {middle last : Json}, Same item middle → Same middle last → Same item last)
    (left : List.Forall₂ Same first second) (hr : List.Forall₂ Same second third) :
    List.Forall₂ Same first third := by
  induction left generalizing third with
  | nil =>
    cases hr
    exact .nil
  | cons head _ ih =>
    cases hr with
    | cons next rest =>
      exact .cons (step _ mem_cons_self head next)
        (ih (fun item mem => step item (mem_cons_of_mem _ mem)) rest)

theorem rel_trans {first second third : Option Json}
    (step : ∀ value, first = some value → ∀ {middle last : Json}, Same value middle → Same middle last → Same value last)
    (left : Option.Rel Same first second) (hr : Option.Rel Same second third) : Option.Rel Same first third := by
  cases left with
  | none => exact hr
  | some same =>
    cases hr with
    | some next => exact .some (step _ rfl same next)

theorem Same.trans {first second third : Json} (left : Same first second) (hi : Same second third) :
    Same first third := by
  induction first using Json.induct generalizing second third with
  | null =>
    cases left
    exact hi
  | bool value =>
    cases left
    exact hi
  | number value =>
    cases left
    exact hi
  | string value =>
    cases left
    exact hi
  | array items ih =>
    cases left with
    | array he =>
      cases hi with
      | array ha => exact .array (forall₂_trans (fun item mem => ih item mem) he ha)
  | object fields ih =>
    cases left with
    | object hl =>
      cases hi with
      | object hr =>
        refine .object fun name => rel_trans (fun value hf => ?_) (hl name) (hr name)
        obtain ⟨field, mem, rfl⟩ := mem_of_lookup hf
        exact ih field mem

variable {other : Json}

theorem Same.null_right (same : Same .null other) : other = .null := by
  cases same
  rfl

theorem Same.string_right {text : String} (same : Same (.string text) other) : other = .string text := by
  cases same
  rfl

theorem Same.number_right {value : JsonNumber} (same : Same (.number value) other) : other = .number value := by
  cases same
  rfl

theorem Same.numbers_right {numbers : List UInt64} (same : Same (.array (numbers.map u64)) other) :
    other = .array (numbers.map u64) := by
  cases same with
  | array hi =>
    congr 1
    generalize hs : numbers.map u64 = left at hi
    induction hi generalizing numbers with
    | nil => rfl
    | cons hf _ ih =>
      cases numbers with
      | nil => cases hs
      | cons number numbers =>
        cases hs
        rw [hf.number_right, ih rfl]
        rfl

theorem Same.object_right (same : Same (.object fields) other) :
    ∃ right, other = .object right ∧ ∀ name, Option.Rel Same (lookup fields name) (lookup right name) := by
  cases same with
  | object hr => exact ⟨_, rfl, hr⟩

theorem Same.asU64_eq {value : Json} (same : Same value other) : other.asU64 = value.asU64 := by
  cases same <;> rfl

theorem Same.asStr_eq {value : Json} (same : Same value other) : other.asStr = value.asStr := by
  cases same <;> rfl

theorem Same.asObject_isSome {value : Json} (same : Same value other) :
    other.asObject.isSome = value.asObject.isSome := by
  cases same <;> rfl

def structural : Bool := c.isAlphanum || c ∈ ['{', '}', '[', ']', ':', ',', '"', '\\', '.', '+', '-']

inductive Mentions (c : Char) : Json → Prop
  | string {text : String} (member : c ∈ text.toList) : Mentions c (string text)
  | item {items : List Json} {item : Json} (member : item ∈ items) (inside : Mentions c item) : Mentions c (array items)
  | name {fields : List (String × Json)} {field : String × Json} (member : field ∈ fields)
      (inside : c ∈ field.1.toList) : Mentions c (object fields)
  | field {fields : List (String × Json)} {field : String × Json} (member : field ∈ fields)
      (inside : Mentions c field.2) : Mentions c (object fields)

end Json

/-- A JSON printer and parser: what is printed parses back, up to field order. `serde_json` parses
    values of up to 128 levels only, and the law is one of it for those. -/
class JsonCodec where
  toText : Json → Except String String
  ofText : String → Except String Json
  ofText_toText : ∀ value, ∃ text other, toText value = .ok text ∧ ofText text = .ok other ∧ value.Same other

namespace JsonCodec

variable [JsonCodec]

def toVec (value : Json) : Except String Bytes := (toText value).map utf8

def ofSlice (bytes : Bytes) : Except String Json := match fromUtf8 bytes with
  | some text => ofText text
  | none => .error "invalid unicode code point"

theorem toVec_ok : ∃ text other, toVec value = .ok (utf8 text) ∧ ofText text = .ok other ∧ value.Same other := by
  obtain ⟨text, other, hp, ha, same⟩ := ofText_toText value
  exact ⟨text, other, by rw [toVec, hp]; rfl, ha, same⟩

theorem ofSlice_toVec : ∃ bytes other, toVec value = .ok bytes ∧ ofSlice bytes = .ok other ∧ value.Same other := by
  obtain ⟨text, other, hp, ha, same⟩ := toVec_ok value
  exact ⟨utf8 text, other, hp, by rw [ofSlice, fromUtf8_utf8]; exact ha, same⟩

def bytes (value : Json) : Bytes := (toVec value).toOption.getD []

theorem toVec_eq : toVec value = .ok (bytes value) := by
  obtain ⟨text, _, hp, _⟩ := toVec_ok value
  rw [bytes, hp]
  rfl

theorem ofSlice_bytes : ∃ other, ofSlice (bytes value) = .ok other ∧ value.Same other := by
  obtain ⟨written, other, hp, ha, same⟩ := ofSlice_toVec value
  rw [toVec_eq] at hp
  cases hp
  exact ⟨other, ha, same⟩

/-- Printing adds structural characters only. -/
class Structural : Prop where
  printed : ∀ (value : Json) (text : String), toText value = .ok text →
    ∀ c ∈ text.toList, Json.structural c = true ∨ value.Mentions c

theorem ascii_of_mem_bytes [Structural] {value : Json} {byte : UInt8} (mem : byte ∈ bytes value)
    (ha : byte.toNat < 128) : ∃ c, c.toNat = byte.toNat ∧ (Json.structural c = true ∨ value.Mentions c) := by
  obtain ⟨text, _, hp, _⟩ := ofText_toText value
  have same : bytes value = utf8 text := by
    rw [bytes, toVec, hp]
    rfl
  rw [same] at mem
  obtain ⟨c, hi, he⟩ := ascii_of_mem_utf8 mem ha
  exact ⟨c, he, Structural.printed value text hp c hi⟩

/-- No JSON text starts with a NUL, which is neither white space nor the start of a value. -/
class RefusesNul : Prop where
  refused : ∀ (c : Char) (chars : List Char), c.toNat = 0 → ∃ failure, ofText (String.ofList (c :: chars)) = .error failure

/-- A deserializer that reads the first value of a slice and leaves what follows it. -/
class Streaming where
  firstValue : Bytes → Except String Json
  firstValue_of_ofSlice : ∀ {bytes : Bytes} {value : Json}, ofSlice bytes = .ok value → firstValue bytes = .ok value

/-- Strings are spelled with at most six bytes for each of theirs, and nothing is added but punctuation. -/
class ShortStrings : Prop where
  length_le : ∀ fields : List (String × String),
    (bytes (.object (fields.map fun field => (field.1, .string field.2)))).length ≤
      2 + (fields.map fun field => 6 * (utf8 field.1).length + 6 * (utf8 field.2).length + 6).sum

end JsonCodec
