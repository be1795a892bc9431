import Veloxide.Library.Json

open List Except

variable {α ε : Type}

def Option.okOr {α : Type} (found : Option α) (failure : ε) : Except ε α := match found with
  | some value => .ok value
  | none => .error failure

@[simp] theorem Option.okOr_some (value : α) (err : ε) : (some value).okOr err = .ok value := rfl

@[simp] theorem Option.okOr_none (failure : ε) : (none : Option α).okOr failure = .error failure := rfl

theorem Option.okOr_eq_ok {found : Option α} {err : ε} {value : α} : found.okOr err = .ok value ↔ found = some value := by
  cases found with
  | none => exact ⟨nofun, nofun⟩
  | some other => exact ⟨fun same => by cases same; rfl, fun same => by cases same; rfl⟩

variable {β : Type}

theorem Except.bind_eq_ok {first : Except ε α} {next : α → Except ε β} {result : β} :
    (first >>= next) = .ok result ↔ ∃ value, first = .ok value ∧ next value = .ok result := by
  cases first with
  | error err => exact ⟨nofun, fun ⟨_, hi, _⟩ => (nomatch hi)⟩
  | ok value =>
    constructor
    · intro hs
      exact ⟨value, rfl, hs⟩
    · intro hf
      obtain ⟨_, same, hs⟩ := hf
      cases same
      exact hs

theorem Except.bind_unit_eq_ok {first : Except ε Unit} {second : Except ε α} {result : α} :
    (first >>= fun _ => second) = .ok result ↔ first = .ok () ∧ second = .ok result := by
  rw [bind_eq_ok]
  constructor
  · intro hs
    obtain ⟨_, done, rest⟩ := hs
    exact ⟨done, rest⟩
  · intro hs
    exact ⟨(), hs.1, hs.2⟩

theorem Except.guard_eq_ok {failed : Prop} [Decidable failed] {err : ε} {rest : Except ε α} {result : α} :
    (if failed then (throw err >>= fun _ : Unit => rest) else rest) = .ok result ↔ ¬ failed ∧ rest = .ok result := by
  by_cases hh : failed
  · rw [if_pos hh]
    exact ⟨nofun, fun hp => absurd hh hp.1⟩
  · rw [if_neg hh, and_iff_right hh]

theorem Except.mapError_eq_ok {δ : Type} {result : Except ε α} {convert : ε → δ} {value : α} :
    result.mapError convert = .ok value ↔ result = .ok value := by
  cases result with
  | error err => exact ⟨nofun, nofun⟩
  | ok other => exact ⟨fun same => by cases same; rfl, fun same => by cases same; rfl⟩

theorem Except.toOption_eq_some {result : Except ε α} {value : α} :
    result.toOption = some value ↔ result = .ok value := by
  cases result with
  | error err => exact ⟨nofun, nofun⟩
  | ok other => exact ⟨fun same => by cases same; rfl, fun same => by cases same; rfl⟩

theorem List.Forall₂.exists_of_mem {related : α → β → Prop} {left : List α} {right : List β}
    (all : List.Forall₂ related left right) {item : α} (mem : item ∈ left) : ∃ other ∈ right, related item other := by
  induction all with
  | nil => exact absurd mem not_mem_nil
  | cons here _ ih =>
    rcases mem_cons.mp mem with rfl | later
    · exact ⟨_, mem_cons_self, here⟩
    · obtain ⟨other, hf, ha⟩ := ih later
      exact ⟨other, mem_cons_of_mem _ hf, ha⟩

variable {convert : α → Except ε β} {results : List β}

theorem Except.mapM_eq_ok {items : List α} :
    items.mapM convert = .ok results ↔ List.Forall₂ (fun item result => convert item = .ok result) items results := by
  induction items generalizing results with
  | nil =>
    rw [mapM_nil, forall₂_nil_left_iff]
    exact ⟨fun same => (Except.ok.inj same).symm, fun same => by rw [same]; rfl⟩
  | cons item items ih =>
    rw [mapM_cons, forall₂_cons_left_iff, bind_eq_ok]
    constructor
    · intro hc
      obtain ⟨first, here, rest⟩ := hc
      obtain ⟨others, hl, same⟩ := bind_eq_ok.mp rest
      exact ⟨first, others, here, ih.mp hl, (Except.ok.inj same).symm⟩
    · intro hr
      obtain ⟨first, others, here, hl, same⟩ := hr
      exact ⟨first, here, bind_eq_ok.mpr ⟨others, ih.mpr hl, by rw [same]; rfl⟩⟩

theorem Except.mapM_total {items : List α} (hc : ∀ item ∈ items, ∃ result, convert item = .ok result) :
    ∃ results, items.mapM convert = .ok results := by
  induction items with
  | nil => exact ⟨[], rfl⟩
  | cons item items ih =>
    obtain ⟨first, here⟩ := hc item mem_cons_self
    obtain ⟨others, hl⟩ := ih fun other mem => hc other (mem_cons_of_mem item mem)
    exact ⟨first :: others, mapM_eq_ok.mpr (.cons here (mapM_eq_ok.mp hl))⟩

theorem Except.mem_mapM {items : List α} (hc : items.mapM convert = .ok results) (result : β) :
    result ∈ results ↔ ∃ item ∈ items, convert item = .ok result := by
  have hr := mapM_eq_ok.mp hc
  clear hc
  induction hr with
  | nil => simp
  | cons here rest ih => simp [ih, here, eq_comm]

theorem Except.filter_mapM {keep : β → Bool} {relevant : α → Bool} {items : List α}
    (hd : ∀ item ∈ items, relevant item = false → ∃ result, convert item = .ok result ∧ keep result = false) :
    ((items.filter relevant).mapM convert).map (List.filter keep) = (items.mapM convert).map (List.filter keep) := by
  have hp : ∀ (first : β) (rest : Except ε (List β)),
      (rest >>= fun others => pure (first :: others)).map (List.filter keep) =
        (rest.map (List.filter keep)).map fun others => if keep first then first :: others else others := by
    intro first rest
    cases rest with
    | error err => rfl
    | ok others =>
      show Except.ok _ = Except.ok _
      rw [filter_cons]
  induction items with
  | nil => rfl
  | cons item items ih =>
    have rest := ih fun other mem => hd other (mem_cons_of_mem _ mem)
    cases here : relevant item with
    | false =>
      obtain ⟨result, hc, hu⟩ := hd item mem_cons_self here
      have tail := hp result (items.mapM convert)
      simp only [hu, Bool.false_eq_true, ↓reduceIte] at tail
      rw [filter_cons_of_neg (by simp [here]), rest, mapM_cons, hc]
      exact (tail.trans (by cases items.mapM convert <;> rfl)).symm
    | true =>
      rw [filter_cons_of_pos here, mapM_cons, mapM_cons]
      cases convert item with
      | error err => rfl
      | ok result => exact (hp result _).trans ((congrArg _ rest).trans (hp result _).symm)

theorem Except.forM_eq_ok {items : List α} {check : α → Except ε Unit} :
    items.forM check = .ok () ↔ ∀ item ∈ items, check item = .ok () := by
  induction items with
  | nil => exact ⟨nofun, fun _ => rfl⟩
  | cons item items ih =>
    change (check item >>= fun _ => items.forM check) = .ok () ↔ _
    rw [bind_unit_eq_ok, forall_mem_cons, ← ih]

/-! Deserialisation as `serde` derives it, from a JSON value. Failures are the messages. -/

namespace Serde

def escapeDebug (c : Char) : String := if c = '"' then "\\\""
  else if c = '\\' then "\\\\"
  else if c = '\n' then "\\n"
  else if c = '\r' then "\\r"
  else if c = '\t' then "\\t"
  else if c.toNat = 0 then "\\0"
  else if c.toNat < 32 ∨ c.toNat = 127 then "\\u\x7b" ++ String.ofList (Nat.toDigits 16 c.toNat) ++ "\x7d"
  else String.singleton c

def debugText (text : String) : String := "\"" ++ String.join (text.toList.map escapeDebug) ++ "\""

def unexpected : Json → String
  | .null => "null"
  | .bool value => s!"boolean `{value}`"
  | .number (.posInt value) => s!"integer `{value}`"
  | .number (.negInt predecessor) => s!"integer `-{predecessor.val + 1}`"
  | .number (.float text) => s!"floating point `{String.ofList text.chars}`"
  | .string value => s!"string {debugText value}"
  | .array _ => "sequence"
  | .object _ => "map"

def invalidType (value : Json) (expected : String) : String := s!"invalid type: {unexpected value}, expected {expected}"

def invalidValue (value : Json) (expected : String) : String := s!"invalid value: {unexpected value}, expected {expected}"

def missingField (name : String) : String := s!"missing field `{name}`"

def toU64 (value : Json) : Except String UInt64 := match value with
  | .number (.posInt number) => .ok number
  | .number (.negInt _) => .error (invalidValue value "u64")
  | _ => .error (invalidType value "u64")

def toUnsigned (kind : String) (bound : Nat) (value : Json) : Except String UInt64 := match value with
  | .number (.posInt number) => if number.toNat < bound then .ok number else .error (invalidValue value kind)
  | .number (.negInt _) => .error (invalidValue value kind)
  | _ => .error (invalidType value kind)

def toU8 (value : Json) : Except String UInt8 := (toUnsigned "u8" (2 ^ 8) value).map UInt64.toUInt8

def toU16 (value : Json) : Except String UInt16 := (toUnsigned "u16" (2 ^ 16) value).map UInt64.toUInt16

def toU32 (value : Json) : Except String UInt32 := (toUnsigned "u32" (2 ^ 32) value).map UInt64.toUInt32

def toStr (value : Json) : Except String String := match value with
  | .string text => .ok text
  | _ => .error (invalidType value "a string")

def toOption (decode : Json → Except String α) (value : Json) : Except String (Option α) := match value with
  | .null => .ok none
  | value => (decode value).map some

def toMap (value : Json) : Except String (List (String × Json)) := match value with
  | .object fields => .ok fields
  | _ => .error (invalidType value "a map")

def toSeq (decode : Json → Except String α) (value : Json) : Except String (List α) := match value with
  | .array items => items.mapM decode
  | _ => .error (invalidType value "a sequence")

def unknownVariant (names : List String) (name : String) : String :=
  s!"unknown variant `{name}`, expected one of " ++ ", ".intercalate (names.map fun known => s!"`{known}`")

def toUnitVariant (variants : List (String × α)) (value : Json) : Except String α := match value with
  | .string name => (variants.lookup name).okOr (unknownVariant (variants.map Prod.fst) name)
  | .object [(name, content)] => do
    let variant ← (variants.lookup name).okOr (unknownVariant (variants.map Prod.fst) name)
    if content.isNull then return variant else throw (invalidType content "unit")
  | .object _ => .error (invalidValue value "map with a single key")
  | _ => .error (invalidType value "string or map")

/-- The fields of a structure: an object by name, or an array in the order of declaration. -/
def record (name : String) (names : List String) (value : Json) : Except String (List (String × Json)) := match value with
  | .object fields => .ok fields
  | .array items =>
    if items.length < names.length then
      .error s!"invalid length {items.length}, expected struct {name} with {names.length} elements"
    else if names.length < items.length then
      .error s!"invalid length {items.length}, expected fewer elements in array"
    else .ok (names.zip items)
  | value => .error (invalidType value s!"struct {name}")

def recordWithDefaults (name : String) (names : List String) (needed : Nat) (value : Json) :
    Except String (List (String × Json)) :=
  match value with
  | .array items =>
    if items.length < needed then
      .error s!"invalid length {items.length}, expected struct {name} with {names.length} elements"
    else if names.length < items.length then
      .error s!"invalid length {items.length}, expected fewer elements in array"
    else .ok (names.zip items)
  | value => record name names value

def required (fields : List (String × Json)) (name : String) (decode : Json → Except String α) : Except String α := do
  let value ← (Json.lookup fields name).okOr (missingField name)
  decode value

def present (fields : List (String × Json)) (name : String) (decode : Json → Except String α) :
    Except String (Option α) :=
  match Json.lookup fields name with
  | some value => (decode value).map some
  | none => .ok none

variable {fields : List (String × Json)} {name : String}

theorem present_some {value : Json}
    {decode : Json → Except String α} {result : α} (hf : Json.lookup fields name = some value)
    (hd : decode value = .ok result) : present fields name decode = .ok (some result) := by
  simp only [present, hf, hd]
  rfl

theorem exists_of_present {decode : Json → Except String α}
    {result : α} (read : present fields name decode = .ok (some result)) :
    ∃ value, Json.lookup fields name = some value ∧ decode value = .ok result := by
  rw [present] at read
  cases hf : Json.lookup fields name with
  | none =>
    rw [hf] at read
    cases read
  | some value =>
    rw [hf] at read
    refine ⟨value, rfl, ?_⟩
    cases hd : decode value with
    | error err =>
      simp only [hd] at read
      cases read
    | ok other =>
      simp only [hd] at read
      cases read
      rfl

/-! What a decoder makes of fields that are the printed ones up to their order. -/

section

variable {fields right : List (String × Json)} {name : String} {value : Json}

theorem lookup_related (hr : ∀ name, Option.Rel Json.Same (Json.lookup fields name) (Json.lookup right name))
    (hf : Json.lookup fields name = some value) :
    ∃ other, Json.lookup right name = some other ∧ value.Same other := by
  have here := hr name
  rw [hf] at here
  cases ht : Json.lookup right name with
  | none =>
    rw [ht] at here
    cases here
  | some other =>
    rw [ht] at here
    cases here with
    | some same => exact ⟨other, rfl, same⟩

theorem lookup_none_related (hr : ∀ name, Option.Rel Json.Same (Json.lookup fields name) (Json.lookup right name))
    (hm : Json.lookup fields name = none) : Json.lookup right name = none := by
  have here := hr name
  rw [hm] at here
  cases ht : Json.lookup right name with
  | none => rfl
  | some other =>
    rw [ht] at here
    cases here

theorem present_related {decode : Json → Except String α} {result : α}
    (hr : ∀ name, Option.Rel Json.Same (Json.lookup fields name) (Json.lookup right name))
    (hf : Json.lookup fields name = some value) (hd : ∀ other, value.Same other → decode other = .ok result) :
    present right name decode = .ok (some result) := by
  obtain ⟨other, ht, same⟩ := lookup_related hr hf
  exact present_some ht (hd other same)

theorem required_related {decode : Json → Except String α} {result : α}
    (hr : ∀ name, Option.Rel Json.Same (Json.lookup fields name) (Json.lookup right name))
    (hf : Json.lookup fields name = some value) (hd : ∀ other, value.Same other → decode other = .ok result) :
    required right name decode = .ok result := by
  obtain ⟨other, ht, same⟩ := lookup_related hr hf
  rw [required, ht]
  exact hd other same

theorem required_string {decode : Json → Except String α} {result : α} {text : String}
    (hr : ∀ name, Option.Rel Json.Same (Json.lookup fields name) (Json.lookup right name))
    (hf : Json.lookup fields name = some (.string text)) (hd : decode (.string text) = .ok result) :
    required right name decode = .ok result :=
  required_related hr hf fun _ same => by rw [same.string_right]; exact hd

variable {other : Json}

theorem toU64_related (number : UInt64) (same : (Json.u64 number).Same other) : toU64 other = .ok number := by
  rw [Json.Same.number_right same]
  rfl

theorem toUnsigned_related {kind : String} {bound : Nat} {number : UInt64} (hs : number.toNat < bound)
    (same : (Json.u64 number).Same other) : toUnsigned kind bound other = .ok number := by
  rw [Json.Same.number_right same]
  exact if_pos hs

theorem toOption_u64_related {number : Option UInt64} (same : ((number.map Json.u64).getD .null).Same other) :
    toOption toU64 other = .ok number := by
  cases number with
  | none =>
    rw [same.null_right]
    rfl
  | some value =>
    rw [Json.Same.number_right same]
    rfl

end

end Serde
