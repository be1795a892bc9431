import Mathlib

open List

variable (width n : Nat)

namespace Radix

def digits (base : Nat) : Nat → Nat → List Nat
  | 0, _ => []
  | width + 1, n => n / base ^ width % base :: digits base width n

def value (base : Nat) (ds : List Nat) : Nat := Nat.ofDigits base ds.reverse

variable {base : Nat}

@[simp] theorem length_digits : (digits base width n).length = width := by
  induction width with
  | zero => rfl
  | succ width ih => simp [digits, ih]

theorem digits_lt (hp : 0 < base) {width n digit : Nat} (mem : digit ∈ digits base width n) : digit < base := by
  induction width with
  | zero => simp [digits] at mem
  | succ width ih =>
    rcases mem_cons.mp mem with rfl | rest
    · exact Nat.mod_lt _ hp
    · exact ih rest

theorem value_cons (head : Nat) (tail : List Nat) :
    value base (head :: tail) = base ^ tail.length * head + value base tail := by
  rw [value, reverse_cons, Nat.ofDigits_append, Nat.ofDigits_singleton, length_reverse, Nat.add_comm]
  rfl

variable {ds : List Nat}

theorem mapM_symbols {symbol : Nat → Char} {symbolValue : Char → Option Nat}
    (hi : ∀ digit ∈ ds, symbolValue (symbol digit) = some digit) : (ds.map symbol).mapM symbolValue = some ds := by
  induction ds with
  | nil => rfl
  | cons digit ds ih =>
    have rest := ih fun other mem => hi other (mem_cons_of_mem _ mem)
    rw [map_cons, mapM_cons, hi digit mem_cons_self, rest]
    rfl

theorem value_digits : value base (digits base width n) = n % base ^ width := by
  induction width with
  | zero => simp [digits, value, Nat.mod_one]
  | succ width ih => rw [digits, value_cons, length_digits, ih, Nat.pow_succ, Nat.mod_mul, Nat.add_comm]

theorem value_lt (hs : ∀ digit ∈ ds, digit < base) : value base ds < base ^ ds.length := by
  induction ds with
  | nil => simp [value]
  | cons head tail ih =>
    have rest := ih fun digit mem => hs digit (mem_cons_of_mem _ mem)
    have hf := Nat.mul_le_mul_left (base ^ tail.length) (Nat.succ_le_of_lt (hs head mem_cons_self))
    rw [value_cons, length_cons, Nat.pow_succ]
    rw [Nat.mul_succ] at hf
    omega

theorem digits_add_mul (hp : 0 < base) (width n more : Nat) :
    digits base width (n + base ^ width * more) = digits base width n := by
  induction width generalizing more with
  | zero => rfl
  | succ width ih =>
    rw [digits, digits, Nat.pow_succ, Nat.mul_assoc, ih, Nat.add_mul_div_left _ _ (Nat.pow_pos hp),
      Nat.add_mul_mod_self_left]

theorem digits_value (hs : ∀ digit ∈ ds, digit < base) : digits base ds.length (value base ds) = ds := by
  induction ds with
  | nil => rfl
  | cons head tail ih =>
    have hi : ∀ digit ∈ tail, digit < base := fun digit mem => hs digit (mem_cons_of_mem _ mem)
    have hb := hs head mem_cons_self
    have hp : 0 < base := Nat.lt_of_le_of_lt (Nat.zero_le head) hb
    rw [length_cons, digits, value_cons, Nat.add_comm, digits_add_mul hp, ih hi,
      Nat.add_mul_div_left _ _ (Nat.pow_pos hp), Nat.div_eq_of_lt (value_lt hi), Nat.zero_add,
      Nat.mod_eq_of_lt hb]

end Radix

variable (value : UInt64)

namespace ByteCodec

abbrev Bytes := List UInt8

def beBytes : Bytes := (Radix.digits 256 width n).map UInt8.ofNat

variable (bytes : Bytes)

def beNat : Nat := Radix.value 256 (bytes.map UInt8.toNat)

@[simp] theorem length_beBytes : (beBytes width n).length = width := by
  simp [beBytes]

theorem beNat_beBytes : beNat (beBytes width n) = n % 256 ^ width := by
  have same : (Radix.digits 256 width n).map (UInt8.toNat ∘ UInt8.ofNat) = Radix.digits 256 width n := by
    conv_rhs => rw [← map_id (Radix.digits 256 width n)]
    apply map_congr_left
    intro digit mem
    have hb := Radix.digits_lt (by decide) mem
    simp [Nat.mod_eq_of_lt hb]
  rw [beNat, beBytes, map_map, same, Radix.value_digits]

theorem beNat_beBytes_of_lt {width n : Nat} (hb : n < 256 ^ width) : beNat (beBytes width n) = n := by
  rw [beNat_beBytes, Nat.mod_eq_of_lt hb]

@[simp] theorem ofNat_beNat_beBytes : UInt64.ofNat (beNat (beBytes 8 value.toNat)) = value := by
  rw [beNat_beBytes_of_lt value.toNat_lt, UInt64.ofNat_toNat]

theorem beBytes_injective {width left right : Nat} (hl : left < 256 ^ width)
    (hr : right < 256 ^ width) (same : beBytes width left = beBytes width right) : left = right := by
  have hn := congrArg beNat same
  rwa [beNat_beBytes_of_lt hl, beNat_beBytes_of_lt hr] at hn

theorem beBytes_inj {left right : UInt64} : beBytes 8 left.toNat = beBytes 8 right.toNat ↔ left = right :=
  ⟨fun same => UInt64.toNat.inj (beBytes_injective left.toNat_lt right.toNat_lt same), fun same => by rw [same]⟩

theorem toNat_lt_256 {bytes : Bytes} : ∀ digit ∈ bytes.map UInt8.toNat, digit < 256 := by
  intro digit mem
  obtain ⟨byte, _, rfl⟩ := mem_map.mp mem
  exact byte.toNat_lt

theorem beNat_lt : beNat bytes < 256 ^ bytes.length := by
  have hb := Radix.value_lt (@toNat_lt_256 bytes)
  rwa [length_map] at hb

theorem beBytes_beNat : beBytes bytes.length (beNat bytes) = bytes := by
  have hd := Radix.digits_value (@toNat_lt_256 bytes)
  rw [length_map] at hd
  rw [beBytes, beNat, hd, map_map]
  exact (map_congr_left fun byte _ => UInt8.ofNat_toNat).trans (map_id bytes)

theorem beBytes_mod : beBytes width (n % 256 ^ width) = beBytes width n := by
  have read := beBytes_beNat (beBytes width n)
  rwa [length_beBytes, beNat_beBytes] at read

theorem beBytes_ofNat_beNat {bytes : Bytes} (hl : bytes.length = 8) :
    beBytes 8 (UInt64.ofNat (beNat bytes)).toNat = bytes := by
  have hb := beNat_lt bytes
  rw [hl] at hb
  rw [UInt64.toNat_ofNat_of_lt' hb, ← hl, beBytes_beNat]

variable (text : String)

def utf8 : Bytes := text.toByteArray.data.toList

def fromUtf8 : Option String := String.fromUTF8? ⟨bytes.toArray⟩

theorem fromUtf8_utf8 : fromUtf8 (utf8 text) = some text := by
  have hv : (⟨(utf8 text).toArray⟩ : ByteArray).IsValidUTF8 := text.isValidUTF8
  simp only [fromUtf8, String.fromUTF8?, hv, ↓reduceDIte]
  rfl

theorem utf8_injective {left right : String} (same : utf8 left = utf8 right) : left = right := by
  have hd := congrArg fromUtf8 same
  rw [fromUtf8_utf8, fromUtf8_utf8] at hd
  exact Option.some.inj hd

theorem utf8_append (left right : String) : utf8 (left ++ right) = utf8 left ++ utf8 right := by
  simp [utf8]

theorem length_utf8 : (utf8 text).length = text.utf8ByteSize := by
  simp [utf8]

theorem length_utf8_pos {text : String} (hn : text ≠ "") : 0 < (utf8 text).length := by
  apply length_pos_of_ne_nil
  intro he
  exact hn (utf8_injective (he.trans (show [] = utf8 "" from rfl)))

variable (chars : List Char)

theorem utf8_ofList : utf8 (String.ofList chars) = chars.flatMap String.utf8EncodeChar := by
  simp [utf8, String.ofList, List.utf8Encode]

theorem utf8_fromUtf8 {bytes : Bytes} {text : String} (read : fromUtf8 bytes = some text) : utf8 text = bytes := by
  rw [fromUtf8, String.fromUTF8?] at read
  split_ifs at read with valid
  cases read
  rfl

variable {byte : UInt8}

theorem ascii_of_mem_utf8EncodeChar {c : Char} (he : byte ∈ String.utf8EncodeChar c)
    (ha : byte.toNat < 128) : c.toNat = byte.toNat := by
  have high : ∀ n, 128 ≤ n → n < 256 → byte ≠ UInt8.ofNat n := by
    intro n low hb same
    rw [same, UInt8.toNat_ofNat_of_lt' hb] at ha
    omega
  simp only [String.utf8EncodeChar] at he
  split_ifs at he with one two three
  all_goals simp only [mem_cons, not_mem_nil, or_false] at he
  · rw [he, UInt8.toNat_ofNat_of_lt' (show _ < 2 ^ 8 by omega)]
    rfl
  · rcases he with same | same
    all_goals exact absurd same (high _ (by omega) (by omega))
  · rcases he with same | same | same
    all_goals exact absurd same (high _ (by omega) (by omega))
  · rcases he with same | same | same | same
    all_goals exact absurd same (high _ (by omega) (by omega))

theorem ascii_of_mem_utf8 {text : String} (mem : byte ∈ utf8 text) (ha : byte.toNat < 128) :
    ∃ c ∈ text.toList, c.toNat = byte.toNat := by
  rw [← text.ofList_toList, utf8_ofList] at mem
  obtain ⟨c, hf, he⟩ := mem_flatMap.mp mem
  exact ⟨c, hf, ascii_of_mem_utf8EncodeChar he ha⟩

theorem head_of_utf8_ascii {text : String} {rest : Bytes} (bytes : utf8 text = byte :: rest)
    (ha : byte.toNat < 128) : ∃ c chars, text = String.ofList (c :: chars) ∧ c.toNat = byte.toNat := by
  rw [← text.ofList_toList] at bytes ⊢
  rw [utf8_ofList] at bytes
  cases hl : text.toList with
  | nil =>
    rw [hl] at bytes
    cases bytes
  | cons c chars =>
    refine ⟨c, chars, rfl, ascii_of_mem_utf8EncodeChar ?_ ha⟩
    rw [hl, flatMap_cons] at bytes
    cases he : String.utf8EncodeChar c with
    | nil => exact absurd he (by simp)
    | cons first others =>
      rw [he, cons_append] at bytes
      rw [(List.cons.inj bytes).1]
      exact mem_cons_self

theorem utf8Len_le : String.utf8Len chars ≤ 4 * chars.length := by
  induction chars with
  | nil => simp
  | cons c chars ih =>
    have hb := c.utf8Size_le_four
    simp only [String.utf8Len_cons, length_cons]
    omega

theorem length_utf8_le : (utf8 text).length ≤ 4 * text.length := by
  have hb := utf8Len_le text.toList
  rw [← String.utf8ByteSize_ofList, String.ofList_toList] at hb
  rw [length_utf8]
  exact hb

end ByteCodec

namespace Unsigned

variable (left : UInt64)

def saturatingAdd (right : UInt64) : UInt64 := UInt64.ofNat (min (left.toNat + right.toNat) (2 ^ 64 - 1))

variable (right : UInt64)

theorem toNat_saturatingAdd : (saturatingAdd left right).toNat = min (left.toNat + right.toNat) (2 ^ 64 - 1) :=
  UInt64.toNat_ofNat_of_lt' (Nat.lt_of_le_of_lt (Nat.min_le_right _ _) (by decide))

theorem saturatingAdd_zero : saturatingAdd value 0 = value := by
  have hb := value.toNat_lt
  have hl : min (value.toNat + (0 : UInt64).toNat) (2 ^ 64 - 1) = value.toNat := by
    rw [UInt64.toNat_zero, Nat.add_zero]
    omega
  rw [saturatingAdd, hl, UInt64.ofNat_toNat]

def saturatingSub (right : UInt64) : UInt64 := UInt64.ofNat (left.toNat - right.toNat)

theorem toNat_saturatingSub : (saturatingSub left right).toNat = left.toNat - right.toNat :=
  UInt64.toNat_ofNat_of_lt' (Nat.lt_of_le_of_lt (Nat.sub_le _ _) left.toNat_lt)

def checkedSucc : Option UInt64 := if value.toNat = 2 ^ 64 - 1 then none else some (value + 1)

theorem checkedSucc_eq {value : UInt64} (hb : value.toNat < 2 ^ 64 - 1) :
    checkedSucc value = some (UInt64.ofNat (value.toNat + 1)) := by
  rw [checkedSucc, if_neg (by omega)]
  simp [UInt64.ofNat_add]

variable {next : UInt64}

theorem checkedSucc_eq_some {value : UInt64} : checkedSucc value = some next ↔ next.toNat = value.toNat + 1 := by
  have hb := next.toNat_lt
  rw [checkedSucc]
  split_ifs with greatest
  · simp only [false_iff]
    omega
  · have ha : (value + 1).toNat = value.toNat + 1 := by
      have hs := value.toNat_lt
      rw [UInt64.toNat_add, UInt64.toNat_one]
      omega
    rw [Option.some.injEq, ← UInt64.toNat_inj, ha, eq_comm]

theorem checkedSucc_gt {value : UInt64} (some : checkedSucc value = some next) : value < next := by
  have ha := checkedSucc_eq_some.mp some
  rw [UInt64.lt_iff_toNat_lt]
  omega

end Unsigned
