import Veloxide.Library.Bytes

open List

/-- A UUID printer and parser, and name-based UUIDs: 36 characters, and what is printed parses back. -/
class Uuid where
  toText : BitVec 128 → String
  ofText : String → Option (BitVec 128)
  named : ByteCodec.Bytes → BitVec 128
  ofText_toText : ∀ uuid, ofText (toText uuid) = some uuid
  length_toText : ∀ uuid, (toText uuid).length = 36
  hyphenated : ∀ uuid, ∀ c ∈ (toText uuid).toList, c.isAlphanum = true ∨ c = '-'

namespace Uuid.Hyphenated

def alphabet : List Char := ['0', '1', '2', '3', '4', '5', '6', '7', '8', '9', 'a', 'b', 'c', 'd', 'e', 'f']

def symbol (digit : Nat) : Char := alphabet.getD digit '0'

def symbolValue (c : Char) : Option Nat := alphabet.idxOf? c.toLower

theorem symbolValue_symbol : ∀ digit < 16, symbolValue (symbol digit) = some digit := by
  decide

theorem symbol_isAlphanum : ∀ digit < 16, (symbol digit).isAlphanum = true := by
  decide

def hexDigits (uuid : BitVec 128) : List Char := (Radix.digits 16 32 uuid.toNat).map symbol

def encode (uuid : BitVec 128) : List Char := let digits := hexDigits uuid
  digits.take 8 ++ '-' :: ((digits.drop 8).take 4 ++ '-' :: ((digits.drop 12).take 4 ++ '-' ::
    ((digits.drop 16).take 4 ++ '-' :: digits.drop 20)))

def decode (chars : List Char) : Option (BitVec 128) := do
  let digits ← (chars.filter (· ≠ '-')).mapM symbolValue
  if digits.length ≠ 32 then none else some (BitVec.ofNat 128 (Radix.value 16 digits))

theorem isAlphanum_of_mem {uuid : BitVec 128} {c : Char} (mem : c ∈ hexDigits uuid) : c.isAlphanum = true := by
  obtain ⟨digit, hi, rfl⟩ := mem_map.mp mem
  exact symbol_isAlphanum digit (Radix.digits_lt (by decide) hi)

theorem filter_eq_self {uuid : BitVec 128} {part : List Char} (hi : ∀ c ∈ part, c ∈ hexDigits uuid) :
    part.filter (· ≠ '-') = part := by
  apply List.filter_eq_self.mpr
  intro c mem
  have ha := isAlphanum_of_mem (hi c mem)
  apply decide_eq_true
  intro hh
  rw [hh] at ha
  exact absurd ha (by decide)

theorem filter_encode (uuid : BitVec 128) : (encode uuid).filter (· ≠ '-') = hexDigits uuid := by
  have hg : ∀ start width, (((hexDigits uuid).drop start).take width).filter (· ≠ '-') =
      ((hexDigits uuid).drop start).take width :=
    fun _ _ => filter_eq_self fun _ mem => mem_of_mem_drop (mem_of_mem_take mem)
  have hf := hg 0 8
  have last : ((hexDigits uuid).drop 20).filter (· ≠ '-') = (hexDigits uuid).drop 20 :=
    filter_eq_self fun _ mem => mem_of_mem_drop mem
  have hj : ∀ start width, ((hexDigits uuid).drop start).take width ++ (hexDigits uuid).drop (start + width) =
      (hexDigits uuid).drop start := by
    intro start width
    rw [← drop_drop, take_append_drop]
  rw [drop_zero] at hf
  simp only [encode, filter_append, filter_cons, ne_eq, not_true_eq_false, decide_false, Bool.false_eq_true,
    ↓reduceIte] at hf last hg ⊢
  rw [hf, last, hg, hg, hg, hj 16 4, hj 12 4, hj 8 4, take_append_drop]

theorem decode_encode (uuid : BitVec 128) : decode (encode uuid) = some uuid := by
  have hv : Radix.value 16 (Radix.digits 16 32 uuid.toNat) = uuid.toNat := by
    rw [Radix.value_digits, Nat.mod_eq_of_lt (Nat.lt_of_lt_of_le uuid.isLt (by decide))]
  have hd := Radix.mapM_symbols fun digit mem =>
    symbolValue_symbol digit (@Radix.digits_lt 16 (by decide) 32 uuid.toNat digit mem)
  rw [decode, filter_encode, hexDigits, hd]
  simp [hv]

@[reducible] def codec : Uuid where
  toText uuid := String.ofList (encode uuid)
  ofText text := decode text.toList
  named name := BitVec.ofNat 128 (ByteCodec.beNat name)
  ofText_toText uuid := by
    rw [String.toList_ofList]
    exact decode_encode uuid
  length_toText uuid := by
    rw [String.length_ofList]
    simp [encode, hexDigits]
  hyphenated uuid c mem := by
    rw [String.toList_ofList] at mem
    by_cases hyphen : c = '-'
    · exact .inr hyphen
    · have kept : c ∈ (encode uuid).filter (· ≠ '-') := mem_filter.mpr ⟨mem, decide_eq_true hyphen⟩
      rw [filter_encode] at kept
      exact .inl (isAlphanum_of_mem kept)

end Uuid.Hyphenated
