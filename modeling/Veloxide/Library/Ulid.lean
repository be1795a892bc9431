import Veloxide.Library.Bytes

open List

/-- A ULID printer and parser: 26 characters, and what is printed parses back. -/
class Ulid where
  toText : BitVec 128 → String
  ofText : String → Except String (BitVec 128)
  ofText_toText : ∀ ulid, ofText (toText ulid) = .ok ulid
  size_toText : ∀ ulid, (toText ulid).utf8ByteSize = 26

namespace Ulid

/-- Identifiers of 128 bits are ordered as numbers. -/
instance transOrd : Std.TransOrd (BitVec 128) := BitVec.instTransOrd

theorem toText_injective [Ulid] {left right : BitVec 128} (same : toText left = toText right) : left = right := by
  have hp := congrArg ofText same
  rw [ofText_toText, ofText_toText] at hp
  exact Except.ok.inj hp

/-- The printer uses letters and digits only. -/
class Alphanumeric [Ulid] : Prop where
  isAlphanum_toText : ∀ ulid, ∀ c ∈ (toText ulid).toList, c.isAlphanum = true

namespace Crockford

def alphabet : List Char :=
  ['0', '1', '2', '3', '4', '5', '6', '7', '8', '9', 'A', 'B', 'C', 'D', 'E', 'F', 'G', 'H', 'J', 'K', 'M',
    'N', 'P', 'Q', 'R', 'S', 'T', 'V', 'W', 'X', 'Y', 'Z']

def symbol (digit : Nat) : Char := alphabet.getD digit '0'

def symbolValue (c : Char) : Option Nat := alphabet.idxOf? c.toUpper

theorem symbolValue_symbol : ∀ digit < 32, symbolValue (symbol digit) = some digit := by
  decide

theorem symbol_isAlphanum : ∀ digit < 32, (symbol digit).isAlphanum = true := by
  decide

theorem symbol_ascii : ∀ digit < 32, (symbol digit).utf8Size = 1 := by
  decide

def encode (ulid : BitVec 128) : List Char := (Radix.digits 32 26 ulid.toNat).map symbol

def decode (chars : List Char) : Except String (BitVec 128) := if chars.length ≠ 26 then .error "invalid length"
  else match chars.mapM symbolValue with
    | some digits => .ok (BitVec.ofNat 128 (Radix.value 32 digits))
    | none => .error "invalid character"

theorem decode_encode (ulid : BitVec 128) : decode (encode ulid) = .ok ulid := by
  have hd := Radix.mapM_symbols fun digit mem =>
    symbolValue_symbol digit (@Radix.digits_lt 32 (by decide) 26 ulid.toNat digit mem)
  have hb : ulid.toNat < 32 ^ 26 := Nat.lt_of_lt_of_le ulid.isLt (by decide)
  rw [decode, if_neg (by simp [encode]), encode, hd]
  simp only [Radix.value_digits, Nat.mod_eq_of_lt hb, BitVec.ofNat_toNat, BitVec.setWidth_eq]

theorem utf8ByteSize_ofList {chars : List Char} (ha : ∀ c ∈ chars, c.utf8Size = 1) :
    (String.ofList chars).utf8ByteSize = chars.length := by
  induction chars with
  | nil => rfl
  | cons c chars ih =>
    have rest := ih fun other mem => ha other (mem_cons_of_mem _ mem)
    have hs : String.ofList (c :: chars) = String.singleton c ++ String.ofList chars := by
      rw [← String.toList_inj]
      simp
    rw [hs, String.utf8ByteSize_append, rest, String.utf8ByteSize_singleton, ha c mem_cons_self,
      length_cons, Nat.add_comm]

@[reducible] def codec : Ulid where
  toText ulid := String.ofList (encode ulid)
  ofText text := decode text.toList
  ofText_toText ulid := by
    rw [String.toList_ofList]
    exact decode_encode ulid
  size_toText ulid := by
    rw [utf8ByteSize_ofList]
    · simp [encode]
    · intro c mem
      obtain ⟨digit, digitMember, rfl⟩ := mem_map.mp mem
      exact symbol_ascii digit (Radix.digits_lt (by decide) digitMember)

theorem alphanumeric : @Alphanumeric codec := by
  refine @Alphanumeric.mk codec ?_
  intro ulid c mem
  have hp : (String.ofList (encode ulid)).toList = encode ulid := String.toList_ofList
  have hi : c ∈ encode ulid := hp ▸ mem
  obtain ⟨digit, hd, rfl⟩ := mem_map.mp hi
  exact symbol_isAlphanum digit (Radix.digits_lt (by decide) hd)

end Crockford

end Ulid
