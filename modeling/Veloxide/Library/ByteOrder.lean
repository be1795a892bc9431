import Veloxide.Library.Keyspace

namespace ByteCodec

open Std List

theorem compare_toNat (left right : UInt8) : compare left right = compare left.toNat right.toNat := by
  simp only [compare, compareOfLessAndEq, UInt8.lt_iff_toNat_lt, ← UInt8.toNat_inj]

theorem compare_append {left right : Bytes} (hw : left.length = right.length) (leftRest rightRest : Bytes) :
    compare (left ++ leftRest) (right ++ rightRest) = (compare left right).then (compare leftRest rightRest) := by
  induction left generalizing right with
  | nil =>
    cases right with
    | nil => rfl
    | cons head right => cases hw
  | cons first left ih =>
    cases right with
    | nil => cases hw
    | cons head right =>
      rw [cons_append, cons_append, List.compare_cons_cons, List.compare_cons_cons,
        ih (Nat.succ.inj hw), Ordering.then_assoc]

theorem compare_append_same (start left right : Bytes) :
    compare (start ++ left) (start ++ right) = compare left right := by
  rw [compare_append rfl, ReflOrd.compare_self]
  rfl

theorem compare_scaled {base left right : Nat} (hl : left < base) (hr : right < base) (high top : Nat) :
    compare (left + base * high) (right + base * top) = (compare high top).then (compare left right) := by
  rcases Nat.lt_trichotomy high top with less | same | greater
  · have hs : base * (high + 1) ≤ base * top := Nat.mul_le_mul_left base less
    rw [Nat.mul_succ] at hs
    rw [Nat.compare_eq_lt.mpr less, Nat.compare_eq_lt.mpr (by omega)]
    rfl
  · rw [same, Nat.compare_eq_eq.mpr rfl]
    rcases Nat.lt_trichotomy left right with less | equal | greater
    · rw [Nat.compare_eq_lt.mpr less, Nat.compare_eq_lt.mpr (by omega)]
      rfl
    · rw [equal, Nat.compare_eq_eq.mpr rfl, Nat.compare_eq_eq.mpr rfl]
      rfl
    · rw [Nat.compare_eq_gt.mpr greater, Nat.compare_eq_gt.mpr (by omega)]
      rfl
  · have hs : base * (top + 1) ≤ base * high := Nat.mul_le_mul_left base greater
    rw [Nat.mul_succ] at hs
    rw [Nat.compare_eq_gt.mpr greater, Nat.compare_eq_gt.mpr (by omega)]
    rfl

theorem compare_beBytes (width left right : Nat) :
    compare (beBytes width left) (beBytes width right) = compare (left % 256 ^ width) (right % 256 ^ width) := by
  induction width with
  | zero => simp [beBytes, Radix.digits, Nat.mod_one]
  | succ width ih =>
    have hp : 0 < 256 ^ width := Nat.pow_pos (by decide)
    have hd : ∀ n, (UInt8.ofNat (n / 256 ^ width % 256)).toNat = n / 256 ^ width % 256 := by
      intro n
      rw [UInt8.toNat_ofNat']
      exact Nat.mod_mod _ _
    have head : ∀ n, beBytes (width + 1) n = UInt8.ofNat (n / 256 ^ width % 256) :: beBytes width n := fun _ => rfl
    rw [head, head, List.compare_cons_cons, ih, compare_toNat, hd, hd, Nat.pow_succ, Nat.mod_mul, Nat.mod_mul,
      compare_scaled (Nat.mod_lt _ hp) (Nat.mod_lt _ hp)]

theorem compare_beBytes_of_lt {width left right : Nat} (hl : left < 256 ^ width)
    (hr : right < 256 ^ width) : compare (beBytes width left) (beBytes width right) = compare left right := by
  rw [compare_beBytes, Nat.mod_eq_of_lt hl, Nat.mod_eq_of_lt hr]

theorem zeros_isLE (bytes : Bytes) : (compare (List.replicate bytes.length 0) bytes).isLE = true := by
  induction bytes with
  | nil => rfl
  | cons byte bytes ih =>
    rw [length_cons, replicate_succ, List.compare_cons_cons, Ordering.isLE_then_iff_and]
    refine ⟨?_, .inr ih⟩
    rw [compare_toNat]
    exact Nat.isLE_compare.mpr (Nat.zero_le _)

theorem isLE_zeros {bytes : Bytes} {width : Nat} (hl : bytes.length = width) :
    (compare bytes (List.replicate width 0)).isLE = true ↔ bytes = List.replicate width 0 := by
  subst hl
  constructor
  · intro he
    exact LawfulEqOrd.compare_eq_iff_eq.mp (OrientedCmp.isLE_antisymm he (zeros_isLE bytes))
  · intro hz
    have same : compare bytes (List.replicate bytes.length 0) = .eq := LawfulEqOrd.compare_eq_iff_eq.mpr hz
    rw [same]
    rfl

theorem compare_eq_lt_iff {left right : Bytes} : compare left right = .lt ↔ left < right := by
  induction left generalizing right with
  | nil =>
    cases right with
    | nil | cons head right => simp
  | cons first left ih =>
    cases right with
    | nil => simp
    | cons head right =>
      rw [List.compare_cons_cons, Ordering.then_eq_lt, ih, cons_lt_cons_iff, compare_toNat,
        Nat.compare_eq_lt, Nat.compare_eq_eq, UInt8.lt_iff_toNat_lt, UInt8.toNat_inj]

theorem isLE_compare_iff {left right : Bytes} : (compare left right).isLE = true ↔ left ≤ right := by
  rw [← List.not_lt, ← compare_eq_lt_iff, ← OrientedCmp.gt_iff_lt, Ordering.isLE_iff_ne_gt]

theorem append_le_append_iff {left right : Bytes} (hw : left.length = right.length) {leftRest rightRest : Bytes} :
    left ++ leftRest ≤ right ++ rightRest ↔ left < right ∨ left = right ∧ leftRest ≤ rightRest := by
  rw [← isLE_compare_iff, compare_append hw, Ordering.isLE_then_iff_or, compare_eq_lt_iff, isLE_compare_iff,
    LawfulEqOrd.compare_eq_iff_eq]

theorem append_le_append_left_iff {start left right : Bytes} : start ++ left ≤ start ++ right ↔ left ≤ right := by
  rw [← isLE_compare_iff, compare_append_same, isLE_compare_iff]

section

variable {left right : UInt64}

theorem beBytes_lt_iff : beBytes 8 left.toNat < beBytes 8 right.toNat ↔ left < right := by
  rw [← compare_eq_lt_iff, compare_beBytes_of_lt left.toNat_lt right.toNat_lt, Nat.compare_eq_lt, UInt64.lt_iff_toNat_lt]

theorem beBytes_le_iff : beBytes 8 left.toNat ≤ beBytes 8 right.toNat ↔ left ≤ right := by
  rw [← isLE_compare_iff, compare_beBytes_of_lt left.toNat_lt right.toNat_lt, Nat.isLE_compare, UInt64.le_iff_toNat_le]

end

end ByteCodec
