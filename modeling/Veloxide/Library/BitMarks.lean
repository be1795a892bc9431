import Mathlib

namespace BitMarks

open List

def mark (bits : List Bool) (positions : List Nat) : List Bool :=
  positions.foldl (fun bits position => bits.set position true) bits

def allMarked (bits : List Bool) (positions : List Nat) : Bool := positions.all fun position => bits.getD position false

variable {bits : List Bool}

@[simp] theorem length_mark (bits : List Bool) (positions : List Nat) : (mark bits positions).length = bits.length := by
  induction positions generalizing bits with
  | nil => rfl
  | cons pos positions ih =>
    rw [mark, foldl_cons]
    exact (ih _).trans length_set

theorem getD_mark (positions : List Nat) {pos : Nat} (hi : pos < bits.length) :
    (mark bits positions).getD pos false = true ↔ bits.getD pos false = true ∨ pos ∈ positions := by
  induction positions generalizing bits with
  | nil => simp [mark]
  | cons first positions ih =>
    have same : mark bits (first :: positions) = mark (bits.set first true) positions := rfl
    rw [same, ih (by rwa [length_set]), mem_cons]
    by_cases here : first = pos
    · subst here
      simp [getD_eq_getElem?_getD, hi]
    · simp [getD_eq_getElem?_getD, here, Ne.symm here]

theorem allMarked_mark_self {positions : List Nat}
    (hi : ∀ pos ∈ positions, pos < bits.length) : allMarked (mark bits positions) positions = true := by
  rw [allMarked, all_eq_true]
  intro pos mem
  exact (getD_mark positions (hi pos mem)).mpr (.inr mem)

theorem allMarked_mark {positions others : List Nat}
    (hi : ∀ pos ∈ positions, pos < bits.length) (hm : allMarked bits positions = true) :
    allMarked (mark bits others) positions = true := by
  rw [allMarked, all_eq_true] at hm ⊢
  intro pos mem
  exact (getD_mark others (hi pos mem)).mpr (.inl (hm pos mem))

theorem allMarked_clear {positions : List Nat} (hn : positions ≠ []) (count : Nat) :
    allMarked (List.replicate count false) positions = false := by
  obtain ⟨first, rest, rfl⟩ := exists_cons_of_ne_nil hn
  have hc : (List.replicate count false).getD first false = false := by
    rw [getD_eq_getElem?_getD, getElem?_replicate]
    split_ifs
    · rfl
    · rfl
  rw [allMarked, all_cons, hc, Bool.false_and]

end BitMarks
