import Mathlib

namespace HashTree

open List

variable {Digest : Type} (combine : Digest → Digest → Digest)

def pairUp : List Digest → List Digest
  | [] => []
  | [last] => [combine last last]
  | left :: right :: rest => combine left right :: pairUp rest

theorem length_pairUp (level : List Digest) : (pairUp combine level).length = (level.length + 1) / 2 := by
  induction level using pairUp.induct with
  | case1 => simp [pairUp]
  | case2 last => simp [pairUp]
  | case3 left right rest ih =>
    rw [pairUp, length_cons, ih, length_cons, length_cons]
    omega

def levels (level : List Digest) : List (List Digest) :=
  if 1 < level.length then level :: levels (pairUp combine level) else [level]
termination_by level.length
decreasing_by
  rw [length_pairUp]
  omega

variable (index : Nat)

def siblingIndex : Nat := if index % 2 = 0 then index + 1 else index - 1

/-- The node that is paired with the one at an index, which is this one where there is no other. -/
def sibling (level : List Digest) (index : Nat) : Option Digest :=
  if siblingIndex index < level.length then level[siblingIndex index]? else level[index]?

variable (node : Digest)

def orient (other : Digest) : Digest := if index % 2 = 0 then combine node other else combine other node

theorem siblingIndex_add_two : siblingIndex (index + 2) = siblingIndex index + 2 := by
  unfold siblingIndex
  split_ifs
  all_goals omega

theorem sibling_add_two (left right : Digest) (rest : List Digest) (index : Nat) :
    sibling (left :: right :: rest) (index + 2) = sibling rest index := by
  simp only [sibling, siblingIndex_add_two, length_cons, getElem?_cons_succ, Nat.add_lt_add_iff_right]

theorem orient_add_two (other : Digest) : orient combine (index + 2) node other = orient combine index node other := by
  rw [orient, orient, Nat.add_mod_right]

variable {level : List Digest}

theorem getElem?_pairUp {index : Nat} {node : Digest} (hf : level[index]? = some node) :
    ∃ other, sibling level index = some other ∧
      (pairUp combine level)[index / 2]? = some (orient combine index node other) := by
  induction level using pairUp.induct generalizing index with
  | case1 => cases hf
  | case2 last =>
    cases index with
    | zero =>
      cases hf
      exact ⟨node, rfl, by simp [pairUp, orient]⟩
    | succ index => cases hf
  | case3 left right rest ih =>
    rcases index with _ | _ | index
    · cases hf
      exact ⟨right, rfl, by simp [pairUp, orient]⟩
    · cases hf
      exact ⟨left, rfl, by simp [pairUp, orient]⟩
    · obtain ⟨other, hp, ha⟩ := ih hf
      have half : (index + 1 + 1) / 2 = index / 2 + 1 := by omega
      refine ⟨other, by rw [sibling_add_two, hp], ?_⟩
      rw [orient_add_two, pairUp, half, getElem?_cons_succ, ha]

section

def path : List (List Digest) → Nat → Option (List (Digest × Bool))
  | [], _ => some []
  | level :: above, index => do
    let other ← sibling level index
    let rest ← path above (index / 2)
    return (other, index % 2 = 0) :: rest

def climb (leaf : Digest) (steps : List (Digest × Bool)) : Digest :=
  steps.foldl (fun node step => if step.2 then combine node step.1 else combine step.1 node) leaf

theorem levels_of_one_lt (more : 1 < level.length) :
    levels combine level = level :: levels combine (pairUp combine level) := by
  rw [levels, if_pos more]

theorem levels_of_le_one (hs : level.length ≤ 1) : levels combine level = [level] := by
  rw [levels, if_neg (Nat.not_lt.mpr hs)]

theorem levels_ne_nil (level : List Digest) : levels combine level ≠ [] := by
  rw [levels]
  split_ifs
  all_goals exact cons_ne_nil _ _

def root (level : List Digest) : Option Digest := (levels combine level).getLast?.bind List.head?

theorem root_of_one_lt (more : 1 < level.length) : root combine level = root combine (pairUp combine level) := by
  rw [root, root, levels_of_one_lt combine more]
  cases ha : levels combine (pairUp combine level) with
  | nil => exact absurd ha (levels_ne_nil combine _)
  | cons next rest => rw [getLast?_cons_cons]

theorem climb_path {index : Nat} {leaf : Digest} (hf : level[index]? = some leaf) :
    ∃ steps, path (levels combine level).dropLast index = some steps ∧
      root combine level = some (climb combine leaf steps) := by
  induction size : level.length using Nat.strongRecOn generalizing level index leaf with
  | ind count ih =>
    by_cases more : 1 < level.length
    · obtain ⟨other, hp, hb⟩ := getElem?_pairUp combine hf
      have hs : (pairUp combine level).length < count := by
        rw [length_pairUp]
        omega
      obtain ⟨steps, ha, top⟩ := ih _ hs hb rfl
      have hw : path (levels combine level).dropLast index = some ((other, decide (index % 2 = 0)) :: steps) := by
        rw [levels_of_one_lt combine more, dropLast_cons_of_ne_nil (levels_ne_nil combine _), path, hp, ha]
        rfl
      refine ⟨_, hw, ?_⟩
      rw [root_of_one_lt combine more, top, climb, climb, foldl_cons, orient]
      simp only [decide_eq_true_eq]
    · have hi : level = [leaf] := by
        rcases level with _ | ⟨first, _ | ⟨second, rest⟩⟩
        · cases hf
        · cases index with
          | zero =>
            cases hf
            rfl
          | succ index => cases hf
        · simp at more
      subst hi
      have hl : levels combine [leaf] = [[leaf]] := levels_of_le_one combine (Nat.le_refl 1)
      refine ⟨[], by rw [hl]; rfl, ?_⟩
      rw [root, hl]
      rfl

end

section

variable {combine} (pairs : ∀ left right first second,
  combine left right = combine first second → left = first ∧ right = second)

include pairs

variable {other : List Digest}

theorem pairUp_injective (same : level.length = other.length)
    (hp : pairUp combine level = pairUp combine other) : level = other := by
  induction level using pairUp.induct generalizing other with
  | case1 => exact (length_eq_zero_iff.mp same.symm).symm
  | case2 last =>
    obtain ⟨single, rfl⟩ := length_eq_one_iff.mp same.symm
    simp only [pairUp, List.cons.injEq, and_true] at hp
    rw [(pairs _ _ _ _ hp).1]
  | case3 left right rest ih =>
    rcases other with _ | ⟨first, _ | ⟨second, others⟩⟩
    · cases same
    · simp at same
    · simp only [pairUp, List.cons.injEq] at hp
      obtain ⟨he, ht⟩ := hp
      obtain ⟨hf, hs⟩ := pairs _ _ _ _ he
      rw [hf, hs, ih (by simpa using same) ht]

theorem root_injective (same : level.length = other.length) (tops : root combine level = root combine other) :
    level = other := by
  induction size : level.length using Nat.strongRecOn generalizing level other with
  | ind count ih =>
    by_cases more : 1 < level.length
    · have hm : 1 < other.length := same ▸ more
      rw [root_of_one_lt combine more, root_of_one_lt combine hm] at tops
      have hs : (pairUp combine level).length < count := by
        rw [length_pairUp]
        omega
      apply pairUp_injective pairs same
      exact ih _ hs (by rw [length_pairUp, length_pairUp, same]) tops rfl
    · rw [root, root, levels_of_le_one combine (by omega), levels_of_le_one combine (by omega)] at tops
      rcases level with _ | ⟨first, _ | ⟨second, rest⟩⟩
      · exact (length_eq_zero_iff.mp same.symm).symm
      · obtain ⟨single, rfl⟩ := length_eq_one_iff.mp same.symm
        cases tops
        rfl
      · simp at more

end

theorem pairUp_append_last (level : List Digest) (last : Digest) (even : level.length % 2 = 0) :
    pairUp combine (level ++ [last, last]) = pairUp combine (level ++ [last]) := by
  induction level using pairUp.induct with
  | case1 => simp [pairUp]
  | case2 single => simp at even
  | case3 left right rest ih =>
    simp only [length_cons] at even
    simp only [cons_append, pairUp]
    rw [ih (by omega)]

theorem root_append_last (level : List Digest) (last : Digest) (even : level.length % 2 = 0) (hn : level ≠ []) :
    root combine (level ++ [last, last]) = root combine (level ++ [last]) := by
  have hp := length_pos_of_ne_nil hn
  have two : 1 < (level ++ [last, last]).length := by simp
  have one : 1 < (level ++ [last]).length := by
    rw [length_append, length_singleton]
    omega
  rw [root_of_one_lt combine two, root_of_one_lt combine one, pairUp_append_last combine level last even]

end HashTree
