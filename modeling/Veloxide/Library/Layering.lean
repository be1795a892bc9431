import Veloxide.Library.Digraph

namespace Digraph

open List

variable {α : Type} {edge : α → α → Prop}

inductive PathTo (edge : α → α → Prop) : Nat → α → Prop
  | single (node : α) : PathTo edge 0 node
  | step {length : Nat} {node next : α} (path : PathTo edge length node) (joined : edge node next) :
      PathTo edge (length + 1) next

def Depth (edge : α → α → Prop) (depth : Nat) (node : α) : Prop :=
  PathTo edge depth node ∧ ∀ length, PathTo edge length node → length ≤ depth

variable {node : α} {length : Nat}

theorem pathTo_succ_iff : PathTo edge (length + 1) node ↔ ∃ other, edge other node ∧ PathTo edge length other := by
  constructor
  · intro path
    cases path with
    | step path hj => exact ⟨_, hj, path⟩
  · intro hf
    obtain ⟨other, hj, path⟩ := hf
    exact path.step hj

theorem PathTo.drop (path : PathTo edge (length + 1) node) : PathTo edge length node := by
  induction length generalizing node with
  | zero => exact .single node
  | succ length ih =>
    obtain ⟨other, hj, path⟩ := pathTo_succ_iff.mp path
    exact (ih path).step hj

theorem PathTo.of_le {shorter : Nat} (path : PathTo edge length node) (le : shorter ≤ length) :
    PathTo edge shorter node := by
  induction length with
  | zero =>
    rw [Nat.le_zero.mp le]
    exact path
  | succ length ih =>
    rcases Nat.le_succ_iff.mp le with le | rfl
    · exact ih path.drop le
    · exact path

theorem depth_iff {depth : Nat} :
    Depth edge depth node ↔ PathTo edge depth node ∧ ¬ PathTo edge (depth + 1) node := by
  constructor
  · rintro ⟨path, hl⟩
    exact ⟨path, fun ha => Nat.not_succ_le_self depth (hl _ ha)⟩
  · rintro ⟨path, none⟩
    refine ⟨path, fun length ho => ?_⟩
    by_contra ha
    exact none (ho.of_le (Nat.lt_of_not_le ha))

theorem Depth.lt_of_edge {first second : Nat} {next : α} (left : Depth edge first node)
    (hr : Depth edge second next) (hj : edge node next) : first < second :=
  hr.2 _ (left.1.step hj)

namespace Layering

section

variable [DecidableEq α] (before : α → List α)

def layer (assigned remaining : List α) : List α :=
  remaining.filter fun node => (before node).all fun other => decide (other ∈ assigned)

def withdraw (remaining layer : List α) : List α :=
  layer.foldl (fun remaining node => remaining.filter fun other => decide (other ≠ node)) remaining

/-- Layer after layer until no node remains, or none can be assigned; `none` when the fuel runs out. -/
def run : Nat → List α → List α → Option (List (List α))
  | _, _, [] => some []
  | 0, _, _ :: _ => none
  | fuel + 1, assigned, node :: rest =>
    match layer before assigned (node :: rest) with
    | [] => some []
    | first :: others =>
      (run fuel (assigned ++ (first :: others)) (withdraw (node :: rest) (first :: others))).map
        ((first :: others) :: ·)

end

variable [DecidableEq α] {before : α → List α} {assigned remaining nodes : List α}

theorem withdraw_eq (remaining layer : List α) :
    withdraw remaining layer = remaining.filter fun other => decide (other ∉ layer) := by
  induction layer generalizing remaining with
  | nil => simp [withdraw]
  | cons node layer ih =>
    rw [withdraw, foldl_cons]
    have rest := ih (remaining.filter fun other => decide (other ≠ node))
    rw [withdraw] at rest
    rw [rest, filter_filter]
    apply filter_congr
    intro other _
    rw [Bool.and_comm]
    simp

theorem mem_layer {node : α} :
    node ∈ layer before assigned remaining ↔ node ∈ remaining ∧ ∀ other ∈ before node, other ∈ assigned := by
  simp [layer]

theorem perm_layer (before : α → List α) (assigned remaining : List α) :
    (layer before assigned remaining ++ withdraw remaining (layer before assigned remaining)).Perm remaining := by
  have hc : (withdraw remaining (layer before assigned remaining)) =
      remaining.filter fun node => !(before node).all fun other => decide (other ∈ assigned) := by
    rw [withdraw_eq]
    apply filter_congr
    intro node mem
    have here : decide (node ∈ layer before assigned remaining) =
        (before node).all fun other => decide (other ∈ assigned) := by
      rw [Bool.eq_iff_iff, decide_eq_true_eq, mem_layer]
      simp [mem]
    rw [decide_not, here]
  rw [hc, layer]
  exact filter_append_perm _ _

/-- Before a round the assigned nodes are those whose paths are all shorter than its number. -/
structure Invariant (before : α → List α) (nodes : List α) (round : Nat) (assigned remaining : List α) : Prop where
  assigned_iff : ∀ node ∈ nodes, node ∈ assigned ↔ ¬ PathTo (fun other node => other ∈ before node) round node
  remaining_iff : ∀ node, node ∈ remaining ↔ node ∈ nodes ∧ PathTo (fun other node => other ∈ before node) round node

omit [DecidableEq α] in
theorem start_invariant (before : α → List α) (nodes : List α) : Invariant before nodes 0 [] nodes :=
  ⟨fun node _ => by simp [PathTo.single], fun node => by simp [PathTo.single]⟩

section

variable {round : Nat}

theorem Invariant.mem_layer (hi : Invariant before nodes round assigned remaining)
    (hw : ∀ node ∈ nodes, ∀ other ∈ before node, other ∈ nodes) {node : α} :
    node ∈ layer before assigned remaining ↔ node ∈ nodes ∧ Depth (fun other node => other ∈ before node) round node := by
  rw [Layering.mem_layer, hi.remaining_iff, depth_iff, pathTo_succ_iff, and_assoc]
  refine and_congr_right fun mem => and_congr_right fun _ => ?_
  constructor
  · rintro all ⟨other, hj, path⟩
    exact (hi.assigned_iff other (hw node mem other hj)).mp (all other hj) path
  · intro none other hj
    exact (hi.assigned_iff other (hw node mem other hj)).mpr fun path => none ⟨other, hj, path⟩

theorem Invariant.advance (hi : Invariant before nodes round assigned remaining)
    (hw : ∀ node ∈ nodes, ∀ other ∈ before node, other ∈ nodes) :
    Invariant before nodes (round + 1) (assigned ++ layer before assigned remaining)
      (withdraw remaining (layer before assigned remaining)) := by
  constructor
  · intro node mem
    rw [mem_append, hi.assigned_iff node mem, hi.mem_layer hw, depth_iff]
    constructor
    · rintro (hs | ⟨_, _, none⟩)
      · exact fun hl => hs hl.drop
      · exact none
    · intro none
      by_cases path : PathTo (fun other node => other ∈ before node) round node
      · exact .inr ⟨mem, path, none⟩
      · exact .inl path
  · intro node
    rw [withdraw_eq, mem_filter, decide_eq_true_eq, hi.remaining_iff, hi.mem_layer hw, depth_iff]
    constructor
    · rintro ⟨⟨mem, path⟩, ha⟩
      exact ⟨mem, by_contra fun none => ha ⟨mem, path, none⟩⟩
    · rintro ⟨mem, hl⟩
      exact ⟨⟨mem, hl.drop⟩, fun here => here.2.2 hl⟩

omit [DecidableEq α] in
theorem Invariant.exhausted (hi : Invariant before nodes round assigned []) (index : Nat) (node : α) :
    ¬ (node ∈ nodes ∧ Depth (fun other node => other ∈ before node) (round + index) node) := by
  rintro ⟨mem, path, _⟩
  have left := (hi.remaining_iff node).mpr ⟨mem, path.of_le (Nat.le_add_right round index)⟩
  exact not_mem_nil left

theorem Invariant.layer_ne_nil (hi : Invariant before nodes round assigned remaining)
    (hw : ∀ node ∈ nodes, ∀ other ∈ before node, other ∈ nodes)
    (hf : WellFounded fun other node => other ∈ before node) (some : remaining ≠ []) :
    layer before assigned remaining ≠ [] := by
  obtain ⟨node, mem⟩ := exists_mem_of_ne_nil remaining some
  obtain ⟨least, path, hm⟩ := hf.has_min
    { node | node ∈ nodes ∧ PathTo (fun other node => other ∈ before node) round node }
    ⟨node, (hi.remaining_iff node).mp mem⟩
  have ha : least ∈ layer before assigned remaining := by
    refine (hi.mem_layer hw).mpr ⟨path.1, depth_iff.mpr ⟨path.2, ?_⟩⟩
    rw [pathTo_succ_iff]
    rintro ⟨other, hj, hs⟩
    exact hm other ⟨hw least path.1 other hj, hs⟩ hj
  exact ne_nil_of_mem ha

theorem length_withdraw (before : α → List α) (assigned remaining : List α) :
    (layer before assigned remaining).length + (withdraw remaining (layer before assigned remaining)).length =
      remaining.length := by
  rw [← length_append]
  exact (perm_layer before assigned remaining).length_eq

theorem run_spec (hw : ∀ node ∈ nodes, ∀ other ∈ before node, other ∈ nodes)
    (ho : WellFounded fun other node => other ∈ before node) {fuel : Nat}
    (hi : Invariant before nodes round assigned remaining) (he : remaining.length ≤ fuel) :
    ∃ layers, run before fuel assigned remaining = some layers ∧ layers.flatten.Perm remaining ∧
      ∀ index node, (∃ layer, layers[index]? = some layer ∧ node ∈ layer) ↔
        node ∈ nodes ∧ Depth (fun other node => other ∈ before node) (round + index) node := by
  induction fuel generalizing round assigned remaining with
  | zero =>
    rw [length_eq_zero_iff.mp (Nat.le_zero.mp he)] at hi ⊢
    exact ⟨[], rfl, .refl _, fun index node => by simp [hi.exhausted index node]⟩
  | succ fuel ih =>
    match remaining with
    | [] => exact ⟨[], rfl, .refl _, fun index node => by simp [hi.exhausted index node]⟩
    | node :: rest =>
      have hs := length_withdraw before assigned (node :: rest)
      have hp := perm_layer before assigned (node :: rest)
      have hm := @Invariant.mem_layer _ _ _ _ _ _ _ hi hw
      have next := hi.advance hw
      rw [run]
      cases hu : layer before assigned (node :: rest) with
      | nil => exact absurd hu (hi.layer_ne_nil hw ho (by simp))
      | cons first others =>
        rw [hu] at hs hp hm next
        simp only [length_cons] at hs he
        obtain ⟨layers, hc, hf, hd⟩ := ih next (by omega)
        refine ⟨(first :: others) :: layers, by simp only [hc, Option.map_some], ?_, ?_⟩
        · rw [flatten_cons]
          exact (hf.append_left _).trans hp
        · intro index found
          cases index with
          | zero => simp [← hm]
          | succ index =>
            rw [getElem?_cons_succ, hd, Nat.add_assoc, Nat.add_comm 1]

end

end Layering

end Digraph
