import Mathlib

namespace Digraph

variable {α : Type} {edge : α → α → Prop}

def Acyclic (edge : α → α → Prop) : Prop := ∀ node, ¬ Relation.TransGen edge node node

/-- A list of nodes in which each is joined to the next, and the last to the first. -/
def Circuit (edge : α → α → Prop) (cycle : List α) : Prop :=
  ∃ first rest, cycle = first :: rest ∧ (first :: (rest ++ [first])).IsChain edge

theorem transGen_of_isChain {first last : α} {rest : List α}
    (hc : (first :: (rest ++ [last])).IsChain edge) : Relation.TransGen edge first last := by
  induction rest generalizing first with
  | nil => exact .single (List.isChain_cons_cons.mp hc).1
  | cons next rest ih =>
    obtain ⟨hj, tail⟩ := List.isChain_cons_cons.mp hc
    exact .head hj (ih tail)

theorem Circuit.not_acyclic {cycle : List α} (hc : Circuit edge cycle) : ¬ Acyclic edge := by
  intro ha
  obtain ⟨first, rest, _, hh⟩ := hc
  exact ha first (transGen_of_isChain hh)

theorem not_self_of_acc {below : α → α → Prop} {node : α} (ha : Acc below node) : ¬ below node node := by
  induction ha with
  | intro node _ ih =>
    intro self
    exact ih node self self

theorem acyclic_of_acc (ha : ∀ node next, edge node next → Acc (Function.swap edge) node) : Acyclic edge := by
  intro node hy
  obtain ⟨next, hf, _⟩ := Relation.TransGen.head'_iff.mp hy
  have hc := (ha node next hf).transGen
  apply not_self_of_acc hc
  rw [Relation.transGen_swap]
  exact hy

theorem Acyclic.swap (ha : Acyclic edge) : Acyclic (Function.swap edge) := by
  intro node hc
  rw [Relation.transGen_swap] at hc
  exact ha node hc

section

variable {β : Type} {rename : α → β}

theorem exists_of_transGen_map (hi : Function.Injective rename) {first last : β}
    (path : Relation.TransGen (Relation.Map edge rename rename) first last) :
    ∃ node other, Relation.TransGen edge node other ∧ rename node = first ∧ rename other = last := by
  induction path with
  | single hj =>
    obtain ⟨node, other, hj, left, hr⟩ := hj
    exact ⟨node, other, .single hj, left, hr⟩
  | tail _ hj ih =>
    obtain ⟨node, middle, path, left, here⟩ := ih
    obtain ⟨next, other, hj, same, hr⟩ := hj
    have met : next = middle := hi (same.trans here.symm)
    subst met
    exact ⟨node, other, path.tail hj, left, hr⟩

theorem acyclic_map_iff (hi : Function.Injective rename) : Acyclic (Relation.Map edge rename rename) ↔ Acyclic edge := by
  constructor
  · intro ha node hy
    exact ha (rename node) (hy.lift rename fun first second hj => ⟨first, second, hj, rfl, rfl⟩)
  · intro ha name hy
    obtain ⟨node, other, path, left, hr⟩ := exists_of_transGen_map hi hy
    have hc : other = node := hi (hr.trans left.symm)
    subst hc
    exact ha other path

end

theorem wellFounded_of_acyclic {nodes : Set α} (hi : nodes.Finite)
    (hw : ∀ node next, edge node next → node ∈ nodes ∧ next ∈ nodes) (ha : Acyclic edge) : WellFounded edge := by
  have ho : IsStrictOrder α (Relation.TransGen edge) := { irrefl := ha, trans := fun _ _ _ => Relation.TransGen.trans }
  have hf := hi.wellFoundedOn (r := Relation.TransGen edge)
  apply Subrelation.wf _ (Set.wellFoundedOn_iff.mp hf)
  intro node next hj
  obtain ⟨left, hr⟩ := hw node next hj
  exact ⟨.single hj, left, hr⟩

theorem exists_source (hf : WellFounded edge) (node : α) :
    ∃ source, (∀ other, ¬ edge other source) ∧ Relation.ReflTransGen edge source node := by
  induction node using hf.induction with
  | _ node ih =>
    by_cases he : ∃ other, edge other node
    · obtain ⟨other, hj⟩ := he
      obtain ⟨source, root, hr⟩ := ih other hj
      exact ⟨source, root, hr.tail hj⟩
    · exact ⟨node, not_exists.mp he, .refl⟩

end Digraph
