import Veloxide.Library.PriorityBags

namespace Veloxide.PairingHeap

open List Machine PriorityBags

inductive Node (α : Type)
  | mk (elem : α) (children : List (Node α))

structure Heap (α : Type) where
  root : Option (Node α)
  len : Nat

variable {α ι : Type} [LinearOrder α]

def link : Node α → Node α → Node α
  | .mk a left, .mk b right => if a ≤ b then .mk a (left ++ [.mk b right]) else .mk b (right ++ [.mk a left])

def pairUp : List (Node α) → List (Node α)
  | first :: second :: nodes => link first second :: pairUp nodes
  | nodes => nodes

def accumulate : List (Node α) → Option (Node α)
  | [] => none
  | acc :: merged => some (merged.foldl link acc)

def mergePairs : List (Node α) → Option (Node α)
  | [] => none
  | [node] => some node
  | nodes => accumulate (pairUp nodes).reverse

namespace Heap

def new : Heap α := ⟨none, 0⟩

def push (heap : Heap α) (elem : α) : Heap α := ⟨some (match heap.root with
    | some root => link (.mk elem []) root
    | none => .mk elem []), heap.len + 1⟩

def peek (heap : Heap α) : Option α := heap.root.map fun | .mk elem _ => elem

def pop (heap : Heap α) : Option α × Heap α := match heap.root with
  | none => (none, heap)
  | some (.mk elem children) => (some elem, ⟨mergePairs children, heap.len - 1⟩)

def merge (heap other : Heap α) : Heap α × Heap α := match heap.root, other.root with
  | _, none => (heap, other)
  | none, some b => (⟨some b, heap.len + other.len⟩, ⟨none, 0⟩)
  | some a, some b => (⟨some (link a b), heap.len + other.len⟩, ⟨none, 0⟩)

def queue : Queue (Heap α) α := ⟨push, pop, peek, merge, len⟩

end Heap

/-- A tree in heap order, with its elements. -/
inductive Node.Holds : Node α → Multiset α → Prop
  | mk {elem : α} {children : List (Node α)} {bag : Multiset α} (below : Gathers Node.Holds children bag)
    (least : ∀ other ∈ bag, elem ≤ other) : Node.Holds (.mk elem children) (elem ::ₘ bag)

inductive Root : Option (Node α) → Multiset α → Prop
  | none : Root none 0
  | some {node : Node α} {bag : Multiset α} (here : node.Holds bag) : Root (some node) bag

structure Heap.Holds (heap : Heap α) (bag : Multiset α) : Prop where
  root : Root heap.root bag
  len : heap.len = bag.card

section

variable {first second acc node : Node α} {nodes : List (Node α)} {bag more : Multiset α} {elem : α}

theorem Node.Holds.attach (hn : (Node.mk elem nodes).Holds bag) (hs : second.Holds more)
    (le : ∀ other ∈ more, elem ≤ other) : (Node.mk elem (nodes ++ [second])).Holds (bag + more) := by
  cases hn with
  | mk below least =>
    rw [Multiset.cons_add]
    refine .mk (below.append (.single hs)) ?_
    intro other mem
    rcases Multiset.mem_add.mp mem with mem | mem
    · exact least other mem
    · exact le other mem

theorem Node.Holds.le (hn : (Node.mk elem nodes).Holds bag) : ∀ other ∈ bag, elem ≤ other := by
  cases hn with
  | mk below least => simpa using least

theorem link_holds (hf : first.Holds bag) (hs : second.Holds more) : (link first second).Holds (bag + more) := by
  rcases first with ⟨a, left⟩
  rcases second with ⟨b, right⟩
  rw [link]
  split_ifs with ha
  · exact hf.attach hs fun other mem => ha.trans (hs.le other mem)
  · rw [add_comm]
    exact hs.attach hf fun other mem => (le_of_not_ge ha).trans (hf.le other mem)

theorem pairUp_forest (hf : Gathers Node.Holds nodes bag) : Gathers Node.Holds (pairUp nodes) bag := by
  fun_induction pairUp nodes generalizing bag with
  | case1 first second nodes ih =>
    cases hf with
    | cons here rest =>
      cases rest with
      | cons next rest =>
        rw [← add_assoc]
        exact .cons (link_holds here next) (ih rest)
  | case2 => exact hf

theorem fold_holds (ha : acc.Holds bag) (hf : Gathers Node.Holds nodes more) : (nodes.foldl link acc).Holds (bag + more) := by
  induction nodes generalizing acc bag more with
  | nil =>
    cases hf
    rwa [add_zero]
  | cons node nodes ih =>
    cases hf with
    | cons here rest =>
      rw [← add_assoc]
      exact ih (link_holds ha here) rest

theorem mergePairs_root (hf : Gathers Node.Holds nodes bag) : Root (mergePairs nodes) bag := by
  have same : mergePairs nodes = accumulate (pairUp nodes).reverse := by
    rcases nodes with _ | ⟨_, _ | ⟨_, _⟩⟩ <;> rfl
  have merged := (pairUp_forest hf).reverse
  rw [same]
  generalize (pairUp nodes).reverse = trees at merged
  cases merged with
  | nil => exact .none
  | cons here rest => exact .some (fold_holds here rest)

end

theorem Heap.implements : Implements Heap.queue (Heap.Holds (α := α)) where
  push := by
    rintro ⟨root, len⟩ bag ⟨hr, hl⟩ elem
    have single : (Node.mk elem []).Holds {elem} := .mk .nil (by simp)
    refine ⟨?_, (congrArg (· + 1) hl).trans (Multiset.card_cons elem bag).symm⟩
    cases hr with
    | none => exact .some single
    | some here => exact .some (link_holds single here)
  pop := by
    rintro ⟨root, len⟩ bag ⟨hr, hl⟩
    cases hr with
    | none => exact .none ⟨.none, hl⟩
    | some here =>
      cases here with
      | mk below least =>
        refine .some least ⟨mergePairs_root below, ?_⟩
        exact congrArg (· - 1) (hl.trans (Multiset.card_cons _ _))
  peek := by
    rintro ⟨_ | ⟨elem, children⟩, len⟩ bag _ <;> rfl
  merge := by
    rintro ⟨root, len⟩ bag ⟨hr, hl⟩ ⟨top, count⟩ more ⟨ho, hc⟩
    have total : len + count = (bag + more).card := by
      rw [Multiset.card_add, ← hl, ← hc]
    cases ho with
    | none =>
      rw [add_zero]
      cases hr with
      | none => exact ⟨⟨.none, hl⟩, ⟨.none, hc⟩⟩
      | some here => exact ⟨⟨.some here, hl⟩, ⟨.none, hc⟩⟩
    | some there =>
      cases hr with
      | none => exact ⟨⟨.some (by rwa [zero_add]), total⟩, ⟨.none, rfl⟩⟩
      | some here => exact ⟨⟨.some (link_holds here there), total⟩, ⟨.none, rfl⟩⟩
  len heap bag hh := hh.len

variable [DecidableEq ι]

theorem pairing_heaps_are_bags (calls : List (Call α ι)) :
    (trace Heap.queue.step (fun _ => Heap.new) calls).map Event.reply =
      (trace bags.step (fun _ => 0) calls).map Event.reply ∧
    ∀ i, let heap := final Heap.queue.step (fun _ => Heap.new) calls i
      Heap.queue.drain heap.len heap = (final bags.step (fun _ => 0) calls i).sort :=
  Heap.implements.run ⟨.none, rfl⟩ calls

end Veloxide.PairingHeap
