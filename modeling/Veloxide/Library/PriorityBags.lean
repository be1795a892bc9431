import Veloxide.Library.Execution

namespace PriorityBags

open List Machine Function

variable {H α ι : Type}

/-- The operations of a mergeable priority queue; a merge returns both queues. -/
structure Queue (H α : Type) where
  push : H → α → H
  pop : H → Option α × H
  peek : H → Option α
  merge : H → H → H × H
  len : H → Nat

inductive Call (α ι : Type)
  | push (queue : ι) (elem : α)
  | pop (queue : ι)
  | peek (queue : ι)
  | merge (queue other : ι) (distinct : queue ≠ other)
  | len (queue : ι)

inductive Reply (α : Type)
  | done
  | elem (elem : Option α)
  | count (len : Nat)

def Queue.step [DecidableEq ι] (queue : Queue H α) (heaps : ι → H) : Call α ι → Reply α × (ι → H)
  | .push i elem => (.done, update heaps i (queue.push (heaps i) elem))
  | .pop i => (.elem (queue.pop (heaps i)).1, update heaps i (queue.pop (heaps i)).2)
  | .peek i => (.elem (queue.peek (heaps i)), heaps)
  | .merge i j _ => (.done, update (update heaps i (queue.merge (heaps i) (heaps j)).1) j
    (queue.merge (heaps i) (heaps j)).2)
  | .len i => (.count (queue.len (heaps i)), heaps)

/-- What repeated pops return. -/
def Queue.drain (queue : Queue H α) : Nat → H → List α
  | 0, _ => []
  | count + 1, heap =>
    match queue.pop heap with
    | (none, _) => []
    | (some elem, rest) => elem :: queue.drain count rest

variable {Holds : H → Multiset α → Prop} {heap : H} {bag : Multiset α}

theorem holds_update [DecidableEq ι] {heaps : ι → H} {contents : ι → Multiset α}
    (hh : ∀ i, Holds (heaps i) (contents i)) (i : ι) (here : Holds heap bag) :
    ∀ j, Holds (update heaps i heap j) (update contents i bag j) := by
  intro j
  rcases eq_or_ne j i with rfl | hn
  · rwa [update_self, update_self]
  · rw [update_of_ne hn, update_of_ne hn]
    exact hh j

/-- The sum of what the members of a list hold. -/
inductive Gathers {X : Type} (R : X → Multiset α → Prop) : List X → Multiset α → Prop
  | nil : Gathers R [] 0
  | cons {x : X} {xs : List X} {bag more : Multiset α} (here : R x bag) (rest : Gathers R xs more) :
    Gathers R (x :: xs) (bag + more)

namespace Gathers

variable {X : Type} {R : X → Multiset α → Prop} {x : X} {xs ys : List X} {more : Multiset α}

theorem single (here : R x bag) : Gathers R [x] bag := by
  have sum := Gathers.cons here .nil
  rwa [add_zero] at sum

theorem append (hx : Gathers R xs bag) (hy : Gathers R ys more) : Gathers R (xs ++ ys) (bag + more) := by
  induction hx with
  | nil => rwa [zero_add]
  | cons here rest ih =>
    rw [add_assoc]
    exact .cons here ih

theorem reverse (hx : Gathers R xs bag) : Gathers R xs.reverse bag := by
  induction hx with
  | nil => exact .nil
  | cons here rest ih =>
    rw [reverse_cons, add_comm]
    exact ih.append (.single here)

end Gathers

variable [LinearOrder α]

/-- Multisets, of which a least element is popped. -/
def bags : Queue (Multiset α) α where
  push bag elem := elem ::ₘ bag
  pop bag := (bag.sort.head?, bag.sort.tail)
  peek bag := bag.sort.head?
  merge bag other := (bag + other, 0)
  len := Multiset.card

variable {queue : Queue H α}

inductive Took (Holds : H → Multiset α → Prop) : Option α × H → Multiset α → Prop
  | none {heap : H} (rest : Holds heap 0) : Took Holds (none, heap) 0
  | some {elem : α} {heap : H} {bag : Multiset α} (least : ∀ other ∈ bag, elem ≤ other) (rest : Holds heap bag) :
    Took Holds (some elem, heap) (elem ::ₘ bag)

structure Implements (queue : Queue H α) (Holds : H → Multiset α → Prop) : Prop where
  push : ∀ heap bag, Holds heap bag → ∀ elem, Holds (queue.push heap elem) (elem ::ₘ bag)
  pop : ∀ heap bag, Holds heap bag → Took Holds (queue.pop heap) bag
  peek : ∀ heap bag, Holds heap bag → queue.peek heap = (queue.pop heap).1
  merge : ∀ heap bag, Holds heap bag → ∀ other more, Holds other more →
    Holds (queue.merge heap other).1 (bag + more) ∧ Holds (queue.merge heap other).2 0
  len : ∀ heap bag, Holds heap bag → queue.len heap = bag.card

theorem Took.agrees {popped : Option α × H} (ht : Took Holds popped bag) :
    popped.1 = (bags.pop bag).1 ∧ Holds popped.2 (bags.pop bag).2 := by
  cases ht with
  | none rest => simpa [bags] using rest
  | some least rest => simpa [bags, Multiset.sort_cons _ _ _ least] using rest

namespace Implements

variable (hi : Implements queue Holds)

include hi

theorem step [DecidableEq ι] {heaps : ι → H} {contents : ι → Multiset α} (hh : ∀ i, Holds (heaps i) (contents i))
    (call : Call α ι) : (queue.step heaps call).1 = (bags.step contents call).1 ∧
      ∀ i, Holds ((queue.step heaps call).2 i) ((bags.step contents call).2 i) := by
  cases call with
  | push i elem => exact ⟨rfl, holds_update hh i (hi.push _ _ (hh i) elem)⟩
  | pop i =>
    have took := (hi.pop _ _ (hh i)).agrees
    exact ⟨congrArg Reply.elem took.1, holds_update hh i took.2⟩
  | peek i =>
    have took := (hi.pop _ _ (hh i)).agrees
    exact ⟨congrArg Reply.elem ((hi.peek _ _ (hh i)).trans took.1), hh⟩
  | merge i j distinct =>
    have merged := hi.merge _ _ (hh i) _ _ (hh j)
    exact ⟨rfl, holds_update (holds_update hh i merged.1) j merged.2⟩
  | len i => exact ⟨congrArg Reply.count (hi.len _ _ (hh i)), hh⟩

theorem drain (hh : Holds heap bag) : queue.drain bag.card heap = bag.sort := by
  generalize hc : bag.card = count
  induction count generalizing heap bag with
  | zero =>
    rw [Multiset.card_eq_zero.mp hc, Multiset.sort_zero]
    rfl
  | succ count ih =>
    have took := hi.pop heap bag hh
    rw [Queue.drain]
    generalize queue.pop heap = popped at took
    cases took with
    | none rest => cases hc
    | some least rest =>
      rw [Multiset.card_cons, Nat.add_right_cancel_iff] at hc
      rw [Multiset.sort_cons _ _ _ least]
      exact congrArg _ (ih rest hc)

theorem run [DecidableEq ι] {new : H} (hn : Holds new 0) (calls : List (Call α ι)) :
    (trace queue.step (fun _ => new) calls).map Event.reply = (trace bags.step (fun _ => 0) calls).map Event.reply ∧
    ∀ i, let heap := final queue.step (fun _ => new) calls i
      queue.drain (queue.len heap) heap = (final bags.step (fun _ => 0) calls i).sort := by
  obtain ⟨replies, hh⟩ := simulation queue.step bags.step (fun heaps contents => ∀ i, Holds (heaps i) (contents i)) Eq
    (fun _ => True) (fun _ _ call hh _ => hi.step hh call) (fun _ => hn) (fun _ _ => trivial : ∀ call ∈ calls, True)
  rw [forall₂_eq_eq_eq] at replies
  refine ⟨replies, ?_⟩
  intro i
  dsimp only
  rw [hi.len _ _ (hh i), hi.drain (hh i)]

end Implements

end PriorityBags
