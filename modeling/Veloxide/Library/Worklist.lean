import Mathlib

open List

structure HashOrder (α : Type) where
  iterate : List α → List α
  perm : ∀ items, (iterate items).Perm items

def HashOrder.unchanged (α : Type) : HashOrder α := ⟨id, fun items => List.Perm.refl items⟩

namespace BreadthFirst

variable {α : Type}

structure Frontier (α : Type) where
  queue : List α
  reached : List α

section

variable [DecidableEq α] (next : α → List α)

def offer (front : Frontier α) (node : α) : Frontier α :=
  if node ∈ front.reached then front else ⟨front.queue ++ [node], front.reached ++ [node]⟩

def run : Nat → Frontier α → Frontier α
  | 0, front => front
  | fuel + 1, front =>
    match front.queue with
    | [] => front
    | current :: rest => run fuel ((next current).foldl offer ⟨rest, front.reached⟩)

end

theorem run_of_queue_nil [DecidableEq α] (next : α → List α) (fuel : Nat) (reached : List α) :
    run next fuel ⟨[], reached⟩ = ⟨[], reached⟩ := by
  cases fuel with
  | zero | succ fuel => rfl

structure Extends (nodes : List α) (before after : Frontier α) : Prop where
  kept : ∀ node ∈ before.reached, node ∈ after.reached
  added : ∀ node ∈ nodes, node ∈ after.reached
  queued : ∀ node ∈ before.queue, node ∈ after.queue
  listed : (∀ node ∈ before.queue, node ∈ before.reached) → ∀ node ∈ after.queue, node ∈ after.reached
  fresh : ∀ node ∈ after.reached, node ∈ before.reached ∨ (node ∈ nodes ∧ node ∈ after.queue)
  nodup : before.reached.Nodup → after.reached.Nodup
  length : after.queue.length + before.reached.length = before.queue.length + after.reached.length

theorem Extends.trans {first second : List α} {before middle after : Frontier α}
    (left : Extends first before middle) (hi : Extends second middle after) :
    Extends (first ++ second) before after := by
  refine ⟨fun node mem => hi.kept node (left.kept node mem), fun node mem => ?_,
    fun node mem => hi.queued node (left.queued node mem), fun ha => hi.listed (left.listed ha),
    fun node mem => ?_, fun hd => hi.nodup (left.nodup hd), ?_⟩
  · rcases mem_append.mp mem with he | late
    · exact hi.kept node (left.added node he)
    · exact hi.added node late
  · rcases hi.fresh node mem with he | late
    · rcases left.fresh node he with old | new
      · exact .inl old
      · exact .inr ⟨mem_append_left second new.1, hi.queued node new.2⟩
    · exact .inr ⟨mem_append_right first late.1, late.2⟩
  · have hl := left.length
    have hr := hi.length
    omega

variable [DecidableEq α] {next : α → List α}

theorem offer_extends (front : Frontier α) (node : α) : Extends [node] front (offer front node) := by
  rw [offer]
  split_ifs with known
  · refine ⟨fun _ mem => mem, fun other mem => ?_, fun _ mem => mem, fun hl => hl,
      fun _ mem => .inl mem, fun hd => hd, rfl⟩
    rw [mem_singleton.mp mem]
    exact known
  · refine ⟨fun other mem => mem_append_left _ mem, fun other mem => mem_append_right _ mem,
      fun other mem => mem_append_left _ mem, fun hl other mem => ?_, fun other mem => ?_,
      fun hd => ?_, ?_⟩
    · rcases mem_append.mp mem with old | new
      · exact mem_append_left _ (hl other old)
      · exact mem_append_right _ new
    · rcases mem_append.mp mem with old | new
      · exact .inl old
      · exact .inr ⟨new, mem_append_right _ new⟩
    · rw [nodup_append]
      refine ⟨hd, nodup_singleton node, fun left mem right only same => ?_⟩
      rw [same, mem_singleton.mp only] at mem
      exact known mem
    · simp only [length_append, length_singleton]
      omega

theorem foldl_offer_extends (nodes : List α) (front : Frontier α) :
    Extends nodes front (nodes.foldl offer front) := by
  induction nodes generalizing front with
  | nil =>
    refine ⟨fun _ mem => mem, fun _ mem => ?_, fun _ mem => mem, fun hl => hl, fun _ mem => .inl mem, fun hd => hd, rfl⟩
    cases mem
  | cons node nodes ih => exact (offer_extends front node).trans (ih (offer front node))

/-- The nodes that have left the queue have all their successors reached. -/
structure Invariant (next : α → List α) (nodes : List α) (front : Frontier α) : Prop where
  nodup : front.reached.Nodup
  within : ∀ node ∈ front.reached, node ∈ nodes
  queued : ∀ node ∈ front.queue, node ∈ front.reached
  expanded : ∀ node ∈ front.reached, node ∈ front.queue ∨ ∀ other ∈ next node, other ∈ front.reached

theorem Invariant.pop {nodes queue reached : List α} {current : α}
    (hc : ∀ node ∈ nodes, ∀ other ∈ next node, other ∈ nodes)
    (hi : Invariant next nodes ⟨current :: queue, reached⟩) :
    Invariant next nodes ((next current).foldl offer ⟨queue, reached⟩) := by
  have he := foldl_offer_extends (next current) ⟨queue, reached⟩
  have hk : current ∈ reached := hi.queued current mem_cons_self
  have hl : ∀ node ∈ queue, node ∈ reached := fun node mem =>
    hi.queued node (mem_cons_of_mem current mem)
  refine ⟨he.nodup hi.nodup, fun node mem => ?_, he.listed hl, fun node mem => ?_⟩
  · rcases he.fresh node mem with old | new
    · exact hi.within node old
    · exact hc current (hi.within current hk) node new.1
  · rcases he.fresh node mem with old | new
    · rcases hi.expanded node old with hw | expanded
      · rcases mem_cons.mp hw with same | later
        · rw [same]
          exact .inr he.added
        · exact .inl (he.queued node later)
      · exact .inr fun other hs => he.kept other (expanded other hs)
    · exact .inl new.2

theorem run_drains {nodes : List α} (hc : ∀ node ∈ nodes, ∀ other ∈ next node, other ∈ nodes)
    (fuel : Nat) (front : Frontier α) (hi : Invariant next nodes front)
    (hn : front.queue.length + nodes.length ≤ fuel + front.reached.length) :
    (run next fuel front).queue = [] ∧ Invariant next nodes (run next fuel front) ∧
      ∀ node ∈ front.reached, node ∈ (run next fuel front).reached := by
  induction fuel generalizing front with
  | zero =>
    have hb := (hi.nodup.subperm hi.within).length_le
    have hd : front.queue.length = 0 := by omega
    exact ⟨length_eq_zero_iff.mp hd, hi, fun _ mem => mem⟩
  | succ fuel ih =>
    obtain ⟨queue, reached⟩ := front
    cases queue with
    | nil => exact ⟨rfl, hi, fun _ mem => mem⟩
    | cons current queue =>
      have he := foldl_offer_extends (next current) ⟨queue, reached⟩
      have ha := he.length
      simp only [length_cons] at hn ha
      have hr := ih _ (hi.pop hc) (by omega)
      exact ⟨hr.1, hr.2.1, fun node mem => hr.2.2 node (he.kept node mem)⟩

theorem reached_of_reflTransGen {nodes starts : List α}
    (hc : ∀ node ∈ nodes, ∀ other ∈ next node, other ∈ nodes) (hd : starts.Nodup)
    (ha : ∀ node ∈ starts, node ∈ nodes) {start node : α} (mem : start ∈ starts)
    (hl : Relation.ReflTransGen (fun node other => other ∈ next node) start node) :
    node ∈ (run next nodes.length ⟨starts, starts⟩).reached := by
  have hi : Invariant next nodes ⟨starts, starts⟩ := ⟨hd, ha, fun _ hq => hq, fun _ hq => .inl hq⟩
  have hr := run_drains hc nodes.length ⟨starts, starts⟩ hi (by simp only; omega)
  induction hl with
  | refl => exact hr.2.2 start mem
  | tail _ step ih =>
    rcases hr.2.1.expanded _ ih with hw | expanded
    · rw [hr.1] at hw
      cases hw
    · exact expanded _ step

end BreadthFirst
