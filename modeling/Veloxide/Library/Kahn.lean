import Veloxide.Library.Digraph

namespace Kahn

open List

variable {α : Type}

def Sorted (dependencies : α → List α) (order : List α) : Prop :=
  ∀ before node after, order = before ++ node :: after → ∀ other ∈ dependencies node, other ∈ before

variable {order : List α}

theorem Sorted.append_singleton {deps : α → List α} {node : α} (hs : Sorted deps order)
    (ready : ∀ other ∈ deps node, other ∈ order) : Sorted deps (order ++ [node]) := by
  intro before last after split other mem
  rcases eq_nil_or_concat after with rfl | ⟨past, final, rfl⟩
  · obtain ⟨rfl, only⟩ := append_inj' split rfl
    cases only
    exact ready other mem
  · rw [concat_eq_append, ← cons_append, ← append_assoc] at split
    exact hs before last past (append_inj' split rfl).1 other mem

theorem Sorted.of_append {deps : α → List α} {rest : List α}
    (hs : Sorted deps (order ++ rest)) : Sorted deps order := by
  intro before node after split other mem
  refine hs before node (after ++ rest) ?_ other mem
  rw [split, append_assoc, cons_append]

theorem Sorted.reverse {forward backward : α → List α} (hs : Sorted forward order) (hd : order.Nodup)
    (hc : ∀ node ∈ order, ∀ other ∈ backward node, other ∈ order ∧ node ∈ forward other) :
    Sorted backward order.reverse := by
  intro before node after split other mem
  have here : order = after.reverse ++ node :: before.reverse := by
    rw [← reverse_reverse order, split]
    simp
  have hf : node ∉ after.reverse := fun he =>
    (nodup_append.mp (here ▸ hd)).2.2 node he node mem_cons_self rfl
  obtain ⟨hl, hj⟩ := hc node (by rw [here]; simp) other mem
  rw [here, mem_append, mem_cons] at hl
  rcases hl with he | same | late
  · obtain ⟨first, second, hp⟩ := append_of_mem he
    have ho := hs first other (second ++ node :: before.reverse) (by rw [here, hp]; simp) node hj
    exact absurd (hp ▸ mem_append_left _ ho) hf
  · subst same
    exact absurd (hs _ other _ here other hj) hf
  · exact mem_reverse.mp late

variable [DecidableEq α]

/-- How many dependencies each node still waits for, the nodes that wait for none, and those emitted. -/
structure State (α : Type) where
  degree : α → Nat
  queue : List α
  order : List α

def release (state : State α) (dependent : α) : State α := let degree := state.degree dependent - 1
  ⟨Function.update state.degree dependent degree,
    if degree = 0 then state.queue ++ [dependent] else state.queue, state.order⟩

def emit (dependents : α → List α) (state : State α) (node : α) (rest : List α) : State α :=
  (dependents node).foldl release ⟨state.degree, rest, state.order ++ [node]⟩

def run (dependents : α → List α) : Nat → State α → State α
  | 0, state => state
  | fuel + 1, state =>
    match state.queue with
    | [] => state
    | node :: rest => run dependents fuel (emit dependents state node rest)

def runStack (dependents : α → List α) : Nat → State α → State α
  | 0, state => state
  | fuel + 1, state =>
    match state.queue.getLast? with
    | none => state
    | some node => runStack dependents fuel (emit dependents state node state.queue.dropLast)

section

/-- Each occurrence takes one off the degree, and what comes down to zero joins the queue. -/
structure Released (nodes : List α) (before after : State α) (joined : List α) : Prop where
  degree : ∀ node, after.degree node = before.degree node - nodes.count node
  order : after.order = before.order
  queue : after.queue = before.queue ++ joined
  nodup : joined.Nodup
  mem_iff : ∀ node, node ∈ joined ↔ node ∈ nodes ∧ before.degree node = nodes.count node

theorem release_degree (state : State α) (first node : α) :
    (release state first).degree node = state.degree node - if node = first then 1 else 0 := by
  rw [release]
  by_cases same : node = first
  · rw [same, if_pos rfl]
    exact Function.update_self ..
  · rw [if_neg same]
    exact Function.update_of_ne same ..

theorem count_cons_eq (node first : α) (nodes : List α) :
    (first :: nodes).count node = nodes.count node + if node = first then 1 else 0 := by
  by_cases same : node = first
  · rw [same, if_pos rfl, count_cons_self]
  · rw [if_neg same, count_cons_of_ne (Ne.symm same), Nat.add_zero]

variable (nodes : List α)

theorem foldl_release (state : State α) (he : ∀ node, nodes.count node ≤ state.degree node) :
    ∃ joined, Released nodes state (nodes.foldl release state) joined := by
  induction nodes generalizing state with
  | nil => exact ⟨[], ⟨fun _ => rfl, rfl, (append_nil _).symm, nodup_nil, by simp⟩⟩
  | cons first nodes ih =>
    have hr : ∀ node, nodes.count node ≤ (release state first).degree node := by
      intro node
      have hb := he node
      rw [count_cons_eq] at hb
      rw [release_degree]
      omega
    obtain ⟨joined, ha⟩ := ih (release state first) hr
    have hp := he first
    rw [count_cons_eq, if_pos rfl] at hp
    have hd : ∀ node, (nodes.foldl release (release state first)).degree node =
        state.degree node - (first :: nodes).count node := by
      intro node
      rw [ha.degree, release_degree, count_cons_eq]
      omega
    have hm : ∀ node, (release state first).degree node = nodes.count node ↔
        state.degree node = (first :: nodes).count node := by
      intro node
      have hb := he node
      rw [count_cons_eq] at hb
      rw [release_degree, count_cons_eq]
      split_ifs at hb ⊢ with same
      · omega
      · omega
    by_cases last : state.degree first = 1
    · have gone : first ∉ nodes := count_eq_zero.mp (by omega)
      refine ⟨first :: joined, hd, ha.order, ?_, ?_, fun node => ?_⟩
      · rw [foldl_cons, ha.queue, release, if_pos (by omega), append_assoc]
        rfl
      · exact nodup_cons.mpr ⟨fun mem => gone ((ha.mem_iff first).mp mem).1, ha.nodup⟩
      · rw [mem_cons, mem_cons, ha.mem_iff, hm]
        constructor
        · intro found
          rcases found with rfl | found
          · exact ⟨.inl rfl, by rw [last, count_cons_self, count_eq_zero.mpr gone]⟩
          · exact ⟨.inr found.1, found.2⟩
        · intro found
          rcases found.1 with same | mem
          · exact .inl same
          · exact .inr ⟨mem, found.2⟩
    · refine ⟨joined, hd, ha.order, ?_, ha.nodup, fun node => ?_⟩
      · rw [foldl_cons, ha.queue, release, if_neg (by omega)]
      · rw [ha.mem_iff, hm, mem_cons]
        refine and_congr_left fun full => ⟨.inr, fun mem => ?_⟩
        rcases mem with rfl | mem
        · rw [count_cons_self] at full
          exact count_pos_iff.mp (by omega)
        · exact mem

theorem foldl_release_order (state : State α) : (nodes.foldl release state).order = state.order := by
  induction nodes generalizing state with
  | nil => rfl
  | cons first nodes ih => exact ih (release state first)

end

section

variable {deps dependents : α → List α} {nodes : List α}

/-- The lists of dependents turn the lists of dependencies around, duplicates included. -/
structure Inverse (dependencies dependents : α → List α) (nodes : List α) : Prop where
  count : ∀ node ∈ nodes, ∀ other, (dependents other).count node = (dependencies node).count other
  within : ∀ node other, other ∈ dependents node → other ∈ nodes

structure Invariant (dependencies : α → List α) (nodes : List α) (state : State α) : Prop where
  degree : ∀ node ∈ nodes, state.degree node = (dependencies node).countP (· ∉ state.order)
  nodup : (state.order ++ state.queue).Nodup
  within : ∀ node ∈ state.order ++ state.queue, node ∈ nodes
  listed : ∀ node ∈ nodes, node ∈ state.order ++ state.queue ↔ state.degree node = 0
  sorted : Sorted dependencies state.order

variable {node : α}

theorem countP_not_mem (order : List α) (hf : node ∉ order) (others : List α) :
    others.countP (· ∉ order) = others.countP (· ∉ order ++ [node]) + others.count node := by
  induction others with
  | nil => rfl
  | cons other others ih =>
    rw [countP_cons, countP_cons, count_cons_eq, ih]
    by_cases same : node = other
    · subst same
      simp [hf, Nat.add_assoc]
    · have hd : other ≠ node := Ne.symm same
      simp only [mem_append, mem_singleton, hd, or_false, same, if_false]
      omega

section

variable (inverse : Inverse deps dependents nodes) {state : State α} {node : α} {rest : List α}
  (invariant : Invariant deps nodes state) (front : state.queue = node :: rest)

include invariant front

theorem Invariant.fresh : node ∉ state.order := by
  intro hk
  have hd := invariant.nodup
  rw [front] at hd
  exact (nodup_append.mp hd).2.2 node hk node mem_cons_self rfl

include inverse

/-- What a node waits for splits into what it waits for once the front is emitted, and the front itself. -/
theorem Invariant.degree_split {other : α} (hp : other ∈ nodes) : state.degree other =
    (deps other).countP (· ∉ state.order ++ [node]) + (dependents node).count other := by
  rw [invariant.degree other hp, countP_not_mem state.order (invariant.fresh front), inverse.count other hp]

theorem Invariant.enough (other : α) : (dependents node).count other ≤ state.degree other := by
  by_cases hp : other ∈ nodes
  · rw [invariant.degree_split inverse front hp]
    omega
  · have ha : other ∉ dependents node := fun hd => hp (inverse.within node other hd)
    rw [count_eq_zero.mpr ha]
    exact Nat.zero_le _

theorem Invariant.emit : Invariant deps nodes (Kahn.emit dependents state node rest) := by
  have hs : ∀ other ∈ nodes, _ := fun other ha => invariant.degree_split inverse front ha
  have he := invariant.enough inverse front
  obtain ⟨hg, hc, hw, hl, ho⟩ := invariant
  rw [front] at hc hw hl
  have mem : node ∈ nodes := hw node (by simp)
  obtain ⟨joined, hr⟩ := foldl_release (dependents node) ⟨state.degree, rest, state.order ++ [node]⟩ he
  rw [Kahn.emit]
  generalize (dependents node).foldl release ⟨state.degree, rest, state.order ++ [node]⟩ = after at hr
  have hi : after.order ++ after.queue = (state.order ++ node :: rest) ++ joined := by
    rw [hr.order, hr.queue]
    simp
  refine ⟨fun other ha => ?_, ?_, fun other ha => ?_, fun other ha => ?_, ?_⟩
  · have hf := hr.degree other
    rw [hs other ha] at hf
    rw [hr.order, hf, Nat.add_sub_cancel]
  · rw [hi]
    refine nodup_append.mpr ⟨hc, hr.nodup, fun other old same new hq => ?_⟩
    subst hq
    obtain ⟨hk, full⟩ := (hr.mem_iff other).mp new
    have zero := (hl other (hw other old)).mp old
    have hp := count_pos_iff.mpr hk
    simp only at full
    omega
  · rw [hi] at ha
    rcases mem_append.mp ha with old | new
    · exact hw other old
    · exact inverse.within node other ((hr.mem_iff other).mp new).1
  · have hb := he other
    have hf : after.degree other = state.degree other - (dependents node).count other := hr.degree other
    have hj := hr.mem_iff other
    simp only at hj
    rw [hi, mem_append, hl other ha, hj, hf]
    by_cases hk : other ∈ dependents node
    · simp only [hk, true_and]
      omega
    · rw [count_eq_zero.mpr hk]
      simp [hk]
  · rw [hr.order]
    apply ho.append_singleton
    have zero := (hl node mem).mp (by simp)
    rw [hg node mem, countP_eq_zero] at zero
    exact fun other hd => not_not.mp fun hm => zero other hd (decide_eq_true hm)

end

variable {state : State α}

theorem Invariant.reorder (invariant : Invariant deps nodes state) {queue : List α}
    (perm : queue.Perm state.queue) : Invariant deps nodes ⟨state.degree, queue, state.order⟩ := by
  obtain ⟨he, hd, hw, hl, hs⟩ := invariant
  have same := perm.append_left state.order
  refine ⟨he, same.nodup_iff.mpr hd, fun node mem => hw node (same.mem_iff.mp mem), ?_, hs⟩
  intro node mem
  rw [same.mem_iff]
  exact hl node mem

theorem Invariant.drained (invariant : Invariant deps nodes state)
    (he : nodes.length ≤ state.order.length) : state.queue = [] := by
  have hb := (invariant.nodup.subperm invariant.within).length_le
  rw [length_append] at hb
  have none : state.queue.length = 0 := by omega
  exact length_eq_zero_iff.mp none

theorem length_order_emit (state : State α) (node : α) (rest : List α) :
    (Kahn.emit dependents state node rest).order.length = state.order.length + 1 := by
  rw [Kahn.emit, foldl_release_order, length_append, length_singleton]

theorem run_invariant (inverse : Inverse deps dependents nodes) (fuel : Nat) (state : State α)
    (invariant : Invariant deps nodes state) (he : nodes.length ≤ fuel + state.order.length) :
    (run dependents fuel state).queue = [] ∧ Invariant deps nodes (run dependents fuel state) := by
  induction fuel generalizing state with
  | zero => exact ⟨invariant.drained (by omega), invariant⟩
  | succ fuel ih =>
    rw [run]
    split
    · exact ⟨by assumption, invariant⟩
    · rename_i node rest front
      apply ih _ (invariant.emit inverse front)
      rw [length_order_emit]
      omega

theorem runStack_invariant (inverse : Inverse deps dependents nodes) (fuel : Nat) (state : State α)
    (invariant : Invariant deps nodes state) (hn : nodes.length ≤ fuel + state.order.length) :
    (runStack dependents fuel state).queue = [] ∧ Invariant deps nodes (runStack dependents fuel state) := by
  induction fuel generalizing state with
  | zero => exact ⟨invariant.drained (by omega), invariant⟩
  | succ fuel ih =>
    rw [runStack]
    split
    · rename_i ha
      exact ⟨getLast?_eq_none_iff.mp ha, invariant⟩
    · rename_i node last
      have split : state.queue.dropLast ++ [node] = state.queue := dropLast_append_getLast? node last
      have perm : (node :: state.queue.dropLast).Perm state.queue := by
        have hm := perm_append_singleton node state.queue.dropLast
        rw [split] at hm
        exact hm.symm
      have he : Invariant deps nodes (emit dependents state node state.queue.dropLast) :=
        (invariant.reorder perm).emit inverse rfl
      apply ih _ he
      rw [length_order_emit]
      omega

theorem Invariant.waits (invariant : Invariant deps nodes state) (hd : state.queue = [])
    (mem : node ∈ nodes) (hm : node ∉ state.order) : ∃ other ∈ deps node, other ∉ state.order := by
  have hl := invariant.listed node mem
  rw [hd, append_nil] at hl
  have waits := mt hl.mpr hm
  rw [invariant.degree node mem, countP_eq_zero] at waits
  simpa using waits

section

variable (inverse : Inverse deps dependents nodes) {queue : List α}
  (ready : queue.Perm (nodes.filter fun node => (deps node).length = 0))

def start (dependencies : α → List α) (queue : List α) : State α := ⟨fun node => (dependencies node).length, queue, []⟩

include ready in
theorem start_invariant (hu : nodes.Nodup) : Invariant deps nodes (start deps queue) := by
  refine ⟨fun node _ => ?_, ?_, fun node mem => ?_, fun node mem => ?_, fun before node after split => ?_⟩
  · exact (countP_eq_length.mpr fun other _ => by simp [start]).symm
  · exact ready.nodup_iff.mpr (hu.filter _)
  · exact mem_of_mem_filter (ready.mem_iff.mp mem)
  · rw [start, nil_append, ready.mem_iff, mem_filter, decide_eq_true_eq]
    exact and_iff_right mem
  · simp [start] at split

include inverse ready in
theorem run_start (hu : nodes.Nodup) {fuel : Nat} (he : nodes.length ≤ fuel) :
    let order := (run dependents fuel (start deps queue)).order
    order.Nodup ∧ (∀ node ∈ order, node ∈ nodes) ∧ Sorted deps order ∧
      ∀ node ∈ nodes, node ∉ order → ∃ other ∈ deps node, other ∉ order := by
  obtain ⟨hr, invariant⟩ := run_invariant inverse fuel (start deps queue)
    (start_invariant ready hu) (Nat.le_add_right_of_le he)
  have hd := invariant.nodup
  have hw := invariant.within
  rw [hr, append_nil] at hd hw
  exact ⟨hd, hw, invariant.sorted, fun _ mem hm => invariant.waits hr mem hm⟩

end

end

section

open Digraph

variable {deps : α → List α} {nodes order : List α}

omit [DecidableEq α] in
theorem acc_of_sorted (hs : Sorted deps order) (node : α) (mem : node ∈ order) :
    Acc (Function.swap fun node other => other ∈ deps node) node := by
  obtain ⟨before, after, split⟩ := append_of_mem mem
  induction length : before.length using Nat.strong_induction_on generalizing node before after with
  | _ size ih =>
    refine ⟨node, fun other hd => ?_⟩
    have he : other ∈ before := hs before node after split other hd
    obtain ⟨first, second, rfl⟩ := append_of_mem he
    refine ih first.length ?_ other ?_ first (second ++ node :: after) ?_ rfl
    · rw [← length, length_append, length_cons]
      omega
    · rw [split]
      simp
    · rw [split, append_assoc, cons_append]

omit [DecidableEq α] in
theorem not_mem_of_cycle (hs : Sorted deps order) {node : α}
    (hc : Relation.TransGen (fun node other => other ∈ deps node) node node) : node ∉ order := by
  intro mem
  apply not_self_of_acc (acc_of_sorted hs node mem).transGen
  rw [Relation.transGen_swap]
  exact hc

omit [DecidableEq α] in
theorem mem_of_acyclic (hw : ∀ node other, other ∈ deps node → node ∈ nodes ∧ other ∈ nodes)
    (hb : ∀ node ∈ nodes, node ∉ order → ∃ other ∈ deps node, other ∉ order)
    (ha : Acyclic fun node other => other ∈ deps node) (node : α) (mem : node ∈ nodes) : node ∈ order := by
  by_contra hm
  have hf := wellFounded_of_acyclic (finite_toSet nodes)
    (fun node other hd => (hw other node hd).symm) ha.swap
  obtain ⟨first, ⟨hp, he⟩, hl⟩ := hf.has_min {node | node ∈ nodes ∧ node ∉ order} ⟨node, mem, hm⟩
  obtain ⟨other, hd, left⟩ := hb first hp he
  exact hl other ⟨(hw first other hd).2, left⟩ hd

omit [DecidableEq α] in
theorem complete_iff_acyclic (hw : ∀ node other, other ∈ deps node → node ∈ nodes ∧ other ∈ nodes)
    (hu : nodes.Nodup) (hi : order.Nodup) (hl : ∀ node ∈ order, node ∈ nodes) (hs : Sorted deps order)
    (hb : ∀ node ∈ nodes, node ∉ order → ∃ other ∈ deps node, other ∉ order) :
    order.length = nodes.length ↔ Acyclic fun node other => other ∈ deps node := by
  constructor
  · intro full
    have same := (hi.subperm hl).perm_of_length_le full.ge
    apply acyclic_of_acc
    intro node other hd
    exact acc_of_sorted hs node (same.mem_iff.mpr (hw node other hd).1)
  · intro ha
    have hc := mem_of_acyclic hw hb ha
    exact Nat.le_antisymm (hi.subperm hl).length_le (hu.subperm hc).length_le

end

section

variable (edges : List (α × α))

def successors (node : α) : List α := (edges.filter fun edge => edge.1 = node).map Prod.snd

def predecessors (node : α) : List α := (edges.filter fun edge => edge.2 = node).map Prod.fst

def ends : List α := (edges.map Prod.fst ++ edges.map Prod.snd).dedup

variable {edges} {node other : α}

theorem mem_predecessors : other ∈ predecessors edges node ↔ (other, node) ∈ edges := by
  simp [predecessors]

theorem mem_successors : other ∈ successors edges node ↔ (node, other) ∈ edges := by
  simp [successors]

theorem nodup_ends : (ends edges).Nodup := nodup_dedup _

theorem mem_ends : node ∈ ends edges ↔ (∃ other, (node, other) ∈ edges) ∨ ∃ other, (other, node) ∈ edges := by
  simp [ends]

theorem count_successors (node other : α) : (successors edges node).count other = edges.count (node, other) := by
  rw [successors, List.count, countP_map, countP_filter, List.count]
  refine countP_congr fun edge _ => ?_
  simp [Prod.ext_iff, and_comm]

theorem count_predecessors (node other : α) : (predecessors edges node).count other = edges.count (other, node) := by
  rw [predecessors, List.count, countP_map, countP_filter, List.count]
  refine countP_congr fun edge _ => ?_
  simp [Prod.ext_iff]

theorem inverse_edges {nodes : List α} (within : ∀ edge ∈ edges, edge.2 ∈ nodes) :
    Inverse (predecessors edges) (successors edges) nodes where
  count node _ other := by rw [count_successors, count_predecessors]
  within node other mem := within (node, other) (mem_successors.mp mem)

end

end Kahn
