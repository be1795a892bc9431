import Veloxide.Library.Kahn
import Veloxide.Library.Worklist
import Veloxide.Worker.LockStorage

namespace Veloxide.Worker

open OrderedStore Digraph List

structure WaitEdge where
  waiter : OwnerId
  lockId : LockId
  requestedMode : LockMode

structure WaitForGraph where
  waitEdges : List WaitEdge
  lockHolders : Store LockId OwnerId

namespace WaitForGraph

def empty : WaitForGraph := ⟨[], ∅⟩

def addEdge (graph : WaitForGraph) (edge : WaitEdge) : WaitForGraph :=
  let others := graph.waitEdges.filter fun other => ¬ (other.waiter = edge.waiter ∧ other.lockId = edge.lockId)
  { graph with waitEdges := others ++ [edge] }

def setLockHolder (graph : WaitForGraph) (lockId : LockId) (owner : OwnerId) : WaitForGraph :=
  { graph with lockHolders := graph.lockHolders.insert lockId owner }

def removeEdgesForOwner (graph : WaitForGraph) (owner : OwnerId) : WaitForGraph :=
  { graph with waitEdges := graph.waitEdges.filter fun edge => edge.waiter ≠ owner }

def removeEdgesForLock (graph : WaitForGraph) (lockId : LockId) : WaitForGraph :=
  { graph with waitEdges := graph.waitEdges.filter fun edge => edge.lockId ≠ lockId }

inductive Update
  | addEdge (edge : WaitEdge)
  | setLockHolder (lockId : LockId) (owner : OwnerId)
  | removeEdgesForOwner (owner : OwnerId)
  | removeEdgesForLock (lockId : LockId)

def update (graph : WaitForGraph) : Update → WaitForGraph
  | .addEdge edge => graph.addEdge edge
  | .setLockHolder lockId owner => graph.setLockHolder lockId owner
  | .removeEdgesForOwner owner => graph.removeEdgesForOwner owner
  | .removeEdgesForLock lockId => graph.removeEdgesForLock lockId

def built (updates : List Update) : WaitForGraph := updates.foldl update empty

structure Tables where
  inDegree : Store OwnerId Nat
  adjacency : Store OwnerId (List OwnerId)

def recordWait (tables : Tables) (waiter holder : OwnerId) : Tables where
  inDegree := tables.inDegree.insert holder (tables.inDegree[holder]?.getD 0 + 1)
  adjacency := tables.adjacency.insert waiter (tables.adjacency[waiter]?.getD [] ++ [holder])

def recordEdge (graph : WaitForGraph) (tables : Tables) (edge : WaitEdge) : Tables :=
  match graph.lockHolders[edge.lockId]? with
  | some holder => if holder = edge.waiter then tables else recordWait tables edge.waiter holder
  | none => tables

def tables (graph : WaitForGraph) : Tables := graph.waitEdges.foldl graph.recordEdge ⟨∅, ∅⟩

structure Peeling where
  inDegree : Store OwnerId Nat
  queue : List OwnerId

variable (state : Peeling)

def relax (waiter : OwnerId) : Peeling := match state.inDegree[waiter]? with
  | some degree =>
    ⟨state.inDegree.insert waiter (degree - 1), if degree - 1 = 0 then state.queue ++ [waiter] else state.queue⟩
  | none => state

def peel (adjacency : Store OwnerId (List OwnerId)) : Nat → Peeling → Peeling
  | 0, state => state
  | fuel + 1, state =>
    match state.queue.getLast? with
    | none => state
    | some owner => peel adjacency fuel ((adjacency[owner]?.getD []).foldl relax ⟨state.inDegree, state.queue.dropLast⟩)

def detectCycle (graph : WaitForGraph) (hash : HashOrder OwnerId) : Option (List OwnerId) := let tables := graph.tables
  let allOwners := hash.iterate tables.adjacency.keys
  let queue := allOwners.filter fun owner => tables.inDegree[owner]?.getD 0 = 0
  let peeled := peel tables.adjacency (tables.adjacency.size + tables.inDegree.size) ⟨tables.inDegree, queue⟩
  let remaining := allOwners.filter fun owner => 0 < peeled.inDegree[owner]?.getD 0
  if remaining.isEmpty then none else some remaining

section

variable (graph : WaitForGraph)

def WaitsFor (waiter holder : OwnerId) : Prop :=
  holder ≠ waiter ∧ ∃ edge ∈ graph.waitEdges, edge.waiter = waiter ∧ graph.lockHolders[edge.lockId]? = some holder

def waits : List (OwnerId × OwnerId) := graph.waitEdges.filterMap fun edge =>
    (graph.lockHolders[edge.lockId]?.filter fun holder => holder ≠ edge.waiter).map fun holder => (edge.waiter, holder)

theorem mem_waits {graph : WaitForGraph} {waiter holder : OwnerId} :
    (waiter, holder) ∈ graph.waits ↔ graph.WaitsFor waiter holder := by
  simp only [waits, WaitsFor, mem_filterMap, Option.map_eq_some_iff, Option.filter_eq_some_iff, Prod.mk.injEq,
    decide_eq_true_eq]
  constructor
  · rintro ⟨edge, mem, holds, ⟨held, ho⟩, rfl, rfl⟩
    exact ⟨ho, edge, mem, rfl, held⟩
  · rintro ⟨ho, edge, mem, rfl, held⟩
    exact ⟨edge, mem, holder, ⟨held, ho⟩, rfl, rfl⟩

theorem recordEdge_eq (tables : Tables) (edge : WaitEdge) : graph.recordEdge tables edge =
    match (graph.lockHolders[edge.lockId]?.filter fun holder => holder ≠ edge.waiter).map
      fun holder => (edge.waiter, holder) with
    | some (waiter, holder) => recordWait tables waiter holder | none => tables := by
  rw [recordEdge]
  cases graph.lockHolders[edge.lockId]? with
  | none => rfl
  | some holder =>
    by_cases self : holder = edge.waiter
    · simp [self, Option.filter]
    · simp [self, Option.filter]

theorem tables_eq : graph.tables = graph.waits.foldl (fun tables wait => recordWait tables wait.1 wait.2) ⟨∅, ∅⟩ := by
  rw [tables, waits, foldl_filterMap]
  refine foldl_ext _ _ _ fun tables edge _ => ?_
  rw [recordEdge_eq]
  cases (graph.lockHolders[edge.lockId]?.filter fun holder => holder ≠ edge.waiter).map
    fun holder => (edge.waiter, holder) with
  | none => rfl
  | some wait => rfl

end

section

open Kahn

/-- The tables of a list of pairs; an owner without entries has no key. -/
structure Tabulated (waits : List (OwnerId × OwnerId)) (tables : Tables) : Prop where
  inDegree : ∀ owner, tables.inDegree[owner]? =
    if predecessors waits owner = [] then none else some (predecessors waits owner).length
  adjacency : ∀ owner, tables.adjacency[owner]? =
    if successors waits owner = [] then none else some (successors waits owner)

variable {waits : List (OwnerId × OwnerId)} {tables : Tables}

theorem Tabulated.degree (ht : Tabulated waits tables) (owner : OwnerId) :
    tables.inDegree[owner]?.getD 0 = (predecessors waits owner).length := by
  rw [ht.inDegree]
  split_ifs with none
  · rw [none]
    rfl
  · rfl

theorem Tabulated.holders (ht : Tabulated waits tables) (owner : OwnerId) :
    tables.adjacency[owner]?.getD [] = successors waits owner := by
  rw [ht.adjacency]
  split_ifs with none
  · rw [none]
    rfl
  · rfl

theorem predecessors_append_singleton (waits : List (OwnerId × OwnerId)) (waiter holder owner : OwnerId) :
    predecessors (waits ++ [(waiter, holder)]) owner = predecessors waits owner ++ if holder = owner then [waiter] else [] := by
  by_cases same : holder = owner <;> simp [predecessors, same]

theorem successors_append_singleton (waits : List (OwnerId × OwnerId)) (waiter holder owner : OwnerId) :
    successors (waits ++ [(waiter, holder)]) owner = successors waits owner ++ if waiter = owner then [holder] else [] := by
  by_cases same : waiter = owner <;> simp [successors, same]

theorem Tabulated.recordWait (ht : Tabulated waits tables) (waiter holder : OwnerId) :
    Tabulated (waits ++ [(waiter, holder)]) (recordWait tables waiter holder) := by
  constructor
  · intro owner
    rw [predecessors_append_singleton, WaitForGraph.recordWait, get_insert, ht.degree holder]
    by_cases same : holder = owner
    · simp [same]
    · simp [same, ht.inDegree owner]
  · intro owner
    rw [successors_append_singleton, WaitForGraph.recordWait, get_insert, ht.holders waiter]
    by_cases same : waiter = owner
    · simp [same]
    · simp [same, ht.adjacency owner]

theorem tables_tabulated (graph : WaitForGraph) : Tabulated graph.waits graph.tables := by
  rw [tables_eq]
  induction graph.waits using List.reverseRecOn with
  | nil => exact ⟨by simp [predecessors], by simp [successors]⟩
  | append_singleton waits wait ih =>
    rw [foldl_append]
    exact ih.recordWait wait.1 wait.2

theorem Tabulated.mem_keys (ht : Tabulated waits tables) {owner : OwnerId} :
    owner ∈ tables.adjacency.keys ↔ ∃ holder, (owner, holder) ∈ waits := by
  rw [Std.ExtTreeMap.mem_keys, Std.ExtTreeMap.mem_iff_isSome_getElem?, ht.adjacency]
  simp only [← mem_successors]
  cases successors waits owner with
  | nil | cons holder holders => simp

theorem Tabulated.holder_known (ht : Tabulated waits tables) {waiter holder : OwnerId}
    (wait : (waiter, holder) ∈ waits) : (tables.inDegree[holder]?).isSome = true := by
  rw [ht.inDegree, if_neg (ne_nil_of_mem (mem_predecessors.mpr wait))]
  rfl

theorem Tabulated.length_ends (ht : Tabulated waits tables) :
    (ends waits).length ≤ tables.adjacency.size + tables.inDegree.size := by
  have hc : ∀ owner ∈ ends waits, owner ∈ tables.adjacency.keys ++ tables.inDegree.keys := by
    intro owner mem
    rcases mem_ends.mp mem with ⟨holder, wait⟩ | ⟨waiter, wait⟩
    · exact mem_append_left _ (ht.mem_keys.mpr ⟨holder, wait⟩)
    · refine mem_append_right _ ?_
      rw [Std.ExtTreeMap.mem_keys, Std.ExtTreeMap.mem_iff_isSome_getElem?]
      exact ht.holder_known wait
  have hb := (nodup_ends.subperm hc).length_le
  rwa [length_append, Std.ExtTreeMap.length_keys, Std.ExtTreeMap.length_keys] at hb

end

section

open Kahn

def Peeling.toKahn (order : List OwnerId) : Kahn.State OwnerId :=
  ⟨fun owner => state.inDegree[owner]?.getD 0, state.queue, order⟩

theorem relax_toKahn {state : Peeling} {waiter : OwnerId} (hk : (state.inDegree[waiter]?).isSome = true)
    (order : List OwnerId) : (relax state waiter).toKahn order = release (state.toKahn order) waiter := by
  obtain ⟨degree, held⟩ := Option.isSome_iff_exists.mp hk
  have hd : (fun owner => (state.inDegree.insert waiter (degree - 1))[owner]?.getD 0) =
      Function.update (fun owner => state.inDegree[owner]?.getD 0) waiter (degree - 1) := by
    funext owner
    by_cases same : waiter = owner
    · subst same
      rw [get_insert, if_pos rfl, Function.update_self]
      rfl
    · rw [get_insert, if_neg same, Function.update_of_ne (Ne.symm same)]
  simp only [relax, held, Peeling.toKahn, release, hd, Option.getD_some]

theorem relax_keys (waiter owner : OwnerId) (hk : (state.inDegree[owner]?).isSome = true) :
    ((relax state waiter).inDegree[owner]?).isSome = true := by
  rw [relax]
  cases held : state.inDegree[waiter]? with
  | none => exact hk
  | some degree =>
    simp only [get_insert]
    split_ifs with same
    · rfl
    · exact hk

theorem foldl_relax_toKahn {holders : List OwnerId} {state : Peeling}
    (hk : ∀ holder ∈ holders, (state.inDegree[holder]?).isSome = true) (order : List OwnerId) :
    (holders.foldl relax state).toKahn order = holders.foldl release (state.toKahn order) := by
  induction holders generalizing state with
  | nil => rfl
  | cons holder holders ih =>
    rw [foldl_cons, foldl_cons, ← relax_toKahn (hk holder mem_cons_self)]
    exact ih fun other mem => relax_keys state holder other (hk other (mem_cons_of_mem _ mem))

theorem foldl_relax_keys (holders : List OwnerId) (state : Peeling) (owner : OwnerId)
    (hk : (state.inDegree[owner]?).isSome = true) : ((holders.foldl relax state).inDegree[owner]?).isSome = true := by
  induction holders generalizing state with
  | nil => exact hk
  | cons holder holders ih => exact ih (relax state holder) (relax_keys state holder owner hk)

variable {waits : List (OwnerId × OwnerId)} {tables : Tables}

theorem peel_toKahn (ht : Tabulated waits tables) (fuel : Nat) (state : Peeling)
    (hk : ∀ wait ∈ waits, (state.inDegree[wait.2]?).isSome = true) (order : List OwnerId) :
    ∃ emitted, (peel tables.adjacency fuel state).toKahn emitted = runStack (successors waits) fuel (state.toKahn order) := by
  induction fuel generalizing state order with
  | zero => exact ⟨order, rfl⟩
  | succ fuel ih =>
    rw [peel, runStack]
    cases last : state.queue.getLast? with
    | none =>
      refine ⟨order, ?_⟩
      rw [show (state.toKahn order).queue = state.queue from rfl, last]
    | some owner =>
      rw [show (state.toKahn order).queue = state.queue from rfl, last]
      dsimp only
      rw [ht.holders]
      have next := @foldl_relax_toKahn (successors waits owner) ⟨state.inDegree, state.queue.dropLast⟩
        (fun holder mem => hk (owner, holder) (mem_successors.mp mem)) (order ++ [owner])
      obtain ⟨emitted, same⟩ := ih ((successors waits owner).foldl relax ⟨state.inDegree, state.queue.dropLast⟩)
        (fun wait mem => foldl_relax_keys _ _ _ (hk wait mem)) (order ++ [owner])
      rw [next] at same
      exact ⟨emitted, same⟩

end

section

open Kahn

variable (graph : WaitForGraph) (hash : HashOrder OwnerId)

theorem transGen_predecessors {owner : OwnerId} :
    Relation.TransGen (fun owner other => other ∈ predecessors graph.waits owner) owner owner ↔
      Relation.TransGen graph.WaitsFor owner owner := by
  have he : (fun owner other => other ∈ predecessors graph.waits owner) = Function.swap graph.WaitsFor := by
    funext owner other
    exact propext (mem_predecessors.trans mem_waits)
  rw [he, Relation.transGen_swap]

variable {waits : List (OwnerId × OwnerId)} {tables : Tables}

theorem queue_perm (ht : Tabulated waits tables) :
    ((hash.iterate tables.adjacency.keys).filter fun owner => tables.inDegree[owner]?.getD 0 = 0).Perm
      ((ends waits).filter fun owner => (predecessors waits owner).length = 0) := by
  have hd : (hash.iterate tables.adjacency.keys).Nodup := (hash.perm _).nodup_iff.mpr Std.ExtTreeMap.nodup_keys
  refine (perm_ext_iff_of_nodup (hd.filter _) (nodup_ends.filter _)).mpr fun owner => ?_
  rw [mem_filter, mem_filter, (hash.perm _).mem_iff, ht.mem_keys, ht.degree, mem_ends]
  refine and_congr_left fun free => (or_iff_left ?_).symm
  rintro ⟨waiter, wait⟩
  have hl := mem_predecessors.mpr wait
  rw [length_eq_zero_iff.mp (of_decide_eq_true free)] at hl
  cases hl

theorem peeled_spec (ht : Tabulated waits tables) :
    let queue := (hash.iterate tables.adjacency.keys).filter fun owner => tables.inDegree[owner]?.getD 0 = 0
    let peeled := peel tables.adjacency (tables.adjacency.size + tables.inDegree.size) ⟨tables.inDegree, queue⟩
    ∃ order, Sorted (predecessors waits) order ∧
      ∀ owner ∈ ends waits, (0 < peeled.inDegree[owner]?.getD 0 ↔ owner ∉ order) ∧
        (owner ∉ order → ∃ other ∈ predecessors waits owner, other ∉ order) := by
  intro queue peeled
  have hb : (Peeling.mk tables.inDegree queue).toKahn [] = Kahn.start (predecessors waits) queue := by
    rw [Peeling.toKahn, Kahn.start]
    simp only [ht.degree]
  obtain ⟨order, same⟩ := peel_toKahn ht (tables.adjacency.size + tables.inDegree.size) ⟨tables.inDegree, queue⟩
    (fun wait mem => ht.holder_known mem) []
  have hi := start_invariant (queue_perm hash ht) nodup_ends
  obtain ⟨hd, hi⟩ := runStack_invariant
    (inverse_edges fun wait mem => mem_ends.mpr (.inr ⟨wait.1, mem⟩)) _ _ hi
    (Nat.le_trans ht.length_ends (Nat.le_add_right _ _))
  rw [← hb, ← same] at hd hi
  refine ⟨order, hi.sorted, fun owner mem => ⟨?_, hi.waits hd mem⟩⟩
  have hl := hi.listed owner mem
  rw [hd, append_nil] at hl
  exact Nat.pos_iff_ne_zero.trans (not_congr hl.symm)

theorem detectCycle_eq : ∃ order rest, Sorted (predecessors graph.waits) order ∧
    graph.detectCycle hash = (if rest.isEmpty then none else some rest) ∧
      (∀ owner, owner ∈ rest ↔ (∃ holder, graph.WaitsFor owner holder) ∧ owner ∉ order) ∧
      ∀ owner ∈ ends graph.waits, owner ∉ order → ∃ other ∈ predecessors graph.waits owner, other ∉ order := by
  have ht := tables_tabulated graph
  obtain ⟨order, hs, spec⟩ := peeled_spec hash ht
  refine ⟨order, _, hs, rfl, fun owner => ?_, fun owner mem => (spec owner mem).2⟩
  rw [mem_filter, (hash.perm _).mem_iff, ht.mem_keys, decide_eq_true_eq]
  simp only [mem_waits]
  refine and_congr_right ?_
  rintro ⟨holder, hw⟩
  exact (spec owner (mem_ends.mpr (.inl ⟨holder, mem_waits.mpr hw⟩))).1

theorem not_acyclic_iff : (∃ owner, Relation.TransGen graph.WaitsFor owner owner) ↔
    ¬ Acyclic fun owner other => other ∈ predecessors graph.waits owner := by
  rw [Acyclic, not_forall_not]
  exact exists_congr fun owner => (transGen_predecessors graph).symm

theorem detectCycle_exact (updates : List Update) (hash : HashOrder OwnerId) :
    (((built updates).detectCycle hash).isSome = true ↔ ∃ owner, Relation.TransGen (built updates).WaitsFor owner owner) ∧
      ∀ remaining, (built updates).detectCycle hash = some remaining →
        (∀ owner, Relation.TransGen (built updates).WaitsFor owner owner → owner ∈ remaining) ∧
          ∀ owner ∈ remaining, ∃ holder, (built updates).WaitsFor owner holder := by
  generalize built updates = graph
  obtain ⟨order, remaining, hs, hf, hm, waits⟩ := detectCycle_eq graph hash
  have hc : ∀ owner, Relation.TransGen graph.WaitsFor owner owner → owner ∈ remaining := by
    intro owner hy
    obtain ⟨holder, hw, _⟩ := Relation.TransGen.head'_iff.mp hy
    exact (hm owner).mpr ⟨⟨holder, hw⟩, not_mem_of_cycle hs ((transGen_predecessors graph).mpr hy)⟩
  have ho : remaining ≠ [] → ∃ owner, Relation.TransGen graph.WaitsFor owner owner := by
    intro some
    obtain ⟨owner, mem⟩ := exists_mem_of_ne_nil remaining some
    obtain ⟨⟨holder, hw⟩, hb⟩ := (hm owner).mp mem
    rw [not_acyclic_iff]
    intro ha
    refine hb (mem_of_acyclic (fun node other edge => ?_) waits ha owner
      (mem_ends.mpr (.inl ⟨holder, mem_waits.mpr hw⟩)))
    have hl := mem_predecessors.mp edge
    exact ⟨mem_ends.mpr (.inr ⟨other, hl⟩), mem_ends.mpr (.inl ⟨node, hl⟩)⟩
  rw [hf]
  cases remaining with
  | nil =>
    refine ⟨⟨fun hi => (by cases hi), fun hy => ?_⟩, fun _ hi => (by cases hi)⟩
    obtain ⟨owner, hy⟩ := hy
    exact absurd (hc owner hy) not_mem_nil
  | cons first rest =>
    refine ⟨⟨fun _ => ho (cons_ne_nil _ _), fun _ => rfl⟩, fun _ same => ?_⟩
    cases same
    exact ⟨hc, fun owner mem => ((hm owner).mp mem).1⟩

end

end WaitForGraph

end Veloxide.Worker
