import Veloxide.Library.DepthFirst
import Veloxide.Library.Kahn
import Veloxide.Library.Serde
import Veloxide.Library.Worklist

namespace Veloxide.Compensation

open Digraph List

structure CompensationNode where
  effectId : String
  dependencies : List String

inductive CompensationOrderResult
  | ordered (executionOrder : List String)
  | cycleDetected (cycleMembers : List String)
  | empty
deriving DecidableEq

inductive OrderingError
  | unknownDependency (effectId unknownDep : String)
  | duplicateEffectId (effectId : String)
  | cycleDetected (cycleMembers : List String)
deriving DecidableEq

section

variable (nodes : List CompensationNode)

def ids : List String := nodes.map CompensationNode.effectId

def checkDependency (allIds seen : List String) (effectId dep : String) : Except OrderingError Unit :=
  if dep ∉ seen then if dep ∉ allIds then .error (.unknownDependency effectId dep) else .ok () else .ok ()

def validateFrom (allIds : List String) : List String → List CompensationNode → Except OrderingError Unit
  | _, [] => .ok ()
  | seen, node :: rest =>
    if node.effectId ∈ seen then .error (.duplicateEffectId node.effectId)
    else do
      node.dependencies.forM (checkDependency allIds (node.effectId :: seen) node.effectId)
      validateFrom allIds (node.effectId :: seen) rest

def validateDependencies : Except OrderingError Unit := validateFrom (ids nodes) [] nodes

def entries : List (String × String) := nodes.flatMap fun node => node.dependencies.map fun dep => (dep, node.effectId)

def inDegree (id : String) : Nat := (entries nodes).countP fun entry => entry.2 = id

def dependents (id : String) : List String := ((entries nodes).filter fun entry => entry.1 = id).map Prod.snd

variable (hash : HashOrder String)

def emitted : List String := let queue := (hash.iterate (ids nodes).dedup).filter fun id => inDegree nodes id = 0
  (Kahn.run (dependents nodes) nodes.length ⟨inDegree nodes, queue, []⟩).order

def computeCompensationOrder : Except OrderingError CompensationOrderResult := if nodes = [] then .ok .empty
  else do
    validateDependencies nodes
    let executionOrder := emitted nodes hash
    if executionOrder.length ≠ nodes.length then
      throw (.cycleDetected ((nodes.filter fun node => node.effectId ∉ executionOrder).map
        CompensationNode.effectId))
    return .ordered executionOrder.reverse

def adjacency (id : String) : List String :=
  ((nodes.reverse.find? fun node => node.effectId = id).map CompensationNode.dependencies).getD []

def cycleAt (path : List String) (dep : String) : Option (List String) := (path.idxOf? dep).map path.drop

def freshPath (_ : List String) : List String := []

def detectCycle : Option (List String) := if nodes = [] then none
  else (DepthFirst.explore (DepthFirst.visitRoot (adjacency nodes) cycleAt freshPath (nodes.length + 1))
    (ids nodes) .start).bind Prod.fst

end

def Depends (nodes : List CompensationNode) (id other : String) : Prop :=
  ∃ node ∈ nodes, node.effectId = id ∧ other ∈ node.dependencies

def KnownDependencies (nodes : List CompensationNode) : Prop := ∀ node ∈ nodes, ∀ dep ∈ node.dependencies, dep ∈ ids nodes

variable (node : CompensationNode) (rest : List CompensationNode)

theorem ids_cons : ids (node :: rest) = node.effectId :: ids rest := rfl

section

theorem checkDependency_iff {allIds seen : List String} (known : ∀ id ∈ seen, id ∈ allIds) (eid dep : String) :
    checkDependency allIds seen eid dep = .ok () ↔ dep ∈ allIds := by
  rw [checkDependency]
  split_ifs with seenBefore listed
  · simp [known dep seenBefore]
  · simp [listed]
  · simp [listed]

theorem validateFrom_iff (allIds : List String) (seen : List String) (nodes : List CompensationNode)
    (known : ∀ id ∈ seen, id ∈ allIds) (hl : ∀ id ∈ ids nodes, id ∈ allIds) :
    validateFrom allIds seen nodes = .ok () ↔ (ids nodes).Nodup ∧ (∀ id ∈ ids nodes, id ∉ seen) ∧
        ∀ node ∈ nodes, ∀ dep ∈ node.dependencies, dep ∈ allIds := by
  induction nodes generalizing seen with
  | nil => simp [validateFrom, ids]
  | cons node rest ih =>
    have self : node.effectId ∈ allIds := hl node.effectId mem_cons_self
    have hp : ∀ id ∈ node.effectId :: seen, id ∈ allIds := forall_mem_cons.mpr ⟨self, known⟩
    rw [validateFrom]
    split_ifs with duplicate
    · simp [ids, duplicate]
    · rw [Except.bind_unit_eq_ok, Except.forM_eq_ok, ih _ hp fun id mem => hl id (mem_cons_of_mem _ mem)]
      rw [ids_cons, nodup_cons, forall_mem_cons, forall_mem_cons]
      simp only [checkDependency_iff hp, mem_cons, not_or]
      constructor
      · intro ha
        obtain ⟨hf, hd, hr, hb⟩ := ha
        exact ⟨⟨fun hg => (hr _ hg).1 rfl, hd⟩, ⟨duplicate, fun id mem => (hr id mem).2⟩, hf, hb⟩
      · intro ha
        obtain ⟨⟨once, hd⟩, ⟨_, hr⟩, hf, hb⟩ := ha
        refine ⟨hf, hd, fun id mem => ⟨fun same => ?_, hr id mem⟩, hb⟩
        rw [same] at mem
        exact once mem

theorem validateDependencies_iff (nodes : List CompensationNode) :
    validateDependencies nodes = .ok () ↔ (ids nodes).Nodup ∧ KnownDependencies nodes := by
  rw [validateDependencies, validateFrom_iff _ _ _ (by simp) (fun _ mem => mem)]
  simp [KnownDependencies]

end

section

variable {nodes : List CompensationNode} {id : String}

theorem find?_reverse_of_not_mem (ha : id ∉ ids nodes) :
    (nodes.reverse.find? fun node => node.effectId = id) = none := by
  rw [find?_eq_none]
  intro node mem
  rw [decide_eq_true_eq]
  intro same
  rw [← same] at ha
  exact ha (mem_map_of_mem (mem_reverse.mp mem))

theorem adjacency_of_not_mem (ha : id ∉ ids nodes) : adjacency nodes id = [] := by
  rw [adjacency, find?_reverse_of_not_mem ha]
  rfl

theorem adjacency_cons (id : String) (hf : node.effectId ∉ ids nodes) :
    adjacency (node :: nodes) id = if node.effectId = id then node.dependencies else adjacency nodes id := by
  rw [adjacency, reverse_cons, find?_append]
  by_cases same : node.effectId = id
  · rw [same] at hf
    rw [find?_reverse_of_not_mem hf, if_pos same]
    simp [same]
  · rw [if_neg same, adjacency]
    simp [same]

theorem entries_cons :
    entries (node :: rest) = node.dependencies.map (fun dep => (dep, node.effectId)) ++ entries rest := rfl

theorem mem_ids_of_mem_entries {entry : String × String} (mem : entry ∈ entries nodes) : entry.2 ∈ ids nodes := by
  obtain ⟨node, hp, hi⟩ := mem_flatMap.mp mem
  obtain ⟨dep, _, rfl⟩ := mem_map.mp hi
  exact mem_map_of_mem hp

theorem filter_entries (unique : (ids nodes).Nodup) (id : String) :
    (entries nodes).filter (fun entry => entry.2 = id) = (adjacency nodes id).map fun dep => (dep, id) := by
  induction nodes with
  | nil => rfl
  | cons node rest ih =>
    obtain ⟨hf, unique⟩ := nodup_cons.mp unique
    rw [entries_cons, filter_append, ih unique, adjacency_cons node id hf]
    split_ifs with same
    · subst same
      rw [adjacency_of_not_mem hf]
      simp
    · simp [same]

theorem inDegree_eq (unique : (ids nodes).Nodup) (id : String) : inDegree nodes id = (adjacency nodes id).length := by
  rw [inDegree, countP_eq_length_filter, filter_entries unique, length_map]

theorem count_dependents (unique : (ids nodes).Nodup) (id other : String) :
    (dependents nodes other).count id = (adjacency nodes id).count other := by
  have hc : (dependents nodes other).count id =
      ((entries nodes).filter fun entry => entry.2 = id).countP fun entry => entry.1 = other := by
    rw [dependents, List.count, countP_map, countP_filter, countP_filter]
    refine countP_congr fun entry _ => ?_
    simp [and_comm]
  rw [hc, filter_entries unique, countP_map, List.count]
  refine countP_congr fun dep _ => ?_
  simp

theorem mem_adjacency (unique : (ids nodes).Nodup) {other : String} :
    other ∈ adjacency nodes id ↔ Depends nodes id other := by
  have entry : (other, id) ∈ (entries nodes).filter (fun entry => entry.2 = id) ↔ other ∈ adjacency nodes id := by
    rw [filter_entries unique]
    simp
  rw [← entry, mem_filter, entries, mem_flatMap, Depends]
  simp only [mem_map, Prod.mk.injEq, decide_true, and_true]
  constructor
  · intro hf
    obtain ⟨node, hp, dep, mem, rfl, rfl⟩ := hf
    exact ⟨node, hp, rfl, mem⟩
  · intro hf
    obtain ⟨node, hp, rfl, mem⟩ := hf
    exact ⟨node, hp, other, mem, rfl, rfl⟩

theorem edge_adjacency (unique : (ids nodes).Nodup) : (fun id other => other ∈ adjacency nodes id) = Depends nodes := by
  funext id other
  exact propext (mem_adjacency unique)

theorem detectCycle_eq (nodes : List CompensationNode) : detectCycle nodes =
    (DepthFirst.explore (DepthFirst.visitRoot (adjacency nodes) cycleAt freshPath (nodes.length + 1))
      (ids nodes) .start).bind Prod.fst := by
  rw [detectCycle]
  split_ifs with empty
  · subst empty
    rfl
  · rfl

theorem cycleAt_isSome (path : List String) (node : String) (mem : node ∈ path) : (cycleAt path node).isSome := by
  rw [cycleAt, Option.isSome_map, isSome_idxOf?]
  exact mem

variable (unique : (ids nodes).Nodup) (known : KnownDependencies nodes)

include unique

theorem inverse_dependents : Kahn.Inverse (adjacency nodes) (dependents nodes) (ids nodes) where
  count id _ other := count_dependents unique id other
  within id other mem := by
    obtain ⟨entry, kept, rfl⟩ := mem_map.mp mem
    exact mem_ids_of_mem_entries (mem_of_mem_filter kept)

variable (hash : HashOrder String)

theorem emitted_spec : (emitted nodes hash).Nodup ∧ (∀ id ∈ emitted nodes hash, id ∈ ids nodes) ∧
    Kahn.Sorted (adjacency nodes) (emitted nodes hash) ∧
    ∀ id ∈ ids nodes, id ∉ emitted nodes hash → ∃ other ∈ adjacency nodes id, other ∉ emitted nodes hash := by
  have hd : inDegree nodes = fun id => (adjacency nodes id).length := funext (inDegree_eq unique)
  have hr : ((hash.iterate (ids nodes).dedup).filter fun id => inDegree nodes id = 0).Perm
      ((ids nodes).filter fun id => (adjacency nodes id).length = 0) := by
    have perm := (hash.perm (ids nodes).dedup).filter fun id => inDegree nodes id = 0
    rw [unique.dedup] at perm ⊢
    simpa only [hd] using perm
  have run := Kahn.run_start (inverse_dependents unique) hr unique le_rfl
  rw [Kahn.start, ← hd, ids, length_map] at run
  exact run

include known

theorem depends_within (id other : String) (hd : other ∈ adjacency nodes id) : id ∈ ids nodes ∧ other ∈ ids nodes := by
  obtain ⟨node, mem, rfl, dep⟩ := (mem_adjacency unique).mp hd
  exact ⟨mem_map_of_mem mem, known node mem other dep⟩

theorem emitted_complete_iff : (emitted nodes hash).length = nodes.length ↔ Acyclic (Depends nodes) := by
  obtain ⟨hd, hl, hs, hw⟩ := emitted_spec unique hash
  have hc := Kahn.complete_iff_acyclic (depends_within unique known) unique hd hl hs hw
  rwa [edge_adjacency unique, ids, length_map] at hc

theorem detectCycle_spec : match detectCycle nodes with
    | none => Acyclic (Depends nodes) | some cycle => Circuit (Depends nodes) cycle := by
  have hf : freshPath [] = [] := rfl
  obtain ⟨found, after, ran, spec⟩ := DepthFirst.visitRoots_acyclic (depends_within unique known) cycleAt_isSome hf
  rw [ids, length_map] at ran
  have ha : detectCycle nodes = found := by
    rw [detectCycle_eq]
    exact congrArg (Option.bind · Prod.fst) ran
  have he : DepthFirst.Edge (adjacency nodes) = Depends nodes := edge_adjacency unique
  rw [ha]
  cases found with
  | none =>
    rw [he] at spec
    exact spec
  | some cycle =>
    obtain ⟨path, node, hc, hr⟩ := spec
    obtain ⟨rest, hd, hh⟩ := hc.circuit
    rw [cycleAt, hd] at hr
    cases hr
    rw [he] at hh
    exact ⟨node, rest, rfl, hh⟩

theorem detectCycle_isSome_iff : (detectCycle nodes).isSome = true ↔ ¬ Acyclic (Depends nodes) := by
  have spec := detectCycle_spec unique known
  cases hf : detectCycle nodes with
  | none =>
    rw [hf] at spec
    simp [spec]
  | some cycle =>
    rw [hf] at spec
    simp [spec.not_acyclic]

end

section

variable {nodes : List CompensationNode} (hash : HashOrder String)

theorem computeCompensationOrder_eq (hn : nodes ≠ []) (unique : (ids nodes).Nodup) (known : KnownDependencies nodes) :
    computeCompensationOrder nodes hash = if (emitted nodes hash).length ≠ nodes.length then
        .error (.cycleDetected ((nodes.filter fun node => node.effectId ∉ emitted nodes hash).map
          CompensationNode.effectId)) else .ok (.ordered (emitted nodes hash).reverse) := by
  rw [computeCompensationOrder, if_neg hn, (validateDependencies_iff nodes).mpr ⟨unique, known⟩]
  by_cases hs : (emitted nodes hash).length ≠ nodes.length
  · simp only [if_pos hs]
    rfl
  · simp only [if_neg hs]
    rfl

theorem validated_of_ordered {order : List String} (ho : computeCompensationOrder nodes hash = .ok (.ordered order)) :
    nodes ≠ [] ∧ (ids nodes).Nodup ∧ KnownDependencies nodes := by
  rw [computeCompensationOrder] at ho
  split_ifs at ho with empty
  · cases ho
  · obtain ⟨_, hv, _⟩ := Except.bind_eq_ok.mp ho
    exact ⟨empty, (validateDependencies_iff nodes).mp hv⟩

theorem ordered_iff (hn : nodes ≠ []) (unique : (ids nodes).Nodup) (known : KnownDependencies nodes)
    (order : List String) : computeCompensationOrder nodes hash = .ok (.ordered order) ↔
      Acyclic (Depends nodes) ∧ order = (emitted nodes hash).reverse := by
  rw [computeCompensationOrder_eq hash hn unique known, ← emitted_complete_iff unique known hash]
  split_ifs with short
  · simp [short]
  · simp [not_not.mp short, eq_comm]

theorem cycleDetected_iff (unique : (ids nodes).Nodup) (known : KnownDependencies nodes) :
    (∃ members, computeCompensationOrder nodes hash = .error (.cycleDetected members)) ↔ ¬ Acyclic (Depends nodes) := by
  by_cases he : nodes = []
  · subst he
    have ha := (emitted_complete_iff unique known hash).mp rfl
    simp [computeCompensationOrder, ha]
  · rw [computeCompensationOrder_eq hash he unique known, ← emitted_complete_iff unique known hash]
    split_ifs with short
    · simp [short]
    · simp [not_not.mp short]

theorem dependency_after (unique : (ids nodes).Nodup) {node : CompensationNode} (mem : node ∈ nodes)
    {before after : List String} (hs : (emitted nodes hash).reverse = before ++ node.effectId :: after)
    {dep : String} (hd : dep ∈ node.dependencies) : dep ∈ after := by
  have hf : emitted nodes hash = after.reverse ++ node.effectId :: before.reverse := by
    rw [← reverse_reverse (emitted nodes hash), hs]
    simp
  have he := (emitted_spec unique hash).2.2.1 _ _ _ hf dep
    ((mem_adjacency unique).mpr ⟨node, mem, rfl, hd⟩)
  exact mem_reverse.mp he

end

theorem computeCompensationOrder_correct (hash : HashOrder String) (nodes : List CompensationNode) :
    ((∃ order, computeCompensationOrder nodes hash = .ok (.ordered order)) ↔
        nodes ≠ [] ∧ (ids nodes).Nodup ∧ KnownDependencies nodes ∧ Acyclic (Depends nodes)) ∧
      (∀ order, computeCompensationOrder nodes hash = .ok (.ordered order) →
        order.Perm (ids nodes) ∧ ∀ node ∈ nodes, ∀ before after, order = before ++ node.effectId :: after →
          ∀ dep ∈ node.dependencies, dep ∈ after) ∧ ((ids nodes).Nodup → KnownDependencies nodes →
        ((∃ members, computeCompensationOrder nodes hash = .error (.cycleDetected members)) ↔
          ∃ cycle, detectCycle nodes = some cycle) ∧
        ∀ cycle, detectCycle nodes = some cycle → Circuit (Depends nodes) cycle) := by
  refine ⟨⟨fun hf => ?_, fun hv => ?_⟩, fun order ordered => ?_, fun unique known => ⟨?_, fun cycle hf => ?_⟩⟩
  · obtain ⟨order, ordered⟩ := hf
    obtain ⟨hn, unique, known⟩ := validated_of_ordered hash ordered
    exact ⟨hn, unique, known, ((ordered_iff hash hn unique known order).mp ordered).1⟩
  · obtain ⟨hn, unique, known, ha⟩ := hv
    exact ⟨_, (ordered_iff hash hn unique known _).mpr ⟨ha, rfl⟩⟩
  · obtain ⟨hn, unique, known⟩ := validated_of_ordered hash ordered
    obtain ⟨ha, rfl⟩ := (ordered_iff hash hn unique known order).mp ordered
    obtain ⟨hi, hl, _, _⟩ := emitted_spec unique hash
    have full := (emitted_complete_iff unique known hash).mpr ha
    refine ⟨(reverse_perm _).trans ((hi.subperm hl).perm_of_length_le ?_), ?_⟩
    · rw [full, ids, length_map]
    · intro node mem before after hs dep hd
      exact dependency_after hash unique mem hs hd
  · rw [cycleDetected_iff hash unique known, ← Option.isSome_iff_exists, detectCycle_isSome_iff unique known]
  · have spec := detectCycle_spec unique known
    rw [hf] at spec
    exact spec

section Sample

def sampleEffects : List CompensationNode := [⟨"refund", ["charge", "ship"]⟩, ⟨"charge", []⟩, ⟨"ship", ["charge"]⟩]

theorem computeCompensationOrder_correct_sample : (ids sampleEffects).Nodup ∧ KnownDependencies sampleEffects ∧
    computeCompensationOrder sampleEffects (.unchanged String) = .ok (.ordered ["refund", "ship", "charge"]) ∧
    ["refund", "ship", "charge"].Perm (ids sampleEffects) ∧ ¬ ∃ cycle, detectCycle sampleEffects = some cycle := by
  have unique : (ids sampleEffects).Nodup := by decide
  have known : KnownDependencies sampleEffects := by
    unfold KnownDependencies
    decide
  have ordered : computeCompensationOrder sampleEffects (.unchanged String) =
      .ok (.ordered ["refund", "ship", "charge"]) := by decide +kernel
  obtain ⟨_, hp, ha⟩ := computeCompensationOrder_correct (.unchanged String) sampleEffects
  refine ⟨unique, known, ordered, (hp _ ordered).1, fun ho => ?_⟩
  obtain ⟨members, hf⟩ := (ha unique known).1.mpr ho
  rw [ordered] at hf
  cases hf

end Sample

end Veloxide.Compensation
