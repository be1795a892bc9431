import Veloxide.Library.Execution
import Veloxide.Library.Kahn
import Veloxide.Types.Workflow

namespace Veloxide

open List Function
open Kahn (successors predecessors)

inductive NodeKind
  | pure
  | managedEffect
  | wait
  | signal
  | unsafeNode
  | router
deriving DecidableEq

inductive GuaranteeClass
  | exactOnce
  | atLeastOnce
  | bestEffort
deriving DecidableEq

namespace Sdk

open Digraph Machine

inductive DagError
  | invalidNodeName (name : String)
  | nodeNotFound (name : String)
  | emptyWorkflow
  | cycleDetected (cycle : String)
  | duplicateNodeName (name : String)
  | selfLoop (name : String)
deriving DecidableEq

structure CycleError where
  path : List NodeName
deriving DecidableEq

structure DagNodeRecord where
  name : NodeName
  kind : NodeKind

structure NodeHandle where
  name : NodeName

structure NodeSpec where
  name : NodeName
  kind : NodeKind
  retryPolicy : Option RetryPolicy
deriving DecidableEq

structure EdgeSpec where
  source : NodeName
  target : NodeName
deriving DecidableEq

structure WorkflowSpec where
  workflowName : WorkflowName
  nodes : List NodeSpec
  edges : List EdgeSpec
  guaranteeClass : GuaranteeClass
deriving DecidableEq

structure Dag where
  nodes : List DagNodeRecord
  unique : (nodes.map DagNodeRecord.name).Nodup
  edges : List (Fin nodes.length × Fin nodes.length)

namespace Dag

section

def new : Dag := ⟨[], nodup_nil, []⟩

variable (dag : Dag)

abbrev Index : Type := Fin dag.nodes.length

def push (record : DagNodeRecord) (fresh : record.name ∉ dag.nodes.map DagNodeRecord.name) : Dag where
  nodes := dag.nodes ++ [record]
  unique := by
    rw [map_append, map_singleton, ← concat_eq_append]
    exact dag.unique.concat fresh
  edges := let widen : dag.Index → Fin (dag.nodes ++ [record]).length :=
      Fin.castLE (by rw [length_append]; exact Nat.le_add_right ..)
    dag.edges.map fun edge => (widen edge.1, widen edge.2)

def addNodeWithKind (name : String) (kind : NodeKind) : Except DagError NodeHandle × Dag :=
  match Text.parse (validateName "NodeName") name with
  | .error _ => (.error (.invalidNodeName name), dag)
  | .ok nodeName =>
    if taken : nodeName ∈ dag.nodes.map DagNodeRecord.name then (.error (.duplicateNodeName name), dag)
    else (.ok ⟨nodeName⟩, dag.push ⟨nodeName, kind⟩ taken)

def findIndex (name : NodeName) : Except DagError dag.Index :=
  (dag.nodes.findFinIdx? fun node => node.name = name).okOr (.nodeNotFound name.value)

def connect (source target : NodeHandle) : Except DagError Unit × Dag :=
  if source.name = target.name then (.error (.selfLoop source.name.value), dag)
  else
    let found : Except DagError (dag.Index × dag.Index) := do
      let sourceIdx ← dag.findIndex source.name
      let targetIdx ← dag.findIndex target.name
      return (sourceIdx, targetIdx)
    match found with
    | .error failure => (.error failure, dag)
    | .ok edge => (.ok (), { dag with edges := dag.edges ++ [edge] })

end

inductive Call
  | addNodeWithKind (name : String) (kind : NodeKind)
  | connect (source target : NodeHandle)

inductive Reply
  | added (result : Except DagError NodeHandle)
  | connected (result : Except DagError Unit)

def step (dag : Dag) : Call → Reply × Dag
  | .addNodeWithKind name kind => ((dag.addNodeWithKind name kind).map .added id)
  | .connect source target => ((dag.connect source target).map .connected id)

def built (calls : List Call) : Dag := final step new calls

section

variable (dag : Dag)

def nameAt (index : dag.Index) : NodeName := (dag.nodes.get index).name

def cycleAt (stack : List dag.Index) (neighbor : dag.Index) : Option (List dag.Index) :=
  (stack.idxOf? neighbor).map fun pos => stack.drop pos ++ [neighbor]

def firstCycle (report : List dag.Index → dag.Index → Option (List dag.Index)) : Option (List dag.Index) :=
  (DepthFirst.explore (DepthFirst.visitRoot (successors dag.edges) report id (dag.nodes.length + 1))
    (List.finRange dag.nodes.length) .start).bind Prod.fst

def validate : Except CycleError Unit := if dag.edges = [] then .ok ()
  else
    match dag.firstCycle dag.cycleAt with
    | some cycle => .error ⟨cycle.map dag.nameAt⟩
    | none => .ok ()

def stackFrom (stack : List dag.Index) (target : dag.Index) : Option (List dag.Index) :=
  (stack.idxOf? target).map stack.drop

def findCycleNodes : String := match dag.firstCycle dag.stackFrom with
  | some cycle => " -> ".intercalate (cycle.map fun index => (dag.nameAt index).value)
  | none => "unknown cycle"

structure Progress (size : Nat) where
  inDegree : Fin size → UInt32
  queue : List (Fin size)
  visited : Nat

def relax {size : Nat} (acc : Progress size) (target : Fin size) : Progress size :=
  let degree := acc.inDegree target - 1
  ⟨update acc.inDegree target degree,
    if degree = 0 then acc.queue ++ [target] else acc.queue, acc.visited⟩

/-- The loop over the queue, which returns the number of visits; `none` when it goes on for longer. -/
def drain {size : Nat} (edges : List (Fin size × Fin size)) : Nat → Progress size → Option Nat
  | 0, acc => if acc.queue = [] then some acc.visited else none
  | fuel + 1, acc =>
    match acc.queue with
    | [] => some acc.visited
    | node :: rest =>
      drain edges fuel ((successors edges node).foldl relax ⟨acc.inDegree, rest, acc.visited + 1⟩)

def countIncoming {size : Nat} (edges : List (Fin size × Fin size)) : Fin size → UInt32 :=
  edges.foldl (fun inDegree edge => update inDegree edge.2 (inDegree edge.2 + 1)) fun _ => 0

def startDrain {size : Nat} (edges : List (Fin size × Fin size)) : Progress size :=
  ⟨countIncoming edges, (List.finRange size).filter fun index => countIncoming edges index = 0, 0⟩

def emitSpec (workflowName : WorkflowName) : WorkflowSpec where
  workflowName := workflowName
  nodes := dag.nodes.map fun node => ⟨node.name, node.kind, none⟩
  edges := dag.edges.map fun edge => ⟨dag.nameAt edge.1, dag.nameAt edge.2⟩
  guaranteeClass := .exactOnce

def nameSpec (workflowName : String) : Except DagError WorkflowSpec := do
  let wfName ← (Text.parse (validateName "WorkflowName") workflowName).mapError fun _ =>
    .invalidNodeName workflowName
  return dag.emitSpec wfName

def build (fuel : Nat) (workflowName : String) : Option (Except DagError WorkflowSpec) :=
  if dag.nodes = [] then some (.error .emptyWorkflow)
  else (drain dag.edges fuel (startDrain dag.edges)).map fun visited =>
    if visited ≠ dag.nodes.length then .error (.cycleDetected dag.findCycleNodes)
    else dag.nameSpec workflowName

def Joined (name other : NodeName) : Prop := ∃ edge ∈ dag.edges, dag.nameAt edge.1 = name ∧ dag.nameAt edge.2 = other

def incoming (index : dag.Index) : Nat := dag.edges.countP fun edge => edge.2 = index

end

section

variable (dag : Dag)

theorem nameAt_injective : Injective dag.nameAt := by
  intro first second same
  have hd := nodup_iff_injective_get.mp dag.unique.of_map
  apply hd
  exact inj_on_of_nodup_map dag.unique (get_mem ..) (get_mem ..) same

theorem joined_eq : dag.Joined = Relation.Map (DepthFirst.Edge (successors dag.edges)) dag.nameAt dag.nameAt := by
  funext name other
  apply propext
  constructor
  · intro hj
    obtain ⟨edge, mem, left, hr⟩ := hj
    exact ⟨edge.1, edge.2, Kahn.mem_successors.mpr mem, left, hr⟩
  · intro hj
    obtain ⟨source, target, next, left, hr⟩ := hj
    exact ⟨(source, target), Kahn.mem_successors.mp next, left, hr⟩

theorem acyclic_joined_iff : Acyclic dag.Joined ↔ Acyclic (DepthFirst.Edge (successors dag.edges)) := by
  rw [joined_eq]
  exact acyclic_map_iff dag.nameAt_injective

variable {dag} in
theorem firstCycle_spec {report : List dag.Index → dag.Index → Option (List dag.Index)}
    (hr : ∀ stack node, node ∈ stack → (report stack node).isSome) : match dag.firstCycle report with
    | none => Acyclic (DepthFirst.Edge (successors dag.edges)) | some cycle =>
      ∃ stack node, DepthFirst.Closes (successors dag.edges) stack node ∧ report stack node = some cycle := by
  have hf : id ([] : List dag.Index) = [] := rfl
  obtain ⟨found, after, ran, spec⟩ := DepthFirst.visitRoots_acyclic
    (fun node other _ => ⟨mem_finRange node, mem_finRange other⟩) hr hf
  rw [length_finRange] at ran
  have he : dag.firstCycle report = found := congrArg (Option.bind · Prod.fst) ran
  rw [he]
  cases found with
  | none | some cycle => exact spec

variable (stack : List dag.Index) (node : dag.Index)

theorem cycleAt_isSome (mem : node ∈ stack) : (dag.cycleAt stack node).isSome := by
  rw [cycleAt, Option.isSome_map, isSome_idxOf?]
  exact mem

theorem stackFrom_isSome (mem : node ∈ stack) : (dag.stackFrom stack node).isSome := by
  rw [stackFrom, Option.isSome_map, isSome_idxOf?]
  exact mem

def ClosedWalk (path : List NodeName) : Prop := ∃ first rest, path = first :: (rest ++ [first]) ∧ path.IsChain dag.Joined

variable {dag} in
theorem ClosedWalk.not_acyclic {path : List NodeName} (walk : dag.ClosedWalk path) : ¬ Acyclic dag.Joined := by
  obtain ⟨first, rest, rfl, hc⟩ := walk
  intro ha
  exact ha first (transGen_of_isChain hc)

theorem validate_spec : match dag.validate with
    | .ok _ => Acyclic dag.Joined | .error err => dag.ClosedWalk err.path := by
  rw [validate]
  split_ifs with empty
  · intro name cycle
    obtain ⟨other, hj, _⟩ := Relation.TransGen.head'_iff.mp cycle
    obtain ⟨edge, mem, _⟩ := hj
    rw [empty] at mem
    cases mem
  · have spec := firstCycle_spec dag.cycleAt_isSome
    cases hf : dag.firstCycle dag.cycleAt with
    | none =>
      rw [hf] at spec
      exact dag.acyclic_joined_iff.mpr spec
    | some cycle =>
      rw [hf] at spec
      obtain ⟨stack, node, hc, hr⟩ := spec
      obtain ⟨rest, walk, hh⟩ := hc.closed_walk
      rw [cycleAt, walk] at hr
      cases hr
      refine ⟨dag.nameAt node, rest.map dag.nameAt, by simp, ?_⟩
      rw [joined_eq]
      apply isChain_map_of_isChain dag.nameAt _ hh
      exact fun source target hj => ⟨source, target, hj, rfl, rfl⟩

theorem validate_error_iff : (∃ err, dag.validate = .error err) ↔ ¬ Acyclic dag.Joined := by
  have spec := dag.validate_spec
  cases hr : dag.validate with
  | ok _ =>
    rw [hr] at spec
    simp [spec]
  | error err =>
    rw [hr] at spec
    simp [spec.not_acyclic]

theorem validate_ok_iff : dag.validate = .ok () ↔ Acyclic dag.Joined := by
  have hr := dag.validate_error_iff
  cases he : dag.validate with
  | ok _ | error err =>
    rw [he] at hr
    simpa using hr

theorem findCycleNodes_of_acyclic (ha : Acyclic dag.Joined) : dag.findCycleNodes = "unknown cycle" := by
  have spec := firstCycle_spec dag.stackFrom_isSome
  rw [findCycleNodes]
  cases hf : dag.firstCycle dag.stackFrom with
  | none => rfl
  | some cycle =>
    rw [hf] at spec
    obtain ⟨stack, node, hc, _⟩ := spec
    obtain ⟨rest, _, hh⟩ := hc.circuit
    exact absurd (transGen_of_isChain hh) (dag.acyclic_joined_iff.mp ha node)

end

section

variable {size : Nat} {edges : List (Fin size × Fin size)}

theorem foldl_countIncoming (inDegree : Fin size → UInt32) (index : Fin size) :
    edges.foldl (fun inDegree edge => update inDegree edge.2 (inDegree edge.2 + 1)) inDegree index =
      inDegree index + UInt32.ofNat (edges.countP fun edge => edge.2 = index) := by
  induction edges generalizing inDegree with
  | nil => simp
  | cons edge edges ih =>
    rw [foldl_cons, ih, countP_cons]
    by_cases same : edge.2 = index
    · subst same
      simp [UInt32.add_assoc, UInt32.add_comm]
    · simp [same, update_of_ne (Ne.symm same)]

theorem countIncoming_eq (index : Fin size) :
    countIncoming edges index = UInt32.ofNat (edges.countP fun edge => edge.2 = index) := by
  rw [countIncoming, foldl_countIncoming]
  exact UInt32.zero_add _

theorem countP_eq_length_predecessors (index : Fin size) :
    (edges.countP fun edge => edge.2 = index) = (predecessors edges index).length := by
  rw [predecessors, length_map, countP_eq_length_filter]

/-- The counters are the degrees of a run on numbers that do not wrap around. -/
structure Represents (acc : Progress size) (state : Kahn.State (Fin size)) : Prop where
  degree : ∀ index, (acc.inDegree index).toNat = state.degree index
  queue : acc.queue = state.queue
  visited : acc.visited = state.order.length

variable {acc : Progress size} {state : Kahn.State (Fin size)}

theorem Represents.relax (hr : Represents acc state) {target : Fin size}
    (hp : 0 < state.degree target) : Represents (relax acc target) (Kahn.release state target) := by
  have here := hr.degree target
  have hl : (acc.inDegree target - 1).toNat = state.degree target - 1 := by
    have one : (1 : UInt32) ≤ acc.inDegree target := by
      rw [UInt32.le_iff_toNat_le, here]
      exact hp
    rw [UInt32.toNat_sub_of_le _ _ one, here]
    rfl
  refine ⟨fun index => ?_, ?_, hr.visited⟩
  · rw [Kahn.release_degree]
    by_cases same : index = target
    · subst same
      rw [if_pos rfl, ← hl]
      exact congrArg UInt32.toNat (update_self ..)
    · rw [if_neg same, Nat.sub_zero, ← hr.degree index]
      exact congrArg UInt32.toNat (update_of_ne same ..)
  · have zero : acc.inDegree target - 1 = 0 ↔ state.degree target - 1 = 0 := by
      rw [← hl, ← UInt32.toNat_inj]
      rfl
    simp only [Dag.relax, Kahn.release, hr.queue, zero]

theorem Represents.foldl_relax (hr : Represents acc state) (targets : List (Fin size))
    (enough : ∀ index, targets.count index ≤ state.degree index) :
    Represents (targets.foldl Dag.relax acc) (targets.foldl Kahn.release state) := by
  induction targets generalizing acc state with
  | nil => exact hr
  | cons target targets ih =>
    have hb := enough target
    rw [count_cons_self] at hb
    apply ih (hr.relax (by omega))
    intro index
    have hb := enough index
    rw [Kahn.count_cons_eq] at hb
    rw [Kahn.release_degree]
    omega

theorem Represents.drain (hr : Represents acc state) (fuel : Nat)
    (hi : Kahn.Invariant (predecessors edges) (List.finRange size) state)
    (enough : size ≤ fuel + state.order.length) :
    drain edges fuel acc = some (Kahn.run (successors edges) fuel state).order.length := by
  have hn : Kahn.Inverse (predecessors edges) (successors edges) (List.finRange size) :=
    Kahn.inverse_edges fun edge _ => mem_finRange edge.2
  induction fuel generalizing acc state with
  | zero =>
    have hd : state.queue = [] := hi.drained (by rw [length_finRange]; omega)
    rw [Dag.drain, hr.queue, if_pos hd, hr.visited, Kahn.run]
  | succ fuel ih =>
    rw [Dag.drain, Kahn.run, hr.queue]
    cases hf : state.queue with
    | nil => exact congrArg some hr.visited
    | cons node rest =>
      have hc : Represents ⟨acc.inDegree, rest, acc.visited + 1⟩
          ⟨state.degree, rest, state.order ++ [node]⟩ :=
        ⟨hr.degree, rfl, by rw [length_append, hr.visited]; rfl⟩
      have hm : Represents _ (Kahn.emit (successors edges) state node rest) := hc.foldl_relax _ (hi.enough hn hf)
      apply ih hm (hi.emit hn hf)
      rw [Kahn.length_order_emit]
      omega

variable (bounded : ∀ index, (edges.countP fun edge => edge.2 = index) < 2 ^ 32)

include bounded

theorem countIncoming_toNat (index : Fin size) :
    (countIncoming edges index).toNat = (predecessors edges index).length := by
  rw [countIncoming_eq, UInt32.toNat_ofNat_of_lt' (bounded index), countP_eq_length_predecessors]

theorem countIncoming_eq_zero_iff (index : Fin size) :
    countIncoming edges index = 0 ↔ (predecessors edges index).length = 0 := by
  rw [← countIncoming_toNat bounded, ← UInt32.toNat_inj]
  rfl

theorem drain_spec {fuel : Nat} (enough : size ≤ fuel) : ∃ visited, drain edges fuel (startDrain edges) = some visited ∧
    (visited = size ↔ Acyclic (DepthFirst.Edge (successors edges))) := by
  have he : ((List.finRange size).filter fun index => countIncoming edges index = 0).Perm
      ((List.finRange size).filter fun index => (predecessors edges index).length = 0) := by
    simp only [countIncoming_eq_zero_iff bounded, List.Perm.refl]
  have hu := nodup_finRange size
  have hr : Represents (startDrain edges) (Kahn.start (predecessors edges)
      ((List.finRange size).filter fun index => countIncoming edges index = 0)) :=
    ⟨countIncoming_toNat bounded, rfl, rfl⟩
  have hi : Kahn.Inverse (predecessors edges) (successors edges) (List.finRange size) :=
    Kahn.inverse_edges fun edge _ => mem_finRange edge.2
  refine ⟨_, hr.drain fuel (Kahn.start_invariant he hu) (Nat.le_add_right_of_le enough), ?_⟩
  obtain ⟨hd, hl, hs, hw⟩ := Kahn.run_start hi he hu ((length_finRange).trans_le enough)
  have hc := Kahn.complete_iff_acyclic
    (fun node other _ => ⟨mem_finRange node, mem_finRange other⟩) hu hd hl hs hw
  rw [length_finRange] at hc
  have ht : (fun node other => other ∈ predecessors edges node) =
      Function.swap (DepthFirst.Edge (successors edges)) := by
    funext node other
    exact propext (Kahn.mem_predecessors.trans Kahn.mem_successors.symm)
  rw [hc, ht]
  exact ⟨fun ha => ha.swap, fun ha => ha.swap⟩

end

section

variable {dag : Dag} (nonempty : dag.nodes ≠ []) (bounded : ∀ index, dag.incoming index < 2 ^ 32) {fuel : Nat}
  (enough : dag.nodes.length ≤ fuel) (workflowName : String)

include nonempty bounded enough

theorem build_of_acyclic (ha : Acyclic dag.Joined) : dag.build fuel workflowName = some (dag.nameSpec workflowName) := by
  obtain ⟨visited, ran, hc⟩ := drain_spec bounded enough
  rw [build, if_neg nonempty, ran, Option.map_some, if_neg]
  exact not_not.mpr (hc.mpr (dag.acyclic_joined_iff.mp ha))

theorem build_of_cyclic (hy : ¬ Acyclic dag.Joined) :
    dag.build fuel workflowName = some (.error (.cycleDetected dag.findCycleNodes)) := by
  obtain ⟨visited, ran, hc⟩ := drain_spec bounded enough
  rw [build, if_neg nonempty, ran, Option.map_some, if_pos]
  exact fun all => hy (dag.acyclic_joined_iff.mpr (hc.mp all))

end

theorem nameSpec_value (dag : Dag) (workflowName : WorkflowName) :
    dag.nameSpec workflowName.value = .ok (dag.emitSpec workflowName) := by
  rw [nameSpec, Text.parse_value]
  rfl

theorem nodes_of_build {dag : Dag} {fuel : Nat} {workflowName : String} {spec : WorkflowSpec}
    (hs : dag.build fuel workflowName = some (.ok spec)) : spec.nodes ≠ [] := by
  rw [build] at hs
  split_ifs at hs with empty
  · cases hs
  · obtain ⟨visited, _, hr⟩ := Option.map_eq_some_iff.mp hs
    split_ifs at hr
    obtain ⟨wfName, _, made⟩ := Except.bind_eq_ok.mp hr
    cases made
    intro none
    exact empty (map_eq_nil_iff.mp none)

/-- Both checks find a cycle where there is one, as long as no node has 2 ^ 32 edges into it. -/
theorem cycle_checks_agree (calls : List Call) : ((∃ failure, (built calls).validate = .error failure) ↔
      ∃ name, Relation.TransGen (built calls).Joined name name) ∧
    (∀ failure, (built calls).validate = .error failure →
      2 ≤ failure.path.length ∧ failure.path.head? = failure.path.getLast? ∧ failure.path.IsChain (built calls).Joined) ∧
    ((built calls).nodes ≠ [] → (∀ index, (built calls).incoming index < 2 ^ 32) →
      ∀ (workflowName : WorkflowName) (fuel : Nat), (built calls).nodes.length ≤ fuel →
        ((∃ cycle, (built calls).build fuel workflowName.value = some (.error (.cycleDetected cycle))) ↔
          ∃ failure, (built calls).validate = .error failure) ∧ ((built calls).validate = .ok () →
          (built calls).build fuel workflowName.value = some (.ok ((built calls).emitSpec workflowName)))) := by
  generalize built calls = dag
  refine ⟨?_, fun failure hr => ?_, fun nonempty bounded workflowName fuel enough => ⟨?_, fun ha => ?_⟩⟩
  · rw [validate_error_iff]
    simp only [Acyclic, not_forall, not_not]
  · have spec := dag.validate_spec
    rw [hr] at spec
    obtain ⟨first, rest, walk, hh⟩ := spec
    refine ⟨?_, ?_, hh⟩
    · simp [walk]
    · simp [walk, getLast?_cons]
  · rw [validate_error_iff]
    constructor
    · intro hf hb
      obtain ⟨cycle, hr⟩ := hf
      rw [build_of_acyclic nonempty bounded enough _ hb, nameSpec_value] at hr
      cases hr
    · intro hc
      exact ⟨_, build_of_cyclic nonempty bounded enough _ hc⟩
  · rw [build_of_acyclic nonempty bounded enough _ (dag.validate_ok_iff.mp ha), nameSpec_value]

section Sample

def pack : NodeHandle := ⟨⟨"pack", by decide +kernel⟩⟩

def ship : NodeHandle := ⟨⟨"ship", by decide +kernel⟩⟩

def parallelEdges (count : Nat) : List (Fin 2 × Fin 2) := List.replicate count (0, 1)

def parallel (count : Nat) : Dag where
  nodes := [⟨pack.name, .pure⟩, ⟨ship.name, .pure⟩]
  unique := by decide +kernel
  edges := parallelEdges count

def parallelCalls (count : Nat) : List Call :=
  [.addNodeWithKind "pack" .pure, .addNodeWithKind "ship" .pure] ++ List.replicate count (.connect pack ship)

theorem addNodeWithKind_value (dag : Dag) (handle : NodeHandle) (kind : NodeKind)
    (hf : handle.name ∉ dag.nodes.map DagNodeRecord.name) :
    dag.addNodeWithKind handle.name.value kind = (.ok handle, dag.push ⟨handle.name, kind⟩ hf) := by
  rw [addNodeWithKind, Text.parse_value]
  simp only [dif_neg hf]

variable (count : Nat)

theorem connect_parallel : (step (parallel count) (.connect pack ship)).2 = parallel (count + 1) := by
  have hs : (parallel count).findIndex pack.name = .ok ⟨0, Nat.zero_lt_two⟩ := rfl
  have ht : (parallel count).findIndex ship.name = .ok ⟨1, Nat.one_lt_two⟩ := rfl
  have hd : pack.name ≠ ship.name := by decide +kernel
  rw [step, connect, if_neg hd, hs, ht]
  simp only [parallel, parallelEdges, replicate_succ']
  rfl

theorem connects_parallel (first count : Nat) :
    final step (parallel first) (List.replicate count (.connect pack ship)) = parallel (first + count) := by
  induction count generalizing first with
  | zero => rfl
  | succ count ih =>
    rw [replicate_succ, final, connect_parallel, ih, Nat.add_assoc, Nat.add_comm 1]

theorem built_parallel : built (parallelCalls count) = parallel count := by
  have hf : (step new (.addNodeWithKind "pack" .pure)).2 = new.push ⟨pack.name, .pure⟩ not_mem_nil :=
    congrArg Prod.snd (addNodeWithKind_value new pack .pure not_mem_nil)
  have hs : (step (new.push ⟨pack.name, .pure⟩ not_mem_nil) (.addNodeWithKind "ship" .pure)).2 = parallel 0 :=
    congrArg Prod.snd (addNodeWithKind_value (new.push ⟨pack.name, .pure⟩ not_mem_nil) ship .pure
      (by decide +kernel))
  rw [built, parallelCalls, final_append, final, hf, final, hs, final, connects_parallel, Nat.zero_add]

theorem acyclic_parallel : Acyclic (DepthFirst.Edge (successors (parallelEdges count))) := by
  have edge : ∀ node other, DepthFirst.Edge (successors (parallelEdges count)) node other →
      node = 0 ∧ other = 1 := by
    intro node other hj
    have mem := eq_of_mem_replicate (Kahn.mem_successors.mp hj)
    exact Prod.mk.inj mem
  intro node hc
  obtain ⟨_, hl, _⟩ := Relation.TransGen.head'_iff.mp hc
  obtain ⟨_, _, he⟩ := Relation.TransGen.tail'_iff.mp hc
  have left := (edge _ _ hl).1
  have hr := (edge _ _ he).2
  rw [left] at hr
  cases hr

theorem drain_empty {size : Nat} (edges : List (Fin size × Fin size)) (fuel : Nat) {acc : Progress size}
    (he : acc.queue = []) : drain edges fuel acc = some acc.visited := by
  cases fuel with
  | zero => rw [drain, if_pos he]
  | succ fuel => rw [drain, he]

theorem foldl_relax_wraps {count : Nat} (hb : count + 1 = 2 ^ 32) :
    let after := (1 :: List.replicate count 1).foldl relax (⟨fun _ => 0, [1], 1⟩ : Progress 2)
    after.queue = [1, 1] ∧ after.visited = 1 := by
  let rest : List (Fin 2) := List.replicate count 1
  have hw : Represents (relax ⟨fun _ => 0, [1], 1⟩ 1) ⟨rest.count, [1], [0]⟩ := by
    refine ⟨fun index => ?_, rfl, rfl⟩
    by_cases hs : index = 1
    · rw [hs]
      have full : rest.count 1 = count := count_replicate_self
      exact (Nat.sub_eq_of_eq_add hb.symm : 2 ^ 32 - 1 = count).trans full.symm
    · have ha : rest.count index = 0 := count_eq_zero.mpr fun mem => hs (eq_of_mem_replicate mem)
      simp only [relax, update_of_ne hs, ha]
      rfl
  obtain ⟨joined, hr⟩ := Kahn.foldl_release rest ⟨rest.count, [1], [0]⟩ fun _ => le_rfl
  have hg : joined.Perm [1] := by
    rw [perm_ext_iff_of_nodup hr.nodup (nodup_singleton 1)]
    intro index
    rw [hr.mem_iff, mem_singleton, mem_replicate]
    constructor
    · exact fun hf => hf.1.2
    · exact fun hs => ⟨⟨by omega, hs⟩, rfl⟩
  have hm := hw.foldl_relax rest fun _ => le_rfl
  refine ⟨hm.queue.trans ?_, hm.visited.trans ?_⟩
  · rw [hr.queue, perm_singleton.mp hg]
    rfl
  · rw [hr.order]
    rfl

theorem drain_parallel {count : Nat} (hw : count + 1 = 2 ^ 32) (fuel : Nat) :
    drain (parallelEdges (count + 1)) (fuel + 3) (startDrain (parallelEdges (count + 1))) = some 3 := by
  have zero : countIncoming (parallelEdges (count + 1)) = fun _ => 0 := by
    funext index
    rw [countIncoming_eq, parallelEdges, countP_replicate, hw]
    split_ifs
    · rfl
    · rfl
  have hs : startDrain (parallelEdges (count + 1)) = ⟨fun _ => 0, [0, 1], 0⟩ := by
    rw [startDrain, zero]
    rfl
  have hl : successors (parallelEdges (count + 1)) 0 = 1 :: List.replicate count 1 := by
    rw [successors, parallelEdges, filter_replicate, replicate_succ]
    simp
  have last : successors (parallelEdges (count + 1)) 1 = [] := by
    rw [successors, parallelEdges, filter_replicate]
    simp
  obtain ⟨hq, hv⟩ := foldl_relax_wraps hw
  rw [hs, drain]
  simp only [hl]
  generalize List.foldl relax _ _ = after at hq hv ⊢
  rw [drain, hq]
  simp only [last, foldl_nil]
  rw [drain]
  simp only [last, foldl_nil]
  rw [drain_empty _ _ rfl, hv]

/-- An acyclic graph that one check accepts and the other refuses. -/
theorem parallel_edges_refused : (built (parallelCalls (2 ^ 32))).validate = .ok () ∧
    ∀ fuel, (built (parallelCalls (2 ^ 32))).build (fuel + 3) "flow" =
      some (.error (.cycleDetected "unknown cycle")) := by
  obtain ⟨count, hw⟩ : ∃ count, count + 1 = 2 ^ 32 := ⟨2 ^ 32 - 1, rfl⟩
  rw [← hw, built_parallel]
  have ha : Acyclic (parallel (count + 1)).Joined := (acyclic_joined_iff _).mpr (acyclic_parallel _)
  refine ⟨(validate_ok_iff _).mpr ha, fun fuel => ?_⟩
  have nonempty : (parallel (count + 1)).nodes ≠ [] := cons_ne_nil _ _
  have ran : drain (parallel (count + 1)).edges (fuel + 3) (startDrain (parallel (count + 1)).edges) = some 3 :=
    drain_parallel hw fuel
  have more : 3 ≠ (parallel (count + 1)).nodes.length := (by decide : 3 ≠ 2)
  rw [build, if_neg nonempty, ran, Option.map_some, if_pos more, findCycleNodes_of_acyclic _ ha]

def flow : WorkflowName := ⟨"flow", by decide +kernel⟩

theorem cycle_checks_agree_twice :
    (built (parallelCalls 2)).nodes ≠ [] ∧ (∀ index, (built (parallelCalls 2)).incoming index < 2 ^ 32) ∧
      (built (parallelCalls 2)).build 2 "flow" = some (.ok ((built (parallelCalls 2)).emitSpec flow)) := by
  have nonempty : (built (parallelCalls 2)).nodes ≠ [] := by decide +kernel
  have bounded : ∀ index, (built (parallelCalls 2)).incoming index < 2 ^ 32 := by decide +kernel
  have ha : (built (parallelCalls 2)).validate = .ok () := by decide +kernel
  have hg := (cycle_checks_agree (parallelCalls 2)).2.2 nonempty bounded flow 2 (by decide +kernel)
  exact ⟨nonempty, bounded, hg.2 ha⟩

end Sample

end Dag

end Sdk

end Veloxide
