import Veloxide.Library.DepthFirst
import Veloxide.Library.Worklist
import Veloxide.Types.Envelope

namespace Veloxide

open Digraph List Except

section

def validateName (typeName input : String) : Except ParseError Unit := do
  if input = "" then throw (.empty typeName)
  requireCharacters typeName isIdentifierChar input
  requireMaxLength typeName 128 input
  if EventMetadata.contains input.toList "--".toList then throw (.consecutiveHyphens typeName)
  if ["__", "-_", "_-"].any fun pattern => EventMetadata.contains input.toList pattern.toList then
    throw (.consecutiveSeparators typeName)
  checkIdentifierBoundaries input typeName
  if input.toList.head?.any Char.isDigit then throw (.boundaryViolation typeName "must not start with digit")

abbrev NodeName := Text (validateName "NodeName")

instance : LawfulBEq NodeName := inferInstance

abbrev WorkflowName := Text (validateName "WorkflowName")

end

structure F64 where
  bits : UInt64
deriving DecidableEq

namespace F64

variable (x : F64)

def isNegative : Bool := 2 ^ 63 ≤ x.bits.toNat

def exponent : Nat := x.bits.toNat / 2 ^ 52 % 2 ^ 11

def mantissa : Nat := x.bits.toNat % 2 ^ 52

def isFinite : Bool := x.exponent ≠ 0x7FF

def ltOne : Bool := if x.isFinite then x.isNegative || x.exponent < 1023 else x.mantissa = 0 && x.isNegative

end F64

inductive RetryPolicyError
  | zeroAttempts
  | invalidMultiplier (got : F64)
deriving DecidableEq

structure RetryPolicy where
  maxAttempts : UInt8
  backoffMs : UInt64
  backoffMultiplier : F64
  maxBackoffMs : UInt64
deriving DecidableEq

namespace RetryPolicy

def new (maxAttempts : UInt8) (backoffMs : UInt64) (backoffMultiplier : F64) : Except RetryPolicyError RetryPolicy :=
  if maxAttempts = 0 then .error .zeroAttempts
  else if !backoffMultiplier.isFinite || backoffMultiplier.ltOne then .error (.invalidMultiplier backoffMultiplier)
  else .ok ⟨maxAttempts, backoffMs, backoffMultiplier, 0xFFFFFFFFFFFFFFFF⟩

/-- At least one attempt, and a multiplier that is a number and not below one. -/
structure Valid (policy : RetryPolicy) : Prop where
  attempts : policy.maxAttempts ≠ 0
  finite : policy.backoffMultiplier.isFinite = true
  grows : policy.backoffMultiplier.ltOne = false

theorem exists_new_iff (policy : RetryPolicy) :
    (∃ made, new policy.maxAttempts policy.backoffMs policy.backoffMultiplier = .ok made) ↔ policy.Valid := by
  rw [new]
  split_ifs with zero invalid
  · exact ⟨fun hf => (nomatch hf.choose_spec), fun hv => absurd zero hv.attempts⟩
  · refine ⟨fun hf => (nomatch hf.choose_spec), fun hv => ?_⟩
    rw [hv.finite, hv.grows] at invalid
    cases invalid
  · simp only [Bool.or_eq_true, Bool.not_eq_true', not_or, Bool.not_eq_false, Bool.not_eq_true] at invalid
    exact ⟨fun _ => ⟨zero, invalid.1, invalid.2⟩, fun _ => ⟨_, rfl⟩⟩

end RetryPolicy

inductive CompensationPolicy
  | none
  | manual
  | automatic
deriving DecidableEq

structure DagNode where
  nodeName : NodeName
  retryPolicy : RetryPolicy
  compensationPolicy : Option CompensationPolicy
deriving DecidableEq

inductive StepOutcome
  | success
  | failure
deriving DecidableEq

inductive EdgeCondition
  | always
  | onSuccess
  | onFailure
deriving DecidableEq

namespace EdgeCondition

def matchesOutcome (condition : EdgeCondition) (outcome : StepOutcome) : Bool := match condition with
  | always => true
  | onSuccess => outcome = .success
  | onFailure => outcome = .failure

end EdgeCondition

structure Edge where
  sourceNode : NodeName
  targetNode : NodeName
  condition : EdgeCondition
deriving DecidableEq

structure WorkflowVersion where
  major : UInt64
  minor : UInt64
  patch : UInt64
  pre : String
  build : String
deriving DecidableEq

def WorkflowVersion.min : WorkflowVersion := ⟨0, 1, 0, "", ""⟩

structure UnvalidatedWorkflow where
  workflowName : WorkflowName
  nodes : List DagNode
  edges : List Edge
  version : Option WorkflowVersion

structure WorkflowDefinition where
  workflowName : WorkflowName
  nodes : List DagNode
  nonempty : nodes ≠ []
  edges : List Edge
  version : WorkflowVersion
deriving DecidableEq

inductive WorkflowDefinitionError
  | emptyWorkflow
  | cycleDetected (cycleNodes : List NodeName)
  | unknownNode (edgeSource unknownNode : NodeName)
  | duplicateNode (nodeName : NodeName)
  | invalidRetryPolicy (nodeName : NodeName) (reason : RetryPolicyError)
  | noStartNode
  | orphanNodes (orphanNodes : List NodeName)
  | unreachableNodes (unreachableNodes : List NodeName)
deriving DecidableEq

namespace Workflow

variable (hash : HashOrder NodeName) (path : List NodeName)

section

variable (edges : List Edge)

def adjacent (node : NodeName) : List NodeName := (edges.filter fun edge => edge.sourceNode = node).map Edge.targetNode

def cycleAt (current : NodeName) : Option (List NodeName) :=
  (path.idxOf? current).map fun start => path.drop start ++ [current]

variable (fuel : Nat)

def dfsCycle (current : NodeName) (search : DepthFirst.Search NodeName) :
    Option (Option (List NodeName) × DepthFirst.Search NodeName) :=
  DepthFirst.visit (adjacent edges) cycleAt fuel current search

def dfsRoot (root : NodeName) (search : DepthFirst.Search NodeName) :
    Option (Option (List NodeName) × DepthFirst.Search NodeName) :=
  DepthFirst.visitRoot (adjacent edges) cycleAt id fuel root search

variable (nodes : List DagNode)

def detectCycle (edges : List Edge) : Option (List NodeName) := match nodes with
  | [] => none
  | first :: rest =>
    match dfsCycle edges (nodes.length + 1) first.nodeName .start with
    | none => none
    | some (some cycle, _) => some cycle
    | some (none, search) =>
      (DepthFirst.explore (dfsRoot edges (nodes.length + 1)) (rest.map DagNode.nodeName) search).bind Prod.fst

def inDegree (name : NodeName) : Nat := edges.countP fun edge => edge.targetNode = name

def outDegree (name : NodeName) : Nat := edges.countP fun edge => edge.sourceNode = name

def reachableFrom (names starts : List NodeName) : List NodeName :=
  (BreadthFirst.run (adjacent edges) names.length ⟨starts, starts⟩).reached

def validateConnectivity (edges : List Edge) : Except WorkflowDefinitionError Unit :=
  if nodes.length ≤ 1 ∨ edges = [] then .ok ()
  else
    let nodeNames := hash.iterate (nodes.map DagNode.nodeName).dedup
    let orphanNodes := (nodes.filter fun node =>
      inDegree edges node.nodeName = 0 ∧ outDegree edges node.nodeName = 0).map DagNode.nodeName
    if orphanNodes ≠ [] then .error (.orphanNodes orphanNodes)
    else
      let startNodes := nodeNames.filter fun name => inDegree edges name = 0
      if startNodes = [] then .error .noStartNode
      else
        let reachable := reachableFrom edges nodeNames startNodes
        let unreachableNodes := nodeNames.filter fun name => name ∉ reachable
        if unreachableNodes ≠ [] then .error (.unreachableNodes unreachableNodes) else .ok ()

def checkDuplicates (seen : List NodeName) : List DagNode → Except WorkflowDefinitionError Unit
  | [] => .ok ()
  | node :: nodes =>
    if node.nodeName ∈ seen then .error (.duplicateNode node.nodeName)
    else checkDuplicates (node.nodeName :: seen) nodes

def checkRetryPolicy (node : DagNode) : Except WorkflowDefinitionError Unit := do
  let _ ← (RetryPolicy.new node.retryPolicy.maxAttempts node.retryPolicy.backoffMs
    node.retryPolicy.backoffMultiplier).mapError (.invalidRetryPolicy node.nodeName)
  return ()

def checkEdge (nodeNames : List NodeName) (edge : Edge) : Except WorkflowDefinitionError Unit :=
  if edge.sourceNode ∉ nodeNames then .error (.unknownNode edge.sourceNode edge.sourceNode)
  else if edge.targetNode ∉ nodeNames then .error (.unknownNode edge.sourceNode edge.targetNode)
  else .ok ()

def rejectCycle (edges : List Edge) : Except WorkflowDefinitionError Unit := match detectCycle nodes edges with
  | some cycleNodes => .error (.cycleDetected cycleNodes)
  | none => .ok ()

def validateUnvalidated (unvalidated : UnvalidatedWorkflow) : Except WorkflowDefinitionError WorkflowDefinition :=
  if empty : unvalidated.nodes = [] then .error .emptyWorkflow
  else do
    checkDuplicates [] unvalidated.nodes
    unvalidated.nodes.forM checkRetryPolicy
    unvalidated.edges.forM (checkEdge (unvalidated.nodes.map DagNode.nodeName))
    rejectCycle unvalidated.nodes unvalidated.edges
    validateConnectivity hash unvalidated.nodes unvalidated.edges
    return {
      workflowName := unvalidated.workflowName
      nodes := unvalidated.nodes
      nonempty := empty
      edges := unvalidated.edges
      version := unvalidated.version.getD .min }

end

def Joined (edges : List Edge) (node other : NodeName) : Prop :=
  ∃ edge ∈ edges, edge.sourceNode = node ∧ edge.targetNode = other

def Touched (edges : List Edge) (name : NodeName) : Prop :=
  ∃ edge ∈ edges, edge.sourceNode = name ∨ edge.targetNode = name

/-- Unique node names, valid retry policies, and edges between nodes of the workflow. -/
structure WellFormed (nodes : List DagNode) (edges : List Edge) : Prop where
  unique : (nodes.map DagNode.nodeName).Nodup
  retry : ∀ node ∈ nodes, node.retryPolicy.Valid
  source : ∀ edge ∈ edges, edge.sourceNode ∈ nodes.map DagNode.nodeName
  target : ∀ edge ∈ edges, edge.targetNode ∈ nodes.map DagNode.nodeName

section

theorem checkDuplicates_iff (seen : List NodeName) (nodes : List DagNode) : checkDuplicates seen nodes = .ok () ↔
    (nodes.map DagNode.nodeName).Nodup ∧ ∀ node ∈ nodes, node.nodeName ∉ seen := by
  induction nodes generalizing seen with
  | nil => simp [checkDuplicates]
  | cons node nodes ih =>
    rw [checkDuplicates]
    split_ifs with known
    · simp [known]
    · rw [ih, map_cons, nodup_cons, forall_mem_cons]
      simp only [mem_cons, not_or, mem_map, not_exists, not_and]
      constructor
      · intro ha
        exact ⟨⟨fun other mem => (ha.2 other mem).1, ha.1⟩, known, fun other mem => (ha.2 other mem).2⟩
      · intro hd
        exact ⟨hd.1.2, fun other mem => ⟨hd.1.1 other mem, hd.2.2 other mem⟩⟩

theorem checkRetryPolicy_iff (node : DagNode) : checkRetryPolicy node = .ok () ↔ node.retryPolicy.Valid := by
  rw [checkRetryPolicy, bind_eq_ok, ← RetryPolicy.exists_new_iff]
  simp only [mapError_eq_ok]
  exact exists_congr fun made => and_iff_left rfl

theorem checkEdge_iff (names : List NodeName) (edge : Edge) :
    checkEdge names edge = .ok () ↔ edge.sourceNode ∈ names ∧ edge.targetNode ∈ names := by
  rw [checkEdge]
  split_ifs with source target
  · simp [source, target]
  · simp [target]
  · simp [source]

theorem wellFormed_iff (nodes : List DagNode) (edges : List Edge) :
    WellFormed nodes edges ↔ checkDuplicates [] nodes = .ok () ∧ nodes.forM checkRetryPolicy = .ok () ∧
      edges.forM (checkEdge (nodes.map DagNode.nodeName)) = .ok () := by
  rw [checkDuplicates_iff, forM_eq_ok, forM_eq_ok]
  simp only [checkRetryPolicy_iff, checkEdge_iff]
  constructor
  · intro hf
    exact ⟨⟨hf.unique, fun _ _ => not_mem_nil⟩, hf.retry, fun edge mem => ⟨hf.source edge mem, hf.target edge mem⟩⟩
  · intro hc
    exact ⟨hc.1.1, hc.2.1, fun edge mem => (hc.2.2 edge mem).1, fun edge mem => (hc.2.2 edge mem).2⟩

end

section

variable {nodes : List DagNode} {edges : List Edge} {other : NodeName} {node : NodeName}

theorem mem_adjacent : other ∈ adjacent edges node ↔ Joined edges node other := by
  simp only [adjacent, mem_map, mem_filter, decide_eq_true_eq, Joined, and_assoc]

theorem edge_adjacent : DepthFirst.Edge (adjacent edges) = Joined edges := by
  funext node other
  exact propext mem_adjacent

theorem WellFormed.within (hf : WellFormed nodes edges) (hj : Joined edges node other) :
    node ∈ nodes.map DagNode.nodeName ∧ other ∈ nodes.map DagNode.nodeName := by
  obtain ⟨edge, mem, rfl, rfl⟩ := hj
  exact ⟨hf.source edge mem, hf.target edge mem⟩

theorem detectCycle_eq (nodes : List DagNode) (edges : List Edge) : detectCycle nodes edges =
    (DepthFirst.explore (dfsRoot edges (nodes.length + 1)) (nodes.map DagNode.nodeName) .start).bind Prod.fst := by
  cases nodes with
  | nil => rfl
  | cons first rest =>
    have root : dfsRoot edges ((first :: rest).length + 1) first.nodeName .start =
        dfsCycle edges ((first :: rest).length + 1) first.nodeName .start := rfl
    rw [detectCycle, map_cons, DepthFirst.explore, root]
    cases dfsCycle edges ((first :: rest).length + 1) first.nodeName .start with
    | none => rfl
    | some result =>
      obtain ⟨found, search⟩ := result
      cases found with
      | none | some cycle => rfl

theorem cycleAt_isSome (node : NodeName) (mem : node ∈ path) : (cycleAt path node).isSome := by
  rw [cycleAt, Option.isSome_map, isSome_idxOf?]
  exact mem

theorem detectCycle_spec (hf : WellFormed nodes edges) : match detectCycle nodes edges with
    | none => Acyclic (Joined edges)
    | some cycle => ∃ first rest, cycle = first :: (rest ++ [first]) ∧ cycle.IsChain (Joined edges) := by
  have ha : id ([] : List NodeName) = [] := rfl
  obtain ⟨found, after, ran, spec⟩ := DepthFirst.visitRoots_acyclic
    (fun _ _ hj => hf.within (mem_adjacent.mp hj)) cycleAt_isSome ha
  rw [length_map] at ran
  have he : detectCycle nodes edges = found := by
    rw [detectCycle_eq]
    exact congrArg (Option.bind · Prod.fst) ran
  rw [he]
  cases found with
  | none =>
    rw [edge_adjacent] at spec
    exact spec
  | some cycle =>
    obtain ⟨path, node, hc, hr⟩ := spec
    obtain ⟨rest, walk, hh⟩ := hc.closed_walk
    rw [cycleAt, walk] at hr
    cases hr
    rw [edge_adjacent] at hh
    exact ⟨node, rest, rfl, hh⟩

theorem detectCycle_eq_none_iff (hf : WellFormed nodes edges) :
    detectCycle nodes edges = none ↔ Acyclic (Joined edges) := by
  have spec := detectCycle_spec hf
  cases ho : detectCycle nodes edges with
  | none =>
    rw [ho] at spec
    exact iff_of_true rfl spec
  | some cycle =>
    rw [ho] at spec
    obtain ⟨first, rest, rfl, hh⟩ := spec
    have hc : Circuit (Joined edges) (first :: rest) := ⟨first, rest, rfl, hh⟩
    exact iff_of_false (by simp) hc.not_acyclic

theorem rejectCycle_iff (hf : WellFormed nodes edges) : rejectCycle nodes edges = .ok () ↔ Acyclic (Joined edges) := by
  rw [← detectCycle_eq_none_iff hf, rejectCycle]
  cases detectCycle nodes edges with
  | none | some cycle => simp

end

section

variable {nodes : List DagNode} {edges : List Edge} {name : NodeName}

theorem inDegree_eq_zero_iff : inDegree edges name = 0 ↔ ∀ node, ¬ Joined edges node name := by
  simp only [inDegree, countP_eq_zero, decide_eq_true_eq, Joined, not_exists, not_and]
  constructor
  · intro hu node edge mem _
    exact hu edge mem
  · intro hu edge mem
    exact hu edge.sourceNode edge mem rfl

theorem touched_iff : Touched edges name ↔ ¬ (inDegree edges name = 0 ∧ outDegree edges name = 0) := by
  simp only [inDegree, outDegree, countP_eq_zero, decide_eq_true_eq, Touched]
  constructor
  · intro ht hu
    obtain ⟨edge, mem, hs | target⟩ := ht
    · exact hu.2 edge mem hs
    · exact hu.1 edge mem target
  · intro ht
    by_contra hu
    simp only [not_exists, not_and, not_or] at hu
    exact ht ⟨fun edge mem => (hu edge mem).2, fun edge mem => (hu edge mem).1⟩

theorem WellFormed.wellFounded (hf : WellFormed nodes edges) (ha : Acyclic (Joined edges)) :
    WellFounded (Joined edges) := by
  exact wellFounded_of_acyclic (nodes.map DagNode.nodeName).finite_toSet (fun _ _ hj => hf.within hj)
    ha

theorem mem_iterate_names (nodes : List DagNode) (name : NodeName) :
    name ∈ hash.iterate (nodes.map DagNode.nodeName).dedup ↔ name ∈ nodes.map DagNode.nodeName := by
  rw [(hash.perm _).mem_iff, mem_dedup]

theorem nodup_iterate_names (nodes : List DagNode) : (hash.iterate (nodes.map DagNode.nodeName).dedup).Nodup := by
  rw [(hash.perm _).nodup_iff]
  exact nodup_dedup _

theorem mem_reachableFrom (hf : WellFormed nodes edges) (ha : Acyclic (Joined edges))
    {names : List NodeName} (hd : names.Nodup) (hl : ∀ name, name ∈ names ↔ name ∈ nodes.map DagNode.nodeName)
    (mem : name ∈ names) : name ∈ reachableFrom edges names (names.filter fun name => inDegree edges name = 0) := by
  obtain ⟨source, root, he⟩ := exists_source (hf.wellFounded ha) name
  have hk : source ∈ names := by
    rcases Relation.ReflTransGen.cases_head he with same | ⟨next, hj, _⟩
    · rw [same]
      exact mem
    · obtain ⟨edge, hp, rfl, _⟩ := hj
      exact (hl edge.sourceNode).mpr (hf.source edge hp)
  have ht : source ∈ names.filter fun name => inDegree edges name = 0 := by
    rw [mem_filter, decide_eq_true_eq, inDegree_eq_zero_iff]
    exact ⟨hk, root⟩
  have hc : ∀ node ∈ names, ∀ other ∈ adjacent edges node, other ∈ names := fun node hp other hs =>
    (hl other).mpr (hf.within (mem_adjacent.mp hs)).2
  apply BreadthFirst.reached_of_reflTransGen hc (hd.filter _) (fun _ kept => mem_of_mem_filter kept) ht
  exact he.lift id fun node other hj => mem_adjacent.mpr hj

theorem orphanNodes_eq_nil_iff (nodes : List DagNode) (edges : List Edge) :
    (nodes.filter fun node => inDegree edges node.nodeName = 0 ∧ outDegree edges node.nodeName = 0).map
      DagNode.nodeName = [] ↔ ∀ node ∈ nodes, Touched edges node.nodeName := by
  simp only [map_eq_nil_iff, filter_eq_nil_iff, decide_eq_true_eq, touched_iff]

theorem validateConnectivity_cases (hf : WellFormed nodes edges) (ha : Acyclic (Joined edges)) :
    (validateConnectivity hash nodes edges = .ok () ∧
        (nodes.length ≤ 1 ∨ edges = [] ∨ ∀ node ∈ nodes, Touched edges node.nodeName)) ∨
      ((∃ orphans, validateConnectivity hash nodes edges = .error (.orphanNodes orphans)) ∧
        ¬ (nodes.length ≤ 1 ∨ edges = [] ∨ ∀ node ∈ nodes, Touched edges node.nodeName)) := by
  have hl := mem_iterate_names hash nodes
  have hr : ∀ name ∈ hash.iterate (nodes.map DagNode.nodeName).dedup, _ := fun name mem =>
    mem_reachableFrom hf ha (nodup_iterate_names hash nodes) hl mem
  simp only [validateConnectivity]
  split_ifs with small orphans starts unreachable
  · exact .inl ⟨rfl, or_assoc.mp (.inl small)⟩
  · rw [ne_eq, orphanNodes_eq_nil_iff] at orphans
    refine .inr ⟨⟨_, rfl⟩, ?_⟩
    rw [← or_assoc]
    exact not_or.mpr ⟨small, orphans⟩
  · obtain ⟨first, mem⟩ := exists_mem_of_length_pos (Nat.zero_lt_of_lt (not_le.mp (not_or.mp small).1))
    have hi := hr first.nodeName ((hl _).mpr (mem_map_of_mem mem))
    rw [starts, reachableFrom, BreadthFirst.run_of_queue_nil] at hi
    cases hi
  · obtain ⟨name, mem⟩ := exists_mem_of_ne_nil _ unreachable
    rw [mem_filter, decide_eq_true_eq] at mem
    exact absurd (hr name mem.1) mem.2
  · rw [ne_eq, not_not, orphanNodes_eq_nil_iff] at orphans
    exact .inl ⟨rfl, .inr (.inr orphans)⟩

end

section

variable {flow : UnvalidatedWorkflow}

theorem validateUnvalidated_of_wellFormed (nonempty : flow.nodes ≠ [])
    (hf : WellFormed flow.nodes flow.edges) : validateUnvalidated hash flow = (do
      rejectCycle flow.nodes flow.edges
      validateConnectivity hash flow.nodes flow.edges
      return {
        workflowName := flow.workflowName
        nodes := flow.nodes
        nonempty := nonempty
        edges := flow.edges
        version := flow.version.getD .min }) := by
  obtain ⟨hd, hr, hk⟩ := (wellFormed_iff _ _).mp hf
  rw [validateUnvalidated, dif_neg nonempty, hd, hr, hk]
  rfl

theorem validateUnvalidated_ok {hash : HashOrder NodeName} {defn : WorkflowDefinition}
    (ha : validateUnvalidated hash flow = .ok defn) : defn.nodes = flow.nodes ∧ defn.edges = flow.edges ∧
      WellFormed defn.nodes defn.edges ∧ Acyclic (Joined defn.edges) := by
  rw [validateUnvalidated] at ha
  split_ifs at ha with empty
  obtain ⟨_, hd, ha⟩ := bind_eq_ok.mp ha
  obtain ⟨_, hr, ha⟩ := bind_eq_ok.mp ha
  obtain ⟨_, hk, ha⟩ := bind_eq_ok.mp ha
  obtain ⟨_, hy, ha⟩ := bind_eq_ok.mp ha
  obtain ⟨_, hc, ha⟩ := bind_eq_ok.mp ha
  have hf := (wellFormed_iff _ _).mpr ⟨hd, hr, hk⟩
  cases ha
  exact ⟨rfl, rfl, hf, (rejectCycle_iff hf).mp hy⟩

theorem validateUnvalidated_cases (hn : flow.nodes ≠ []) (hf : WellFormed flow.nodes flow.edges) :
    ((∃ defn, validateUnvalidated hash flow = .ok defn) ∧ Acyclic (Joined flow.edges) ∧
        (flow.nodes.length ≤ 1 ∨ flow.edges = [] ∨
          ∀ node ∈ flow.nodes, Touched flow.edges node.nodeName)) ∨
      ((∃ orphans, validateUnvalidated hash flow = .error (.orphanNodes orphans)) ∧
        ¬ (flow.nodes.length ≤ 1 ∨ flow.edges = [] ∨
          ∀ node ∈ flow.nodes, Touched flow.edges node.nodeName)) ∨
      ∃ first rest, validateUnvalidated hash flow = .error (.cycleDetected (first :: (rest ++ [first]))) ∧
        (first :: (rest ++ [first])).IsChain (Joined flow.edges) := by
  rw [validateUnvalidated_of_wellFormed hash hn hf, rejectCycle]
  have spec := detectCycle_spec hf
  cases ho : detectCycle flow.nodes flow.edges with
  | some cycle =>
    rw [ho] at spec
    obtain ⟨first, rest, rfl, hh⟩ := spec
    exact .inr (.inr ⟨first, rest, rfl, hh⟩)
  | none =>
    rw [ho] at spec
    rcases validateConnectivity_cases hash hf spec with ⟨hc, hs⟩ | ⟨⟨orphans, hr⟩, hs⟩
    · rw [hc]
      exact .inl ⟨⟨_, rfl⟩, spec, hs⟩
    · rw [hr]
      exact .inr (.inl ⟨⟨orphans, rfl⟩, hs⟩)

theorem validateUnvalidated_exact (hash : HashOrder NodeName) (flow : UnvalidatedWorkflow)
    (formed : WellFormed flow.nodes flow.edges) :
    ((∃ definition, validateUnvalidated hash flow = .ok definition) ↔
        flow.nodes ≠ [] ∧ Acyclic (Joined flow.edges) ∧ (flow.nodes.length ≤ 1 ∨ flow.edges = [] ∨
            ∀ node ∈ flow.nodes, Touched flow.edges node.nodeName)) ∧
      validateUnvalidated hash flow ≠ .error .noStartNode ∧
      (∀ nodes, validateUnvalidated hash flow ≠ .error (.unreachableNodes nodes)) ∧
      ∀ cycle, validateUnvalidated hash flow = .error (.cycleDetected cycle) →
        ∃ first rest, cycle = first :: (rest ++ [first]) ∧ cycle.IsChain (Joined flow.edges) := by
  by_cases he : flow.nodes = []
  · simp [validateUnvalidated, he]
  · rcases validateUnvalidated_cases hash he formed with
      ⟨⟨definition, ha⟩, hs⟩ | ⟨⟨orphans, hr⟩, hs⟩ | ⟨first, rest, hr, hb⟩
    · simp [ha, hs, he]
    · rw [hr]
      exact ⟨⟨fun hf => (nomatch hf.choose_spec), fun hh => absurd hh.2.2 hs⟩, by simp, by simp, by simp⟩
    · have hc : Circuit (Joined flow.edges) (first :: rest) := ⟨first, rest, rfl, hb⟩
      rw [hr]
      refine ⟨⟨fun hf => (nomatch hf.choose_spec), fun hh => absurd hh.2.1 hc.not_acyclic⟩,
        by simp, by simp, fun cycle same => ?_⟩
      cases same
      exact ⟨first, rest, rfl, hb⟩

end

section Sample

def sampleName (name : String) : NodeName := (Text.parse _ name).toOption.getD ⟨"node", by decide +kernel⟩

def sampleNode (name : String) : DagNode := ⟨sampleName name, ⟨3, 100, ⟨0x4000000000000000⟩, 1000⟩, none⟩

def sampleEdge (source target : String) (condition : EdgeCondition) : Edge :=
  ⟨sampleName source, sampleName target, condition⟩

def sampleWorkflow (nodes : List String) (edges : List Edge) : UnvalidatedWorkflow :=
  ⟨⟨"sample", by decide +kernel⟩, nodes.map sampleNode, edges, none⟩

theorem empty_workflow_refused : WellFormed (sampleWorkflow [] []).nodes (sampleWorkflow [] []).edges ∧
    Acyclic (Joined (sampleWorkflow [] []).edges) ∧ (sampleWorkflow [] []).nodes.length ≤ 1 ∧
    validateUnvalidated (.unchanged NodeName) (sampleWorkflow [] []) = .error .emptyWorkflow := by
  have hu : ∀ node other, ¬ Joined [] node other := by simp [Joined]
  refine ⟨⟨nodup_nil, by simp [sampleWorkflow], by simp [sampleWorkflow], by simp [sampleWorkflow]⟩, ?_, by decide, rfl⟩
  intro node hc
  obtain ⟨next, hj, _⟩ := Relation.TransGen.head'_iff.mp hc
  exact hu node next hj

theorem validateUnvalidated_exact_loop :
    WellFormed (sampleWorkflow ["a", "b"] [sampleEdge "a" "b" .always, sampleEdge "b" "a" .onFailure]).nodes
        [sampleEdge "a" "b" .always, sampleEdge "b" "a" .onFailure] ∧
      ∃ first rest, [sampleName "a", sampleName "b", sampleName "a"] = first :: (rest ++ [first]) ∧
        [sampleName "a", sampleName "b", sampleName "a"].IsChain
          (Joined [sampleEdge "a" "b" .always, sampleEdge "b" "a" .onFailure]) := by
  have hf : WellFormed (sampleWorkflow ["a", "b"]
      [sampleEdge "a" "b" .always, sampleEdge "b" "a" .onFailure]).nodes
      [sampleEdge "a" "b" .always, sampleEdge "b" "a" .onFailure] := by
    rw [wellFormed_iff]
    decide +kernel
  refine ⟨hf, ?_⟩
  exact (validateUnvalidated_exact (.unchanged NodeName) (sampleWorkflow ["a", "b"]
    [sampleEdge "a" "b" .always, sampleEdge "b" "a" .onFailure]) hf).2.2.2 _ (by decide +kernel)

end Sample

end Workflow

end Veloxide
