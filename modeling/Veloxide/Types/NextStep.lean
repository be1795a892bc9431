import Veloxide.Library.Selection
import Veloxide.Types.Workflow

namespace Veloxide

open Digraph Workflow List

namespace WorkflowDefinition

def getNode (flow : WorkflowDefinition) (name : NodeName) : Option DagNode :=
  flow.nodes.find? fun node => node.nodeName = name

def incoming (flow : WorkflowDefinition) (name : NodeName) : List Edge :=
  flow.edges.filter fun edge => edge.targetNode = name

def dependencies (flow : WorkflowDefinition) (name : NodeName) : List NodeName :=
  (flow.incoming name).map Edge.sourceNode

def names (flow : WorkflowDefinition) : List NodeName := flow.nodes.map DagNode.nodeName

theorem getNode_isSome (flow : WorkflowDefinition) (name : NodeName) :
    (flow.getNode name).isSome ↔ name ∈ flow.names := by
  simp [getNode, names]

theorem mem_dependencies {flow : WorkflowDefinition} {name other : NodeName} :
    other ∈ flow.dependencies name ↔ Workflow.Joined flow.edges other name := by
  simp only [dependencies, incoming, mem_map, mem_filter, decide_eq_true_eq, Workflow.Joined]
  constructor
  · intro hf
    obtain ⟨edge, ⟨mem, ht⟩, hs⟩ := hf
    exact ⟨edge, mem, hs, ht⟩
  · intro hf
    obtain ⟨edge, mem, hs, ht⟩ := hf
    exact ⟨edge, ⟨mem, ht⟩, hs⟩

end WorkflowDefinition

structure StepSchedulingRecord where
  stepId : NodeName
  attempt : UInt32
  fence : UInt64

abbrev ExecutionHistory := List StepSchedulingRecord

inductive SelectionError
  | noReadyNodes
  | unknownCompletedNode (node : NodeName)
deriving DecidableEq

structure NextStep where
  stepId : NodeName
  attempt : UInt32
  fence : UInt64
deriving DecidableEq

namespace NextStep

section

def recordsForStep (history : ExecutionHistory) (stepId : NodeName) : List StepSchedulingRecord :=
  history.filter fun record => record.stepId = stepId

def computeAttemptAndFence (stepId : NodeName) (history : ExecutionHistory) : UInt32 × UInt64 :=
  let stepRecords := recordsForStep history stepId
  if stepRecords = [] then (1, 1)
  else
    let maxAttempt := (stepRecords.map StepSchedulingRecord.attempt).max?.getD 1
    let maxFence := (stepRecords.map StepSchedulingRecord.fence).max?.getD 0
    (maxAttempt + 1, maxFence + 1)

def isReady (flow : WorkflowDefinition) (completed : List NodeName) (lastOutcome : Option StepOutcome)
    (name : NodeName) : Bool :=
  name ∉ completed && (flow.dependencies name).all (· ∈ completed) &&
    match lastOutcome with
    | none => true
    | some outcome => (flow.incoming name).all fun edge =>
        edge.sourceNode ∈ completed && edge.condition.matchesOutcome outcome

def findReadyNodes (flow : WorkflowDefinition) (completed : List NodeName)
    (lastOutcome : Option StepOutcome) : List NodeName :=
  flow.names.filter (isReady flow completed lastOutcome)

def checkCompleted (flow : WorkflowDefinition) (completed : List NodeName) : Except SelectionError Unit :=
  completed.forM fun node =>
    if (flow.getNode node).isNone then .error (.unknownCompletedNode node) else .ok ()

def selectNextStep (flow : WorkflowDefinition) (completed : List NodeName)
    (lastOutcome : Option StepOutcome) (history : Option ExecutionHistory) :
    Except SelectionError (Option NextStep) := do
  checkCompleted flow completed
  match findReadyNodes flow completed lastOutcome with
  | [] => throw .noReadyNodes
  | selected :: _ =>
    let (attempt, fence) := (history.map (computeAttemptAndFence selected)).getD (1, 1)
    return some ⟨selected, attempt, fence⟩

end

section

variable {flow : WorkflowDefinition} {completed : List NodeName}

def pick (flow : WorkflowDefinition) (completed : List NodeName) : Option NodeName :=
  match selectNextStep flow completed none none with
  | .ok (some next) => some next.stepId
  | _ => none

def completedAfter (flow : WorkflowDefinition) (rounds : Nat) : List NodeName := Selection.run (pick flow) rounds

variable {name : NodeName}

theorem isReady_iff : isReady flow completed none name = true ↔
    name ∉ completed ∧ ∀ other, Workflow.Joined flow.edges other name → other ∈ completed := by
  simp [isReady, WorkflowDefinition.mem_dependencies]

theorem mem_findReadyNodes : name ∈ findReadyNodes flow completed none ↔
    name ∈ flow.names ∧ name ∉ completed ∧
      ∀ other, Workflow.Joined flow.edges other name → other ∈ completed := by
  rw [findReadyNodes, mem_filter, isReady_iff]

theorem checkCompleted_iff : checkCompleted flow completed = .ok () ↔ ∀ name ∈ completed, name ∈ flow.names := by
  rw [checkCompleted, Except.forM_eq_ok]
  refine forall₂_congr fun name _ => ?_
  rw [← WorkflowDefinition.getNode_isSome]
  cases flow.getNode name with
  | none | some node => simp

theorem selectNextStep_eq (hk : ∀ name ∈ completed, name ∈ flow.names) :
    selectNextStep flow completed none none = match (findReadyNodes flow completed none).head? with
      | none => .error .noReadyNodes | some selected => .ok (some ⟨selected, 1, 1⟩) := by
  rw [selectNextStep, checkCompleted_iff.mpr hk]
  cases findReadyNodes flow completed none with
  | nil | cons selected rest => rfl

theorem known_of_pick (hp : pick flow completed = some name) : ∀ other ∈ completed, other ∈ flow.names := by
  rw [← checkCompleted_iff]
  cases hc : checkCompleted flow completed with
  | ok _ => rfl
  | error err =>
    rw [pick, selectNextStep, hc] at hp
    cases hp

theorem pick_eq (hk : ∀ name ∈ completed, name ∈ flow.names) :
    pick flow completed = (findReadyNodes flow completed none).head? := by
  rw [pick, selectNextStep_eq hk]
  cases (findReadyNodes flow completed none).head? with
  | none | some selected => rfl

theorem ready_of_pick (hp : pick flow completed = some name) : name ∈ flow.names ∧ name ∉ completed ∧
    ∀ other, Workflow.Joined flow.edges other name → other ∈ completed := by
  rw [pick_eq (known_of_pick hp)] at hp
  exact mem_findReadyNodes.mp (mem_of_head? hp)

theorem pick_fresh (done : List NodeName) (name : NodeName) (hp : pick flow done = some name) :
    name ∈ flow.names ∧ name ∉ done :=
  ⟨(ready_of_pick hp).1, (ready_of_pick hp).2.1⟩

theorem known_completedAfter (rounds : Nat) : ∀ name ∈ completedAfter flow rounds, name ∈ flow.names :=
  fun _ mem => Selection.mem_of_mem_run pick_fresh mem

theorem exists_ready (formed : WellFormed flow.nodes flow.edges)
    (acyclic : Acyclic (Workflow.Joined flow.edges)) (mem : name ∈ flow.names)
    (left : name ∉ completed) : ∃ ready, ready ∈ findReadyNodes flow completed none := by
  have hf := formed.wellFounded acyclic
  obtain ⟨first, ⟨hp, he⟩, ha⟩ := hf.has_min {name | name ∈ flow.names ∧ name ∉ completed} ⟨name, mem, left⟩
  refine ⟨first, mem_findReadyNodes.mpr ⟨hp, he, fun other hj => ?_⟩⟩
  by_contra hm
  obtain ⟨edge, hl, rfl, _⟩ := id hj
  exact ha edge.sourceNode ⟨formed.source edge hl, hm⟩ hj

section

variable (formed : WellFormed flow.nodes flow.edges) (acyclic : Acyclic (Workflow.Joined flow.edges))

include formed acyclic

theorem pick_eq_none_iff (hk : ∀ name ∈ completed, name ∈ flow.names) :
    pick flow completed = none ↔ ∀ name ∈ flow.names, name ∈ completed := by
  rw [pick_eq hk, head?_eq_none_iff, eq_nil_iff_forall_not_mem]
  constructor
  · intro hs name mem
    by_contra left
    obtain ⟨ready, hl⟩ := exists_ready formed acyclic mem left
    exact hs ready hl
  · intro hf ready hl
    obtain ⟨mem, hp, _⟩ := mem_findReadyNodes.mp hl
    exact hp (hf ready mem)

theorem noReadyNodes_iff (hk : ∀ name ∈ completed, name ∈ flow.names) :
    selectNextStep flow completed none none = .error .noReadyNodes ↔ ∀ name ∈ flow.names, name ∈ completed := by
  rw [← pick_eq_none_iff formed acyclic hk, pick_eq hk, selectNextStep_eq hk]
  cases (findReadyNodes flow completed none).head? with
  | none | some selected => simp

theorem length_completedAfter (rounds : Nat) :
    (completedAfter flow rounds).length = min rounds flow.nodes.length := by
  have ho : (completedAfter flow rounds).length ≤ rounds := Selection.length_run_le rounds
  have hb : (completedAfter flow rounds).length ≤ flow.names.length :=
    Selection.length_run_le_items pick_fresh rounds
  rw [WorkflowDefinition.names, length_map] at hb
  by_cases he : (completedAfter flow rounds).length < rounds
  · have hs := (pick_eq_none_iff formed acyclic (known_completedAfter rounds)).mp
      (Selection.stuck_of_length_lt he)
    have hc := (formed.unique.subperm hs).length_le
    rw [length_map] at hc
    omega
  · omega

theorem finished_iff (rounds : Nat) :
    (∀ name ∈ flow.names, name ∈ completedAfter flow rounds) ↔ flow.nodes.length ≤ rounds := by
  have hl := length_completedAfter formed acyclic rounds
  constructor
  · intro hf
    have hc := (formed.unique.subperm hf).length_le
    rw [length_map] at hc
    omega
  · intro he
    have hs : pick flow (completedAfter flow rounds) = none := by
      apply Selection.stuck_of_items_le pick_fresh
      rw [WorkflowDefinition.names, length_map]
      exact he
    exact (pick_eq_none_iff formed acyclic (known_completedAfter rounds)).mp hs

theorem exists_selected {rounds : Nat} (he : rounds < flow.nodes.length) :
    ∃ next, selectNextStep flow (completedAfter flow rounds) none none = .ok (some next) ∧
      completedAfter flow (rounds + 1) = completedAfter flow rounds ++ [next.stepId] := by
  have hk : ∀ name ∈ completedAfter flow rounds, name ∈ flow.names := known_completedAfter rounds
  have hp : pick flow (completedAfter flow rounds) ≠ none := by
    rw [ne_eq, pick_eq_none_iff formed acyclic hk, finished_iff formed acyclic]
    omega
  obtain ⟨name, hi⟩ := Option.ne_none_iff_exists'.mp hp
  refine ⟨⟨name, 1, 1⟩, ?_, Selection.run_succ_of_some hi⟩
  rw [selectNextStep_eq hk, ← pick_eq hk, hi]

end

theorem every_node_selected_once (hash : HashOrder NodeName) (unvalidated : UnvalidatedWorkflow)
    (flow : WorkflowDefinition) (accepted : validateUnvalidated hash unvalidated = .ok flow) :
    (completedAfter flow flow.nodes.length).Perm (flow.nodes.map DagNode.nodeName) ∧
      (∀ before node after, completedAfter flow flow.nodes.length = before ++ node :: after →
        ∀ dependency ∈ flow.dependencies node, dependency ∈ before) ∧
      ∀ rounds, (rounds < flow.nodes.length → ∃ next,
          selectNextStep flow (completedAfter flow rounds) none none = .ok (some next) ∧
          completedAfter flow (rounds + 1) = completedAfter flow rounds ++ [next.stepId]) ∧
        (selectNextStep flow (completedAfter flow rounds) none none = .error .noReadyNodes ↔
          ∀ node ∈ flow.nodes, node.nodeName ∈ completedAfter flow rounds) ∧
        ((∀ node ∈ flow.nodes, node.nodeName ∈ completedAfter flow rounds) ↔ flow.nodes.length ≤ rounds) := by
  obtain ⟨_, _, formed, acyclic⟩ := validateUnvalidated_ok accepted
  have hn : ∀ rounds, (∀ node ∈ flow.nodes, node.nodeName ∈ completedAfter flow rounds) ↔
      ∀ name ∈ flow.names, name ∈ completedAfter flow rounds := fun rounds => by
    rw [WorkflowDefinition.names, forall_mem_map]
  refine ⟨?_, ?_, fun rounds => ⟨fun he => ?_, ?_, ?_⟩⟩
  · have hf := (finished_iff formed acyclic flow.nodes.length).mpr (Nat.le_refl _)
    apply (perm_ext_iff_of_nodup (Selection.nodup_run pick_fresh _) formed.unique).mpr
    exact fun name => ⟨known_completedAfter _ name, hf name⟩
  · intro before node after hs dependency mem
    have hr := ready_of_pick (Selection.pick_eq_some_of_run hs)
    exact hr.2.2 dependency (WorkflowDefinition.mem_dependencies.mp mem)
  · exact exists_selected formed acyclic he
  · rw [hn]
    exact noReadyNodes_iff formed acyclic (known_completedAfter rounds)
  · rw [hn]
    exact finished_iff formed acyclic rounds

end

section

variable {history : ExecutionHistory} {step : NodeName}

theorem mem_recordsForStep {record : StepSchedulingRecord} :
    record ∈ recordsForStep history step ↔ record ∈ history ∧ record.stepId = step := by
  simp [recordsForStep]

theorem exists_greatest {Number : Type} [LE Number] [DecidableLE Number] [Std.IsLinearOrder Number]
    (number : StepSchedulingRecord → Number) (otherwise : Number) (hs : recordsForStep history step ≠ []) :
    ∃ most ∈ history, most.stepId = step ∧
      (@List.max? Number maxOfLe ((recordsForStep history step).map number)).getD otherwise = number most ∧
      ∀ record ∈ history, record.stepId = step → number record ≤ number most := by
  have hn : (recordsForStep history step).map number ≠ [] := by simpa using hs
  obtain ⟨ha, hg⟩ := Selection.exists_max hn otherwise
  obtain ⟨most, hl, he⟩ := mem_map.mp ha
  obtain ⟨mem, own⟩ := mem_recordsForStep.mp hl
  refine ⟨most, mem, own, he.symm, fun record here same => ?_⟩
  rw [he]
  exact hg (number record) (mem_map_of_mem (mem_recordsForStep.mpr ⟨here, same⟩))

theorem attempt_above (hb : ∀ record ∈ history, record.attempt.toNat < 2 ^ 32 - 1) :
    ∀ record ∈ history, record.stepId = step → record.attempt < (computeAttemptAndFence step history).1 := by
  intro record mem own
  have hs := ne_nil_of_mem (mem_recordsForStep.mpr ⟨mem, own⟩)
  obtain ⟨most, hk, _, hh, hg⟩ := exists_greatest StepSchedulingRecord.attempt 1 hs
  have hl := UInt32.le_iff_toNat_le.mp (hg record mem own)
  have room := hb most hk
  have hc : (computeAttemptAndFence step history).1 = most.attempt + 1 := by
    rw [computeAttemptAndFence, if_neg hs]
    exact congrArg (· + 1) hh
  rw [hc, UInt32.lt_iff_toNat_lt, UInt32.toNat_add, UInt32.toNat_one]
  omega

theorem fence_above_iff (hb : ∀ record ∈ history, record.fence.toNat < 2 ^ 64 - 1) :
    (∀ record ∈ history, record.fence < (computeAttemptAndFence step history).2) ↔
      ∀ record ∈ history, record.fence = 0 ∨ ∃ own ∈ history, own.stepId = step ∧ record.fence ≤ own.fence := by
  by_cases hs : recordsForStep history step = []
  · have none (own : StepSchedulingRecord) (mem : own ∈ history) : own.stepId ≠ step := fun same => by
      have hl := mem_recordsForStep.mpr ⟨mem, same⟩
      rw [hs] at hl
      exact not_mem_nil hl
    have hc : (computeAttemptAndFence step history).2 = 1 := by rw [computeAttemptAndFence, if_pos hs]
    rw [hc]
    refine forall₂_congr fun record _ => ?_
    rw [UInt64.lt_iff_toNat_lt, UInt64.toNat_one, Nat.lt_one_iff, ← UInt64.toNat_zero, UInt64.toNat_inj]
    refine ⟨.inl, fun he => he.resolve_right ?_⟩
    rintro ⟨own, mem, same, _⟩
    exact none own mem same
  · obtain ⟨most, hk, hm, hh, hg⟩ := exists_greatest StepSchedulingRecord.fence 0 hs
    have room := hb most hk
    have hc : (computeAttemptAndFence step history).2.toNat = most.fence.toNat + 1 := by
      have hv : (computeAttemptAndFence step history).2 = most.fence + 1 := by
        rw [computeAttemptAndFence, if_neg hs]
        exact congrArg (· + 1) hh
      rw [hv, UInt64.toNat_add, UInt64.toNat_one]
      omega
    refine forall₂_congr fun record _ => ?_
    rw [UInt64.lt_iff_toNat_lt, hc, Nat.lt_succ_iff, ← UInt64.le_iff_toNat_le]
    constructor
    · exact fun ha => .inr ⟨most, hk, hm, ha⟩
    · rintro (zero | ⟨own, mem, same, ha⟩)
      · rw [zero]
        exact UInt64.zero_le
      · exact UInt64.le_trans ha (hg own mem same)

theorem selectNextStep_some {flow : WorkflowDefinition} {completed : List NodeName}
    {lastOutcome : Option StepOutcome} {next : NextStep}
    (hs : selectNextStep flow completed lastOutcome (some history) = .ok (some next)) :
    (findReadyNodes flow completed lastOutcome).head? = some next.stepId ∧
      (next.attempt, next.fence) = computeAttemptAndFence next.stepId history := by
  rw [selectNextStep] at hs
  obtain ⟨_, _, hs⟩ := Except.bind_eq_ok.mp hs
  cases hr : findReadyNodes flow completed lastOutcome with
  | nil =>
    rw [hr] at hs
    cases hs
  | cons first rest =>
    rw [hr] at hs
    cases hs
    exact ⟨rfl, rfl⟩

/-- The attempt is always new, and the fence is when no other step of the history has a higher one. -/
theorem next_step_tokens_iff (flow : WorkflowDefinition) (completed : List NodeName)
    (lastOutcome : Option StepOutcome) (history : ExecutionHistory)
    (below : ∀ record ∈ history, record.attempt.toNat < 2 ^ 32 - 1 ∧ record.fence.toNat < 2 ^ 64 - 1)
    (step : NodeName) (first : (findReadyNodes flow completed lastOutcome).head? = some step) (next : NextStep)
    (selected : selectNextStep flow completed lastOutcome (some history) = .ok (some next)) :
    next.stepId = step ∧ (∀ record ∈ history, record.stepId = step → record.attempt < next.attempt) ∧
      ((∀ record ∈ history, record.fence < next.fence) ↔ ∀ record ∈ history, record.fence = 0 ∨
          ∃ own ∈ history, own.stepId = step ∧ record.fence ≤ own.fence) := by
  obtain ⟨hr, ht⟩ := selectNextStep_some selected
  have same : next.stepId = step := Option.some.inj (hr.symm.trans first)
  rw [same] at ht
  obtain ⟨attempt, fence⟩ := Prod.mk.inj ht
  rw [attempt, fence]
  exact ⟨same, attempt_above fun record mem => (below record mem).1,
    fence_above_iff fun record mem => (below record mem).2⟩

end

section Sample

def sampleFork : UnvalidatedWorkflow :=
  sampleWorkflow ["d", "a", "b", "c"] [sampleEdge "a" "b" .onSuccess, sampleEdge "a" "c" .onFailure,
    sampleEdge "b" "d" .always, sampleEdge "c" "d" .always]

def sampleForkDefinition : WorkflowDefinition :=
  ⟨sampleFork.workflowName, sampleFork.nodes, by decide, sampleFork.edges, .min⟩

theorem every_node_selected_once_fork : validateUnvalidated (.unchanged NodeName) sampleFork = .ok sampleForkDefinition ∧
    (completedAfter sampleForkDefinition 4).Perm (["d", "a", "b", "c"].map sampleName) ∧
    completedAfter sampleForkDefinition 4 = ["a", "b", "c", "d"].map sampleName := by
  have ha : validateUnvalidated (.unchanged NodeName) sampleFork = .ok sampleForkDefinition := by
    decide +kernel
  exact ⟨ha, (every_node_selected_once (.unchanged NodeName) sampleFork sampleForkDefinition ha).1, by decide +kernel⟩

def sampleHistory : ExecutionHistory := [⟨sampleName "a", 1, 1⟩, ⟨sampleName "a", 2, 2⟩]

/-- The step after a repeated one gets the fence of the first attempt again. -/
theorem fence_repeated : selectNextStep sampleForkDefinition [sampleName "a"] none (some sampleHistory) =
      .ok (some ⟨sampleName "b", 1, 1⟩) ∧ ∃ record ∈ sampleHistory, ¬ record.fence < 1 := by
  decide +kernel

theorem next_step_tokens_iff_fork :
    selectNextStep sampleForkDefinition [] none (some sampleHistory) = .ok (some ⟨sampleName "a", 3, 3⟩) ∧
      ∀ record ∈ sampleHistory, record.fence < 3 := by
  have hs : selectNextStep sampleForkDefinition [] none (some sampleHistory) =
    .ok (some ⟨sampleName "a", 3, 3⟩) := by decide +kernel
  have ht := next_step_tokens_iff sampleForkDefinition [] none sampleHistory (by decide +kernel)
    (sampleName "a") (by decide +kernel) ⟨sampleName "a", 3, 3⟩ hs
  exact ⟨hs, ht.2.2.mpr (by decide +kernel)⟩

end Sample

end NextStep

end Veloxide
