import Veloxide.Types.NextStep

namespace Veloxide.FanIn

open Digraph Workflow List

abbrev ParentOutcomeMap := AList fun _ : NodeName => StepOutcome

section

variable (flow : WorkflowDefinition) (outcomes : ParentOutcomeMap)

def contains (name : NodeName) : Bool := (outcomes.lookup name).isSome

def conditionMet (edge : Edge) : Bool := match outcomes.lookup edge.sourceNode with
  | some parentOutcome => edge.condition.matchesOutcome parentOutcome
  | none => false

def isReady (name : NodeName) : Bool := if contains outcomes name then false
  else if flow.incoming name = [] then true
  else if !(flow.incoming name).all fun edge => contains outcomes edge.sourceNode then false
  else (flow.incoming name).all (conditionMet outcomes)

def findReadyNodesFanIn : List NodeName := flow.names.filter (isReady flow outcomes)

def selectNextStepWithFanIn (hash : HashOrder NodeName) : Except SelectionError (Option NextStep) := do
  NextStep.checkCompleted flow (hash.iterate outcomes.keys)
  match findReadyNodesFanIn flow outcomes with
  | [] => throw .noReadyNodes
  | selected :: _ => return some ⟨selected, 1, 1⟩

end

section

variable (hash : HashOrder NodeName) (flow : WorkflowDefinition) (outcome : NodeName → StepOutcome)

def recordAll (executed : List NodeName) : ParentOutcomeMap :=
  executed.foldl (fun outcomes name => outcomes.insert name (outcome name)) ∅

def pick (executed : List NodeName) : Option NodeName :=
  match selectNextStepWithFanIn flow (recordAll outcome executed) hash with
  | .ok (some next) => some next.stepId
  | _ => none

/-- The nodes that the loop has selected after some rounds, each with its outcome recorded at once. -/
def selectedAfter (rounds : Nat) : List NodeName := Selection.run (pick hash flow outcome) rounds

def EventuallySelected (name : NodeName) : Prop := ∃ rounds, name ∈ selectedAfter hash flow outcome rounds

end

def Dead (outcome : NodeName → StepOutcome) (edge : Edge) : Prop :=
  edge.condition.matchesOutcome (outcome edge.sourceNode) = false

def Blocked (edges : List Edge) (outcome : NodeName → StepOutcome) (name : NodeName) : Prop :=
  ∃ edge ∈ edges, Dead outcome edge ∧ Relation.ReflTransGen (Workflow.Joined edges) edge.targetNode name

theorem blocked_iff {edges : List Edge} {outcome : NodeName → StepOutcome} {name : NodeName} :
    Blocked edges outcome name ↔
      ∃ edge ∈ edges, edge.targetNode = name ∧ (Dead outcome edge ∨ Blocked edges outcome edge.sourceNode) := by
  constructor
  · intro hb
    obtain ⟨closed, mem, dead, hl⟩ := hb
    rcases Relation.ReflTransGen.cases_tail hl with same | ⟨_, he, edge, hp, rfl, ht⟩
    · exact ⟨closed, mem, same.symm, .inl dead⟩
    · exact ⟨edge, hp, ht, .inr ⟨closed, mem, dead, he⟩⟩
  · intro hf
    obtain ⟨edge, mem, rfl, dead | ⟨closed, hp, dead, hl⟩⟩ := hf
    · exact ⟨edge, mem, dead, .refl⟩
    · exact ⟨closed, hp, dead, hl.tail ⟨edge, mem, rfl, rfl⟩⟩

section

variable {flow : WorkflowDefinition} {outcome : NodeName → StepOutcome} {executed : List NodeName}

variable (name : NodeName)

theorem lookup_recordAll :
    (recordAll outcome executed).lookup name = if name ∈ executed then some (outcome name) else none := by
  induction executed using List.reverseRecOn with
  | nil => rfl
  | append_singleton executed last ih =>
    rw [recordAll, foldl_append, foldl_cons, foldl_nil, ← recordAll]
    by_cases same : name = last
    · subst same
      rw [AList.lookup_insert, if_pos (by simp)]
    · rw [AList.lookup_insert_ne same, ih]
      simp [same]

theorem contains_recordAll : contains (recordAll outcome executed) name = decide (name ∈ executed) := by
  rw [contains, lookup_recordAll]
  split_ifs with mem
  · simp [mem]
  · simp [mem]

theorem conditionMet_recordAll (edge : Edge) : conditionMet (recordAll outcome executed) edge = true ↔
    edge.sourceNode ∈ executed ∧ ¬ Dead outcome edge := by
  rw [conditionMet, lookup_recordAll, Dead, Bool.not_eq_false]
  split_ifs with mem
  · simp [mem]
  · simp [mem]

variable {name : NodeName}

theorem isReady_iff : isReady flow (recordAll outcome executed) name = true ↔
    name ∉ executed ∧ ∀ edge ∈ flow.edges, edge.targetNode = name →
      edge.sourceNode ∈ executed ∧ ¬ Dead outcome edge := by
  have met : (flow.incoming name).all (conditionMet (recordAll outcome executed)) = true ↔
      ∀ edge ∈ flow.edges, edge.targetNode = name → edge.sourceNode ∈ executed ∧ ¬ Dead outcome edge := by
    simp [WorkflowDefinition.incoming, conditionMet_recordAll, ← imp_iff_not_or]
  rw [isReady, contains_recordAll, ← met]
  split_ifs with done root parents
  · simp [of_decide_eq_true done]
  · simp [of_decide_eq_false (Bool.eq_false_of_not_eq_true done), root]
  · have hu : ¬ (flow.incoming name).all (conditionMet (recordAll outcome executed)) = true := by
      intro all
      rw [Bool.not_eq_true', all_eq_false] at parents
      obtain ⟨edge, mem, hm⟩ := parents
      have hs := (conditionMet_recordAll edge).mp (all_eq_true.mp all edge mem)
      rw [contains_recordAll, decide_eq_true_eq] at hm
      exact hm hs.1
    simp [hu]
  · simp [of_decide_eq_false (Bool.eq_false_of_not_eq_true done)]

theorem mem_findReadyNodesFanIn : name ∈ findReadyNodesFanIn flow (recordAll outcome executed) ↔
    name ∈ flow.names ∧ name ∉ executed ∧ ∀ edge ∈ flow.edges, edge.targetNode = name →
      edge.sourceNode ∈ executed ∧ ¬ Dead outcome edge := by
  rw [findReadyNodesFanIn, mem_filter, isReady_iff]

theorem mem_keys_recordAll : name ∈ (recordAll outcome executed).keys ↔ name ∈ executed := by
  rw [← AList.mem_keys, ← AList.lookup_isSome, lookup_recordAll]
  split_ifs with mem
  · simp [mem]
  · simp [mem]

theorem pick_eq (hash : HashOrder NodeName) : pick hash flow outcome executed =
    if ∀ name ∈ executed, name ∈ flow.names then (findReadyNodesFanIn flow (recordAll outcome executed)).head?
    else none := by
  have hc : NextStep.checkCompleted flow (hash.iterate (recordAll outcome executed).keys) = .ok () ↔
      ∀ name ∈ executed, name ∈ flow.names := by
    rw [NextStep.checkCompleted_iff]
    refine forall_congr' fun name => ?_
    rw [(hash.perm _).mem_iff, mem_keys_recordAll]
  rw [pick, selectNextStepWithFanIn]
  split_ifs with known
  · rw [hc.mpr known]
    cases findReadyNodesFanIn flow (recordAll outcome executed) with
    | nil | cons selected rest => rfl
  · cases hf : NextStep.checkCompleted flow (hash.iterate (recordAll outcome executed).keys) with
    | ok _ => exact absurd (hc.mp hf) known
    | error err => rfl

variable {hash : HashOrder NodeName}

theorem ready_of_pick (hp : pick hash flow outcome executed = some name) :
    name ∈ flow.names ∧ name ∉ executed ∧ ∀ edge ∈ flow.edges, edge.targetNode = name →
      edge.sourceNode ∈ executed ∧ ¬ Dead outcome edge := by
  rw [pick_eq] at hp
  split_ifs at hp with known
  exact mem_findReadyNodesFanIn.mp (mem_of_head? hp)

theorem pick_fresh (done : List NodeName) (name : NodeName)
    (hp : pick hash flow outcome done = some name) : name ∈ flow.names ∧ name ∉ done :=
  ⟨(ready_of_pick hp).1, (ready_of_pick hp).2.1⟩

end

section

variable {hash : HashOrder NodeName} {flow : WorkflowDefinition} {outcome : NodeName → StepOutcome}

variable {name : NodeName}

theorem EventuallySelected.mem_names (hs : EventuallySelected hash flow outcome name) :
    name ∈ flow.names := by
  obtain ⟨rounds, mem⟩ := hs
  exact Selection.mem_of_mem_run pick_fresh mem

theorem EventuallySelected.parents (hs : EventuallySelected hash flow outcome name) :
    ∀ edge ∈ flow.edges, edge.targetNode = name →
      EventuallySelected hash flow outcome edge.sourceNode ∧ ¬ Dead outcome edge := by
  obtain ⟨rounds, mem⟩ := hs
  obtain ⟨before, after, hb⟩ := append_of_mem mem
  have hr := (ready_of_pick (Selection.pick_eq_some_of_run hb)).2.2
  intro edge hp ht
  obtain ⟨he, ha⟩ := hr edge hp ht
  refine ⟨⟨rounds, ?_⟩, ha⟩
  rw [hb]
  exact mem_append_left _ he

variable (founded : WellFounded (Workflow.Joined flow.edges))

include founded

theorem not_blocked_of_selected (name : NodeName) (hs : EventuallySelected hash flow outcome name) :
    ¬ Blocked flow.edges outcome name := by
  induction name using founded.induction with
  | _ name ih =>
    intro hb
    obtain ⟨edge, mem, ht, hc⟩ := blocked_iff.mp hb
    obtain ⟨hp, ha⟩ := hs.parents edge mem ht
    rcases hc with dead | past
    · exact ha dead
    · exact ih edge.sourceNode ⟨edge, mem, rfl, ht⟩ hp past

theorem mem_selectedAfter_of_not_blocked (hf : WellFormed flow.nodes flow.edges) (name : NodeName)
    (mem : name ∈ flow.names) (free : ¬ Blocked flow.edges outcome name) :
    name ∈ selectedAfter hash flow outcome flow.names.length := by
  induction name using founded.induction with
  | _ name ih =>
    by_contra left
    have hc : pick hash flow outcome (selectedAfter hash flow outcome flow.names.length) = none :=
      Selection.stuck_of_items_le pick_fresh (Nat.le_refl _)
    have hk : ∀ name ∈ selectedAfter hash flow outcome flow.names.length, name ∈ flow.names :=
      fun _ hs => Selection.mem_of_mem_run pick_fresh hs
    rw [pick_eq, if_pos hk, head?_eq_none_iff, eq_nil_iff_forall_not_mem] at hc
    refine hc name (mem_findReadyNodesFanIn.mpr ⟨mem, left, fun edge hp ht => ?_⟩)
    have ha : ¬ Dead outcome edge := fun dead => free (blocked_iff.mpr ⟨edge, hp, ht, .inl dead⟩)
    have hd : ¬ Blocked flow.edges outcome edge.sourceNode := fun hb =>
      free (blocked_iff.mpr ⟨edge, hp, ht, .inr hb⟩)
    exact ⟨ih edge.sourceNode ⟨edge, hp, rfl, ht⟩ (hf.source edge hp) hd, ha⟩

theorem eventuallySelected_iff (hf : WellFormed flow.nodes flow.edges) (name : NodeName) :
    EventuallySelected hash flow outcome name ↔ name ∈ flow.names ∧ ¬ Blocked flow.edges outcome name := by
  constructor
  · intro hs
    exact ⟨hs.mem_names, not_blocked_of_selected founded name hs⟩
  · intro free
    exact ⟨_, mem_selectedAfter_of_not_blocked founded hf name free.1 free.2⟩

end

theorem fan_in_completes_iff (hash order : HashOrder NodeName) (unvalidated : UnvalidatedWorkflow)
    (flow : WorkflowDefinition) (accepted : validateUnvalidated hash unvalidated = .ok flow)
    (outcome : NodeName → StepOutcome) : (∀ name, (∃ edge ∈ flow.edges, edge.targetNode = name ∧
        EventuallySelected order flow outcome edge.sourceNode ∧
        edge.condition.matchesOutcome (outcome edge.sourceNode) = true) →
      EventuallySelected order flow outcome name) ↔
    ∀ edge ∈ flow.edges, edge.condition.matchesOutcome (outcome edge.sourceNode) = true →
      ¬ Blocked flow.edges outcome edge.sourceNode → ¬ Blocked flow.edges outcome edge.targetNode := by
  obtain ⟨_, _, hf, ha⟩ := validateUnvalidated_ok accepted
  have hs : ∀ name, EventuallySelected order flow outcome name ↔ _ := eventuallySelected_iff (hf.wellFounded ha) hf
  constructor
  · intro hc edge mem hl free
    have ho := (hs edge.sourceNode).mpr ⟨hf.source edge mem, free⟩
    exact ((hs edge.targetNode).mp (hc _ ⟨edge, mem, rfl, ho, hl⟩)).2
  · intro hu name he
    obtain ⟨edge, mem, rfl, ho, hl⟩ := he
    have free := ((hs edge.sourceNode).mp ho).2
    exact (hs edge.targetNode).mpr ⟨hf.target edge mem, hu edge mem hl free⟩

section Sample

open NextStep

/-- A router takes one of two branches, and the node where they meet is never selected. -/
theorem fork_never_joins : validateUnvalidated (.unchanged NodeName) sampleFork = .ok sampleForkDefinition ∧
    EventuallySelected (.unchanged NodeName) sampleForkDefinition (fun _ => .success) (sampleName "b") ∧
    sampleEdge "b" "d" .always ∈ sampleForkDefinition.edges ∧
    (sampleEdge "b" "d" .always).condition.matchesOutcome .success = true ∧
    ¬ EventuallySelected (.unchanged NodeName) sampleForkDefinition (fun _ => .success) (sampleName "d") := by
  have ha : validateUnvalidated (.unchanged NodeName) sampleFork = .ok sampleForkDefinition := by
    decide +kernel
  obtain ⟨_, _, hf, hc⟩ := validateUnvalidated_ok ha
  refine ⟨ha, ⟨2, by decide +kernel⟩, by decide +kernel, rfl, fun hs => ?_⟩
  apply not_blocked_of_selected (hf.wellFounded hc) _ hs
  refine ⟨sampleEdge "a" "c" .onFailure, by decide +kernel, rfl, .single ?_⟩
  exact ⟨sampleEdge "c" "d" .always, by decide +kernel, rfl, rfl⟩

def sampleChain : UnvalidatedWorkflow :=
  sampleWorkflow ["a", "b", "c"] [sampleEdge "a" "b" .onSuccess, sampleEdge "b" "c" .always,
    sampleEdge "a" "c" .onSuccess]

def sampleChainDefinition : WorkflowDefinition :=
  ⟨sampleChain.workflowName, sampleChain.nodes, by decide, sampleChain.edges, .min⟩

theorem fan_in_completes_iff_chain : validateUnvalidated (.unchanged NodeName) sampleChain = .ok sampleChainDefinition ∧
    ∀ name, (∃ edge ∈ sampleChainDefinition.edges, edge.targetNode = name ∧
        EventuallySelected (.unchanged NodeName) sampleChainDefinition (fun _ => .success) edge.sourceNode ∧
        edge.condition.matchesOutcome .success = true) →
      EventuallySelected (.unchanged NodeName) sampleChainDefinition (fun _ => .success) name := by
  have ha : validateUnvalidated (.unchanged NodeName) sampleChain = .ok sampleChainDefinition := by
    decide +kernel
  have hp : ∀ edge ∈ sampleChainDefinition.edges, edge.condition.matchesOutcome .success = true := by
    decide +kernel
  refine ⟨ha, (fan_in_completes_iff _ _ sampleChain _ ha (fun _ => .success)).mpr ?_⟩
  intro edge mem hc free hb
  obtain ⟨closed, hl, dead, _⟩ := hb
  rw [Dead, hp closed hl] at dead
  cases dead

end Sample

end Veloxide.FanIn
