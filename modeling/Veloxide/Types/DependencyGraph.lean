import Veloxide.Library.Layering
import Veloxide.Library.StackSearch
import Veloxide.Types.NextStep

namespace Veloxide.WorkflowDefinition

open Relation Digraph Workflow List
open NextStep (sampleForkDefinition sampleFork)

/-! The search and the rounds below take a bound on the iterations of their loops, and answer `none` beyond it. -/

def dependents (flow : WorkflowDefinition) (node : NodeName) : List NodeName :=
  (flow.edges.filter fun edge => edge.sourceNode = node).map Edge.targetNode

def transitiveDependencies (fuel : Nat) (flow : WorkflowDefinition) (node : NodeName) : Option (List NodeName) :=
  StackSearch.search flow.dependencies fuel node

def transitiveDependents (fuel : Nat) (flow : WorkflowDefinition) (node : NodeName) : Option (List NodeName) :=
  StackSearch.search flow.dependents fuel node

def executionLayers (fuel : Nat) (flow : WorkflowDefinition) : Option (List (List NodeName)) :=
  if flow.nodes = [] then some [] else Layering.run flow.dependencies fuel [] flow.names

section

variable {flow : WorkflowDefinition} {node other : NodeName}

theorem edge_dependents : (fun first second => second ∈ flow.dependents first) = Joined flow.edges := by
  funext first second
  exact propext mem_adjacent

theorem edge_dependencies :
    (fun first second => second ∈ flow.dependencies first) = Function.swap (Joined flow.edges) := by
  funext first second
  exact propext mem_dependencies

theorem leads_dependents :
    StackSearch.Leads flow.dependents node other ↔ ReflTransGen (Joined flow.edges) node other := by
  rw [StackSearch.Leads, edge_dependents]

theorem leads_dependencies :
    StackSearch.Leads flow.dependencies node other ↔ ReflTransGen (Joined flow.edges) other node := by
  rw [StackSearch.Leads, edge_dependencies, reflTransGen_swap]

theorem mem_names_iff (hf : WellFormed flow.nodes flow.edges)
    (hl : ReflTransGen (Joined flow.edges) node other) : node ∈ flow.names ↔ other ∈ flow.names := by
  rcases reflTransGen_iff_eq_or_transGen.mp hl with rfl | path
  · exact Iff.rfl
  · obtain ⟨first, hj, _⟩ := TransGen.head'_iff.mp path
    obtain ⟨last, _, ha⟩ := TransGen.tail'_iff.mp path
    exact iff_of_true (hf.within hj).1 (hf.within ha).2

variable {fuel : Nat}

theorem dependents_exact_iff (ho : WellFormed flow.nodes flow.edges)
    (ha : Acyclic (Joined flow.edges)) (mem : node ∈ flow.names) (he : flow.nodes.length ≤ fuel) :
    (∃ found, transitiveDependents fuel flow node = some found ∧ found.Nodup ∧
        ∀ other, other ∈ found ↔ TransGen (Joined flow.edges) node other) ↔
      flow.edges.Pairwise fun first second => ReflTransGen (Joined flow.edges) node first.sourceNode →
        ReflTransGen (Joined flow.edges) node second.sourceNode → first.targetNode ≠ second.targetNode := by
  have hw (other : NodeName) (hl : StackSearch.Leads flow.dependents node other) :
      other ∈ flow.names := (mem_names_iff ho (leads_dependents.mp hl)).mp mem
  have hr (other : NodeName) (hl : StackSearch.Leads flow.dependents node other) :
      node ∉ flow.dependents other := fun back =>
    ha node (TransGen.tail' (leads_dependents.mp hl) (mem_adjacent.mp back))
  have hf : flow.names.length ≤ fuel := by rwa [names, length_map]
  have hs := StackSearch.search_exact_iff hw hf
  have tree := StackSearch.tree_iff_pairwise flow.edges Edge.sourceNode Edge.targetNode hr
  rw [edge_dependents] at hs
  refine hs.trans (tree.trans ?_)
  simp only [← leads_dependents]
  exact Iff.rfl

theorem dependencies_exact_iff (ho : WellFormed flow.nodes flow.edges)
    (ha : Acyclic (Joined flow.edges)) (mem : node ∈ flow.names) (he : flow.nodes.length ≤ fuel) :
    (∃ found, transitiveDependencies fuel flow node = some found ∧ found.Nodup ∧
        ∀ other, other ∈ found ↔ TransGen (Joined flow.edges) other node) ↔
      flow.edges.Pairwise fun first second => ReflTransGen (Joined flow.edges) first.targetNode node →
        ReflTransGen (Joined flow.edges) second.targetNode node → first.sourceNode ≠ second.sourceNode := by
  have hw (other : NodeName) (hl : StackSearch.Leads flow.dependencies node other) :
      other ∈ flow.names := (mem_names_iff ho (leads_dependencies.mp hl)).mpr mem
  have hr (other : NodeName) (hl : StackSearch.Leads flow.dependencies node other) :
      node ∉ flow.dependencies other := fun back =>
    ha node (TransGen.head' (mem_dependencies.mp back) (leads_dependencies.mp hl))
  have hf : flow.names.length ≤ fuel := by rwa [names, length_map]
  have hs := StackSearch.search_exact_iff hw hf
  have tree := StackSearch.tree_iff_pairwise flow.edges Edge.targetNode Edge.sourceNode hr
  simp only [edge_dependencies, transGen_swap] at hs
  refine hs.trans (tree.trans ?_)
  simp only [← leads_dependencies]
  exact Iff.rfl

end

section

variable {flow : WorkflowDefinition}

/-- A node met along a second path is taken for a cycle, so the searches are exact on trees. -/
theorem transitive_closure_exact_iff (hash : HashOrder NodeName) (unvalidated : UnvalidatedWorkflow)
    (accepted : validateUnvalidated hash unvalidated = .ok flow) (node : NodeName)
    (mem : node ∈ flow.names) (fuel : Nat) (enough : flow.nodes.length ≤ fuel) :
    ((∃ found, transitiveDependencies fuel flow node = some found ∧ found.Nodup ∧
          ∀ other, other ∈ found ↔ TransGen (Joined flow.edges) other node) ↔
        flow.edges.Pairwise fun first second => ReflTransGen (Joined flow.edges) first.targetNode node →
          ReflTransGen (Joined flow.edges) second.targetNode node → first.sourceNode ≠ second.sourceNode) ∧
      ((∃ found, transitiveDependents fuel flow node = some found ∧ found.Nodup ∧
          ∀ other, other ∈ found ↔ TransGen (Joined flow.edges) node other) ↔
        flow.edges.Pairwise fun first second => ReflTransGen (Joined flow.edges) node first.sourceNode →
          ReflTransGen (Joined flow.edges) node second.sourceNode → first.targetNode ≠ second.targetNode) := by
  obtain ⟨_, _, hf, ha⟩ := validateUnvalidated_ok accepted
  exact ⟨dependencies_exact_iff hf ha mem enough, dependents_exact_iff hf ha mem enough⟩

/-- In a diamond both searches return nothing. -/
theorem diamond_closure_empty :
    validateUnvalidated (.unchanged NodeName) sampleFork = .ok sampleForkDefinition ∧
      transitiveDependents 4 sampleForkDefinition (sampleName "a") = some [] ∧
      transitiveDependencies 4 sampleForkDefinition (sampleName "d") = some [] ∧
      TransGen (Joined sampleForkDefinition.edges) (sampleName "a") (sampleName "d") := by
  refine ⟨by decide +kernel, by decide +kernel, by decide +kernel, ?_⟩
  have hf : Joined sampleForkDefinition.edges (sampleName "a") (sampleName "b") :=
    ⟨sampleEdge "a" "b" .onSuccess, by decide +kernel, rfl, rfl⟩
  exact .tail (.single hf) ⟨sampleEdge "b" "d" .always, by decide +kernel, rfl, rfl⟩

theorem transitive_closure_exact_iff_fork : sampleName "a" ∈ sampleForkDefinition.names ∧
    ((∃ found, transitiveDependents 4 sampleForkDefinition (sampleName "a") = some found ∧ found.Nodup ∧
        ∀ other, other ∈ found ↔ TransGen (Joined sampleForkDefinition.edges) (sampleName "a") other) ↔
      sampleForkDefinition.edges.Pairwise fun first second =>
        ReflTransGen (Joined sampleForkDefinition.edges) (sampleName "a") first.sourceNode →
        ReflTransGen (Joined sampleForkDefinition.edges) (sampleName "a") second.sourceNode →
        first.targetNode ≠ second.targetNode) := by
  have ha : validateUnvalidated (.unchanged NodeName) sampleFork =
    .ok sampleForkDefinition := by decide +kernel
  have mem : sampleName "a" ∈ sampleForkDefinition.names := by decide +kernel
  exact ⟨mem, (transitive_closure_exact_iff (.unchanged NodeName) sampleFork ha (sampleName "a")
    mem 4 (by decide +kernel)).2⟩

/-- The layers are those of the longest paths. -/
theorem execution_layers_depth (hash : HashOrder NodeName) (unvalidated : UnvalidatedWorkflow)
    (accepted : validateUnvalidated hash unvalidated = .ok flow) (fuel : Nat)
    (enough : flow.nodes.length ≤ fuel) :
    ∃ layers, executionLayers fuel flow = some layers ∧ layers.flatten.Perm flow.names ∧
      (∀ index node, (∃ layer, layers[index]? = some layer ∧ node ∈ layer) ↔
        node ∈ flow.names ∧ Depth (Joined flow.edges) index node) ∧
      ∀ layer ∈ layers, ∀ node ∈ layer, ∀ other ∈ layer, ¬ Joined flow.edges node other := by
  obtain ⟨_, _, ho, ha⟩ := validateUnvalidated_ok accepted
  have hw : ∀ node ∈ flow.names, ∀ other ∈ flow.dependencies node, other ∈ flow.names :=
    fun node _ other hj => (ho.within (mem_dependencies.mp hj)).1
  have edges : (fun other node => other ∈ flow.dependencies node) = Joined flow.edges := by
    funext other node
    exact propext mem_dependencies
  have hb : WellFounded fun other node => other ∈ flow.dependencies node := by
    rw [edges]
    exact ho.wellFounded ha
  have hu : flow.names.length ≤ fuel := by rwa [names, length_map]
  obtain ⟨layers, hc, hf, hd⟩ :=
    Layering.run_spec hw hb (Layering.start_invariant flow.dependencies flow.names) hu
  simp only [edges, Nat.zero_add] at hd
  refine ⟨layers, by rw [executionLayers, if_neg flow.nonempty, hc], hf, hd, ?_⟩
  intro layer mem node here other ht hj
  obtain ⟨index, he⟩ := getElem?_of_mem mem
  have hi := ((hd index node).mp ⟨layer, he, here⟩).2
  have hs := ((hd index other).mp ⟨layer, he, ht⟩).2
  exact Nat.lt_irrefl index (hi.lt_of_edge hs hj)

theorem execution_layers_depth_fork : executionLayers 4 sampleForkDefinition =
      some [[sampleName "a"], [sampleName "b", sampleName "c"], [sampleName "d"]] ∧
    ∃ layers, executionLayers 4 sampleForkDefinition = some layers ∧
      layers.flatten.Perm sampleForkDefinition.names := by
  have ha : validateUnvalidated (.unchanged NodeName) sampleFork =
    .ok sampleForkDefinition := by decide +kernel
  obtain ⟨layers, hc, hf, _⟩ := execution_layers_depth (.unchanged NodeName) sampleFork ha 4 (by decide +kernel)
  exact ⟨by decide +kernel, layers, hc, hf⟩

end

end Veloxide.WorkflowDefinition
