import Veloxide.Library.DepthFirst

namespace Veloxide.Linter

open List Function DepthFirst Relation

structure Step where
  name : String
  isEntry : Bool

structure Edge where
  source : String
  target : String

structure DagGraph where
  steps : List Step
  edges : List Edge

structure CycleError where
  path : List String

/-- The sets `white` and `gray`: a name of `white` is unvisited, one of `gray` in progress, any other done. -/
abbrev Marks := String → Color

namespace DagGraph

variable (graph : DagGraph)

def names : List String := graph.steps.map Step.name

def adjacencyList : String → List String :=
  graph.edges.foldl (fun adj edge => update adj edge.source (adj edge.source ++ [edge.target])) fun _ => []

def Joined (node other : String) : Prop := ⟨node, other⟩ ∈ graph.edges ∧ node ∈ graph.names ∧ other ∈ graph.names

end DagGraph

namespace CycleDetector

/-- A loop that ends with the first cycle found; `none` when a visit runs out of fuel. -/
def scan (body : String → Marks → Option (Option (List String) × Marks)) :
    List String → Marks → Option (Option (List String) × Marks)
  | [], marks => some (none, marks)
  | name :: names, marks =>
    match body name marks with
    | some (none, after) => scan body names after
    | other => other

def visitNeighbor (visit : String → Marks → Option (Option (List String) × Marks)) (path : List String)
    (neighbor : String) (marks : Marks) : Option (Option (List String) × Marks) :=
  match marks neighbor with
  | .inProgress => some (some (path ++ [neighbor]), marks)
  | .unvisited => visit neighbor marks
  | .done => some (none, marks)

def dfsVisit (adj : String → List String) : (fuel : Nat) → (stack : String → Option (List String)) →
    (node : String) → Marks → Option (Option (List String) × Marks)
  | 0, _, _, _ => none
  | fuel + 1, stack, node, marks =>
    match scan (visitNeighbor (fun neighbor => dfsVisit adj fuel (update stack neighbor (some [node])) neighbor)
      ((stack node).getD [] ++ [node])) (adj node) (update marks node .inProgress) with
    | some (none, after) => some (none, update after node .done)
    | other => other

variable (graph : DagGraph)

def visitStep (name : String) (marks : Marks) : Option (Option (List String) × Marks) :=
  if marks name = .unvisited then dfsVisit graph.adjacencyList (graph.steps.length + 1) (fun _ => none) name marks
  else some (none, marks)

def check : Option (Except CycleError Unit) := if graph.steps = [] then some (.ok ())
  else (scan (visitStep graph) graph.names fun name => if name ∈ graph.names then .unvisited else .done).map fun result =>
    match result.1 with
    | none => .ok ()
    | some path => .error ⟨path⟩

variable {graph} {node : String}

theorem adjacencyList_eq :
    graph.adjacencyList node = (graph.edges.filter fun edge => edge.source = node).map Edge.target := by
  rw [DagGraph.adjacencyList]
  induction graph.edges using reverseRecOn with
  | nil => rfl
  | append_singleton edges edge ih =>
    rw [foldl_append, foldl_cons, foldl_nil, filter_append, map_append, ← ih]
    by_cases same : edge.source = node
    · simp [same]
    · simp [same, update_of_ne (Ne.symm same)]

def next (graph : DagGraph) (node : String) : List String :=
  if node ∈ graph.names then (graph.adjacencyList node).filter (· ∈ graph.names) else []

theorem edge_next : DepthFirst.Edge (next graph) = graph.Joined := by
  funext node other
  by_cases hn : node ∈ graph.names
  · simp only [DepthFirst.Edge, next, adjacencyList_eq, DagGraph.Joined, hn, if_true, mem_filter, mem_map,
      decide_eq_true_eq, true_and]
    refine propext (and_congr_left fun _ => ⟨?_, fun mem => ⟨_, ⟨mem, rfl⟩, rfl⟩⟩)
    rintro ⟨⟨source, target⟩, ⟨mem, rfl⟩, rfl⟩
    exact mem
  · simp [DepthFirst.Edge, next, DagGraph.Joined, hn]

/-- The path that is reported: the last two nodes entered, and the node met again. -/
def report (path : List String) (node : String) : Option (List String) :=
  some (path.dropLast.getLast?.toList ++ path.getLast?.toList ++ [node])

def masked (graph : DagGraph) (color : String → Color) : Marks :=
  fun name => if name ∈ graph.names then color name else .done

theorem masked_of_mem (hn : node ∈ graph.names) (hc : String → Color) : masked graph hc node = hc node := if_pos hn

theorem masked_update (hn : node ∈ graph.names) (hc : String → Color) (mark : Color) :
    masked graph (update hc node mark) = update (masked graph hc) node mark := by
  funext other
  by_cases same : other = node
  · simp [same, masked_of_mem hn]
  · simp [masked, same]

/-- The visit ends as the search does, which has come back to the path. -/
def Follows (graph : DagGraph) (path : List String) (found : Option (List String)) (after : Search String)
    (result : Option (Option (List String) × Marks)) : Prop :=
  result = some (found, masked graph after.color) ∧ (found = none → after.path = path)

variable {search after : Search String} {found : Option (List String)} {fuel : Nat} {path : List String}

theorem scan_follows {body : String → Marks → Option (Option (List String) × Marks)}
    {visitor : String → Search String → Option (Option (List String) × Search String)} {names : List String}
    (hp : search.path = path)
    (hs : ∀ name ∉ graph.names, ∀ color, body name (masked graph color) = some (none, masked graph color))
    (step : ∀ name ∈ graph.names, ∀ search found after, search.path = path →
      visitor name search = some (found, after) → Follows graph path found after (body name (masked graph search.color)))
    (ran : explore visitor (names.filter (· ∈ graph.names)) search = some (found, after)) :
    Follows graph path found after (scan body names (masked graph search.color)) := by
  induction names generalizing search with
  | nil =>
    cases ran
    exact ⟨rfl, fun _ => hp⟩
  | cons name names ih =>
    rw [scan]
    by_cases hn : name ∈ graph.names
    · rw [filter_cons_of_pos (by simpa using hn), explore] at ran
      cases hv : visitor name search with
      | none =>
        rw [hv] at ran
        cases ran
      | some first =>
        obtain ⟨here, rest⟩ := step name hn search _ _ hp hv
        rw [hv] at ran
        rw [here]
        rcases first with ⟨_ | cycle, middle⟩
        · exact ih (rest rfl) ran
        · cases ran
          exact ⟨rfl, rest⟩
    · rw [filter_cons_of_neg (by simpa using hn)] at ran
      rw [hs name hn]
      exact ih hp ran

theorem visitNeighbor_follows (hv : String → Marks → Option (Option (List String) × Marks))
    {stack : Option (List String)} {name : String} (hn : name ∈ graph.names) (hp : search.path = path ++ [node])
    (hs : stack = path.getLast?.map ([·])) (ran : visit (next graph) report fuel name search = some (found, after))
    (he : search.color name = .unvisited →
      Follows graph search.path found after (hv name (masked graph search.color))) :
    Follows graph (path ++ [node]) found after
      (visitNeighbor hv (stack.getD [] ++ [node]) name (masked graph search.color)) := by
  cases fuel with
  | zero => cases ran
  | succ fuel =>
    rw [visitNeighbor, masked_of_mem hn]
    rw [visit] at ran
    cases hc : search.color name with
    | unvisited =>
      rw [← hp]
      exact he hc
    | inProgress =>
      rw [hc] at ran
      cases ran
      rw [hp, report, hs, dropLast_concat]
      refine ⟨?_, fun h => (by cases h)⟩
      cases path.getLast? <;> simp
    | done =>
      rw [hc] at ran
      cases ran
      exact ⟨rfl, fun _ => hp⟩

theorem dfsVisit_follows {stack : String → Option (List String)} (hn : node ∈ graph.names)
    (hf : search.color node = .unvisited) (hs : stack node = search.path.getLast?.map ([·]))
    (ran : visit (next graph) report fuel node search = some (found, after)) : Follows graph search.path found after
      (dfsVisit graph.adjacencyList fuel stack node (masked graph search.color)) := by
  induction fuel generalizing node search found after stack with
  | zero => cases ran
  | succ fuel ih =>
    rw [visit, hf] at ran
    cases he : explore (visit (next graph) report fuel) (next graph node)
        ⟨update search.color node .inProgress, search.path ++ [node]⟩ with
    | none =>
      simp only [he] at ran
      cases ran
    | some inner =>
      have step (name : String) (hm : name ∈ graph.names) (inside : Search String) (found : Option (List String))
          (after : Search String) (hp : inside.path = search.path ++ [node])
          (ran : visit (next graph) report fuel name inside = some (found, after)) :=
        visitNeighbor_follows (fun name => dfsVisit graph.adjacencyList fuel (update stack name (some [node])) name)
          hm hp hs ran fun color => ih hm color (by simp [hp]) ran
      have all := he
      rw [next, if_pos hn] at all
      obtain ⟨here, rest⟩ := scan_follows rfl (fun name hm color => by
        rw [visitNeighbor, masked, if_neg hm]) step all
      rw [masked_update hn] at here
      rw [dfsVisit, here]
      simp only [he] at ran
      rcases inner with ⟨_ | cycle, last⟩
      · cases ran
        refine ⟨by rw [masked_update hn], fun _ => ?_⟩
        rw [rest rfl, dropLast_concat]
      · cases ran
        exact ⟨rfl, fun h => (by cases h)⟩

theorem visitStep_follows (hn : node ∈ graph.names) (hp : search.path = [])
    (ran : visitRoot (next graph) report id (graph.steps.length + 1) node search = some (found, after)) :
    Follows graph [] found after (visitStep graph node (masked graph search.color)) := by
  rw [visitRoot] at ran
  rw [visitStep, masked_of_mem hn]
  split_ifs at ran ⊢ with fresh
  · rw [← hp]
    exact dfsVisit_follows hn fresh (by rw [hp]; rfl) ran
  · cases ran
    exact ⟨rfl, fun _ => hp⟩

theorem scan_visitStep (graph : DagGraph) :
    ∃ found marks, scan (visitStep graph) graph.names (masked graph fun _ => .unvisited) = some (found, marks) ∧
      match found with
      | none => Digraph.Acyclic graph.Joined
      | some cycle => ∃ path node, Closes (next graph) path node ∧ report path node = some cycle := by
  have hw : ∀ node other, DepthFirst.Edge (next graph) node other → node ∈ graph.names ∧ other ∈ graph.names := by
    rw [edge_next]
    exact fun _ _ hj => hj.2
  have hr (path : List String) (node : String) (_ : node ∈ path) : (report path node).isSome := rfl
  obtain ⟨found, after, ran, spec⟩ := visitRoots_acyclic hw hr (rfl : id [] = [])
  have size : graph.names.length = graph.steps.length := length_map ..
  have all : graph.names.filter (· ∈ graph.names) = graph.names := filter_eq_self.mpr (by simp)
  rw [size, ← all] at ran
  have ends := scan_follows rfl (fun name hn color => by rw [visitStep, masked, if_neg hn]; rfl)
    (fun name hn search found after => visitStep_follows hn) ran
  rw [edge_next] at spec
  refine ⟨found, _, ends.1, ?_⟩
  cases found <;> exact spec

theorem report_closes {cycle : List String} (hc : Closes (next graph) path node)
    (hr : report path node = some cycle) :
    ∃ rest before, cycle = rest ++ [before, node] ∧ cycle.IsChain graph.Joined ∧ graph.Joined before node ∧
      ReflTransGen graph.Joined node before := by
  obtain ⟨_, mem, ha⟩ := hc
  rw [Leads, edge_next] at ha
  obtain rfl | ⟨front, last, rfl⟩ := eq_nil_or_concat' path
  · cases mem
  rw [report, dropLast_concat, getLast?_concat, Option.some.injEq] at hr
  subst hr
  have hl : graph.Joined last node := by
    rw [append_assoc] at ha
    exact (isChain_cons_cons.mp ha.right_of_append).1
  refine ⟨front.getLast?.toList, last, by simp, ?_, hl, ?_⟩
  · obtain rfl | ⟨front, parent, rfl⟩ := eq_nil_or_concat' front
    · exact ha
    · rw [getLast?_concat]
      rw [append_assoc, append_assoc] at ha
      exact ha.right_of_append
  · rcases mem_append.mp mem with he | same
    · obtain ⟨before, rest, rfl⟩ := append_of_mem he
      have hh := ha.left_of_append
      rw [append_assoc, cons_append] at hh
      exact (Digraph.transGen_of_isChain hh.right_of_append).to_reflTransGen
    · rw [mem_singleton.mp same]

/-- A cycle is reported exactly when steps are joined in one, and the path that is reported ends in one. -/
theorem check_exact (graph : DagGraph) : ∃ result, check graph = some result ∧
    ((∃ error, result = .error error) ↔ ∃ step, TransGen graph.Joined step step) ∧
    ∀ error, result = .error error → ∃ rest before last, error.path = rest ++ [before, last] ∧
      error.path.IsChain graph.Joined ∧ graph.Joined before last ∧ ReflTransGen graph.Joined last before := by
  rw [check]
  split_ifs with empty
  · refine ⟨_, rfl, iff_of_false (fun h => (by simp at h)) (fun ⟨step, cycle⟩ => ?_), fun error h => (by cases h)⟩
    obtain ⟨_, hj, _⟩ := TransGen.head'_iff.mp cycle
    have := hj.2.1
    simp [DagGraph.names, empty] at this
  · obtain ⟨found, marks, ran, spec⟩ := scan_visitStep graph
    unfold masked at ran
    rw [ran]
    refine ⟨_, rfl, ?_⟩
    cases found with
    | none =>
      exact ⟨iff_of_false (fun h => (by simp at h)) (fun h => h.elim spec), fun error h => (by cases h)⟩
    | some cycle =>
      obtain ⟨path, node, hc, hr⟩ := spec
      obtain ⟨rest, before, split, hh, hj, back⟩ := report_closes hc hr
      refine ⟨iff_of_true ⟨_, rfl⟩ ⟨node, .tail' back hj⟩, fun error h => ?_⟩
      cases h
      exact ⟨rest, before, node, split, hh, hj, back⟩

end CycleDetector

end Veloxide.Linter
