import Mathlib

namespace StackSearch

open Relation List

variable {α : Type}

/-- A search with a stack: the items that were met, with the start and without it. -/
structure State (α : Type) where
  stack : List α
  visited : List α
  found : List α

section

variable [DecidableEq α] (next : α → List α)

def offer (state : State α) (item : α) : Option (State α) := if item ∈ state.visited then none
  else some ⟨item :: state.stack, state.visited ++ [item], state.found ++ [item]⟩

/-- `none` when the fuel runs out, and otherwise what was found unless an item was met again. -/
def run : Nat → State α → Option (Option (List α))
  | _, ⟨[], _, found⟩ => some (some found)
  | 0, ⟨_ :: _, _, _⟩ => none
  | fuel + 1, ⟨item :: stack, visited, found⟩ =>
    match (next item).foldlM offer ⟨stack, visited, found⟩ with
    | some state => run fuel state
    | none => some none

def start (item : α) : State α := ⟨[item], [item], []⟩

def search (fuel : Nat) (root : α) : Option (List α) := (run next fuel (start root)).map (·.getD [])

end

abbrev Leads (next : α → List α) : α → α → Prop := ReflTransGen fun first second => second ∈ next first

/-- No edge leads to the start, and no two edges lead to the same item. -/
structure Tree (next : α → List α) (root : α) : Prop where
  fresh : ∀ item, Leads next root item → root ∉ next item
  single : ∀ item, Leads next root item → (next item).Nodup
  disjoint : ∀ item other, Leads next root item → Leads next root other → item ≠ other →
    List.Disjoint (next item) (next other)

/-- What holds between two rounds, after the items `done` were taken off the stack. -/
structure Invariant (next : α → List α) (root : α) (done : List α) (state : State α) : Prop where
  visited_eq : state.visited = root :: state.found
  found_eq : state.found = done.flatMap next
  distinct : state.visited.Nodup
  split : (state.stack ++ done).Perm state.visited
  reached : ∀ item ∈ state.visited, Leads next root item

section

variable {next : α → List α} {root item : α} {done stack visited found items : List α} {state : State α}

theorem start_invariant (next : α → List α) (root : α) : Invariant next root [] (start root) :=
  ⟨rfl, rfl, nodup_singleton root, by simp [start], by simp [start, ReflTransGen.refl]⟩

variable [DecidableEq α]

theorem foldlM_offer (state : State α) (hf : (state.visited ++ items).Nodup) : items.foldlM offer state =
    some ⟨items.reverse ++ state.stack, state.visited ++ items, state.found ++ items⟩ := by
  induction items generalizing state with
  | nil => simp
  | cons item items ih =>
    have new : item ∉ state.visited := by
      intro mem
      exact (nodup_append.mp hf).2.2 item mem item mem_cons_self rfl
    rw [foldlM_cons, offer, if_neg new]
    simp only [Option.bind_eq_bind, Option.bind_some]
    rw [ih _ (by simpa using hf)]
    simp

theorem foldlM_offer_again (state : State α) (hd : state.visited.Nodup) (ha : ¬ (state.visited ++ items).Nodup) :
    items.foldlM offer state = none := by
  induction items generalizing state with
  | nil => simp [hd] at ha
  | cons item items ih =>
    rw [foldlM_cons, offer]
    split_ifs with met
    · rfl
    · exact ih _ (nodup_append.mpr ⟨hd, nodup_singleton item, by
        intro first mem second hs
        rw [mem_singleton.mp hs]
        exact fun same => met (same ▸ mem)⟩) (by simpa using ha)

end

section

variable {next : α → List α} {root item : α} {done stack visited found : List α} {state : State α}

theorem Invariant.mem_visited (hi : Invariant next root done state) :
    item ∈ state.visited ↔ item ∈ state.stack ∨ item ∈ done := by
  rw [← hi.split.mem_iff, mem_append]

theorem Invariant.mem_found (hi : Invariant next root done state) :
    item ∈ state.found ↔ ∃ earlier ∈ done, item ∈ next earlier := by
  rw [hi.found_eq, mem_flatMap]

theorem Invariant.advance (hi : Invariant next root done ⟨item :: stack, visited, found⟩)
    (hr : (visited ++ next item).Nodup) : Invariant next root (done ++ [item])
      ⟨(next item).reverse ++ stack, visited ++ next item, found ++ next item⟩ := by
  have hv : visited = root :: found := hi.visited_eq
  have hf : found = done.flatMap next := hi.found_eq
  refine ⟨?_, ?_, hr, ?_, ?_⟩
  · simp only [hv, cons_append]
  · simp only [hf, flatMap_append, flatMap_singleton]
  · have hs : (stack ++ (done ++ [item])).Perm visited := by
      rw [← append_assoc]
      exact perm_append_comm.trans hi.split
    rw [append_assoc]
    exact ((reverse_perm _).append hs).trans perm_append_comm
  · have here : Leads next root item := hi.reached item (hi.mem_visited.mpr (.inl mem_cons_self))
    intro other mem
    rcases mem_append.mp mem with old | new
    · exact hi.reached other old
    · exact here.tail new

theorem Invariant.fresh (hi : Invariant next root done ⟨item :: stack, visited, found⟩)
    (tree : Tree next root) : (visited ++ next item).Nodup := by
  have hv : visited = root :: found := hi.visited_eq
  have here := hi.reached item (hi.mem_visited.mpr (.inl mem_cons_self))
  refine nodup_append.mpr ⟨hi.distinct, tree.single item here, ?_⟩
  rintro other mem successor hj rfl
  rw [hv] at mem
  rcases mem_cons.mp mem with rfl | past
  · exact tree.fresh item here hj
  · obtain ⟨source, ht, hl⟩ := hi.mem_found.mp past
    have ha : source ≠ item := by
      rintro rfl
      have hd := hi.split.nodup_iff.mpr hi.distinct
      exact (nodup_append.mp hd).2.2 source mem_cons_self source ht rfl
    have hh := hi.reached source (hi.mem_visited.mpr (.inr ht))
    exact tree.disjoint source item hh here ha hl hj

theorem Invariant.mem_done (hi : Invariant next root done ⟨[], visited, found⟩)
    (hr : Leads next root item) : item ∈ done := by
  have hv : visited = root :: found := hi.visited_eq
  have ht (other : α) (mem : other ∈ visited) : other ∈ done := by
    simpa using hi.mem_visited.mp mem
  induction hr with
  | refl => exact ht root (by simp [hv])
  | tail _ hj ih =>
    refine ht _ ?_
    rw [hv]
    exact mem_cons_of_mem root (hi.mem_found.mpr ⟨_, ih, hj⟩)

theorem Invariant.tree (hi : Invariant next root done ⟨[], visited, found⟩) : Tree next root := by
  have hb : (root :: done.flatMap next).Nodup := by
    rw [← hi.found_eq, ← hi.visited_eq]
    exact hi.distinct
  obtain ⟨ha, hb⟩ := nodup_cons.mp hb
  obtain ⟨hc, hp⟩ := nodup_flatMap.mp hb
  refine ⟨?_, ?_, ?_⟩
  · intro item hr mem
    exact ha (mem_flatMap.mpr ⟨item, hi.mem_done hr, mem⟩)
  · exact fun item hr => hc item (hi.mem_done hr)
  · intro item other hr ht hd
    have hs : Std.Symm (Function.onFun List.Disjoint next) := ⟨fun _ _ he => he.symm⟩
    exact hp.forall (hi.mem_done hr) (hi.mem_done ht) hd

theorem Invariant.found_iff (hi : Invariant next root done ⟨[], visited, found⟩) :
    item ∈ found ↔ TransGen (fun first second => second ∈ next first) root item := by
  rw [TransGen.tail'_iff]
  constructor
  · intro mem
    obtain ⟨source, ht, hj⟩ := hi.mem_found.mp mem
    exact ⟨source, hi.reached source (hi.mem_visited.mpr (.inr ht)), hj⟩
  · rintro ⟨source, hr, hj⟩
    exact hi.mem_found.mpr ⟨source, hi.mem_done hr, hj⟩

theorem Invariant.nodup_found (hi : Invariant next root done state) : state.found.Nodup := by
  have hd := hi.distinct
  rw [hi.visited_eq] at hd
  exact (nodup_cons.mp hd).2

variable {all : List α}

theorem Invariant.bounded (hw : ∀ item, Leads next root item → item ∈ all)
    (hi : Invariant next root done state) : state.stack.length + done.length ≤ all.length := by
  rw [← length_append]
  refine ((hi.split.nodup_iff.mpr hi.distinct).subperm ?_).length_le
  exact fun item mem => hw item (hi.reached item (hi.split.mem_iff.mp mem))

variable [DecidableEq α] {fuel : Nat}

/-- In a tree the search finds what the root leads to, each once; otherwise it meets an item again. -/
theorem run_spec (hw : ∀ item, Leads next root item → item ∈ all)
    (hi : Invariant next root done state) (he : all.length ≤ fuel + done.length) :
    (Tree next root ∧ ∃ found, run next fuel state = some (some found) ∧ found.Nodup ∧
        ∀ item, item ∈ found ↔ TransGen (fun first second => second ∈ next first) root item) ∨
      (¬ Tree next root ∧ run next fuel state = some none) := by
  induction fuel generalizing state done with
  | zero =>
    obtain ⟨stack, visited, found⟩ := state
    cases stack with
    | nil => exact .inl ⟨hi.tree, found, rfl, hi.nodup_found, fun _ => hi.found_iff⟩
    | cons item stack =>
      have hb := hi.bounded hw
      rw [length_cons] at hb
      omega
  | succ fuel ih =>
    obtain ⟨stack, visited, found⟩ := state
    cases stack with
    | nil => exact .inl ⟨hi.tree, found, rfl, hi.nodup_found, fun _ => hi.found_iff⟩
    | cons item stack =>
      rw [run]
      by_cases hf : (visited ++ next item).Nodup
      · rw [foldlM_offer ⟨stack, visited, found⟩ hf]
        exact ih (hi.advance hf) (by rw [length_append, length_singleton]; omega)
      · rw [foldlM_offer_again ⟨stack, visited, found⟩ hi.distinct hf]
        exact .inr ⟨fun tree => hf (hi.fresh tree), rfl⟩

theorem search_exact_iff (hw : ∀ item, Leads next root item → item ∈ all) (he : all.length ≤ fuel) :
    (∃ found, search next fuel root = some found ∧ found.Nodup ∧
        ∀ item, item ∈ found ↔ TransGen (fun first second => second ∈ next first) root item) ↔ Tree next root := by
  rcases run_spec hw (start_invariant next root) he with
    ⟨tree, found, hc, hr⟩ | ⟨hn, hc⟩
  · exact iff_of_true ⟨found, by rw [search, hc]; rfl, hr⟩ tree
  · refine ⟨?_, fun tree => absurd tree hn⟩
    rintro ⟨found, hs, _, hb⟩
    rw [search, hc] at hs
    cases hs
    have none (item : α) : item ∉ next root := fun hj => by
      have mem := (hb item).mpr (.single hj)
      simp at mem
    have only {item : α} (hl : Leads next root item) : item = root := by
      rcases ReflTransGen.cases_head hl with same | ⟨first, hj, _⟩
      · exact same.symm
      · exact absurd hj (none first)
    refine ⟨fun item hl => only hl ▸ none root, fun item hl => ?_, fun item other left hi ha => ?_⟩
    · rw [only hl, eq_nil_iff_forall_not_mem.mpr none]
      exact nodup_nil
    · exact absurd ((only left).trans (only hi).symm) ha

end

section

variable [DecidableEq α] {ε : Type}

def successors (edges : List ε) (source target : ε → α) (item : α) : List α :=
  (edges.filter fun edge => source edge = item).map target

variable {edges : List ε} {source target : ε → α} {root : α}

theorem mem_successors {item other : α} :
    other ∈ successors edges source target item ↔ ∃ edge ∈ edges, source edge = item ∧ target edge = other := by
  simp [successors, and_assoc]

/-- Without edges back to the root, the successors form a tree when no two of the edges lead to the same item. -/
theorem tree_iff_pairwise (edges : List ε) (source target : ε → α)
    (hb : ∀ item, Leads (successors edges source target) root item → root ∉ successors edges source target item) :
    Tree (successors edges source target) root ↔ edges.Pairwise fun first second =>
      Leads (successors edges source target) root (source first) →
      Leads (successors edges source target) root (source second) → target first ≠ target second := by
  constructor
  · intro tree
    rw [pairwise_iff_forall_sublist]
    intro first second hc left hi same
    by_cases ht : source first = source second
    · have pair : [target first, target second].Sublist (successors edges source target (source first)) := by
        have kept := hc.filter fun edge => decide (source edge = source first)
        simp only [filter_cons, ht, decide_true, if_true, filter_nil] at kept
        rw [← ht] at kept
        exact kept.map target
      have hg := (tree.single _ left).sublist pair
      simp [same] at hg
    · refine tree.disjoint _ _ left hi ht (a := target first) ?_ ?_
      · exact mem_successors.mpr ⟨first, hc.subset (by simp), rfl, rfl⟩
      · exact mem_successors.mpr ⟨second, hc.subset (by simp), rfl, same.symm⟩
  · intro ha
    refine ⟨hb, fun item hl => ?_, fun item other left hi hd => ?_⟩
    · rw [List.Nodup, successors, pairwise_map]
      refine (ha.filter _).imp_of_mem ?_
      intro first second hf hk hu
      simp only [mem_filter, decide_eq_true_eq] at hf hk
      exact hu (hf.2 ▸ hl) (hk.2 ▸ hl)
    · intro common here hh
      obtain ⟨first, hf, rfl, hr⟩ := mem_successors.mp here
      obtain ⟨second, hk, rfl, same⟩ := mem_successors.mp hh
      have hs : Std.Symm fun first second : ε => Leads (successors edges source target) root (source first) →
          Leads (successors edges source target) root (source second) → target first ≠ target second :=
        ⟨fun _ _ hu left hi => (hu hi left).symm⟩
      have hu : first ≠ second := fun he => hd (congrArg source he)
      exact ha.forall hf hk hu left hi (hr.trans same.symm)

end

end StackSearch
