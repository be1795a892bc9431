import Veloxide.Library.Digraph

namespace DepthFirst

open List Function

inductive Color
  | unvisited
  | inProgress
  | done
deriving DecidableEq

/-- The colours of the nodes, and the nodes in progress in the order in which they were entered. -/
structure Search (α : Type) where
  color : α → Color
  path : List α

def Search.start {α : Type} : Search α := ⟨fun _ => .unvisited, []⟩

section

variable {α : Type}

/-- Visits nodes up to the first that reports a cycle; `none` when a visit runs out of fuel. -/
def explore (visit : α → Search α → Option (Option (List α) × Search α)) :
    List α → Search α → Option (Option (List α) × Search α)
  | [], search => some (none, search)
  | node :: nodes, search =>
    match visit node search with
    | none => none
    | some (some cycle, after) => some (some cycle, after)
    | some (none, after) => explore visit nodes after

variable [DecidableEq α] (next : α → List α) (report : List α → α → Option (List α))

def visit : Nat → α → Search α → Option (Option (List α) × Search α)
  | 0, _, _ => none
  | fuel + 1, current, search =>
    match search.color current with
    | .inProgress => some (report search.path current, search)
    | .done => some (none, search)
    | .unvisited =>
      match explore (visit fuel) (next current)
          ⟨update search.color current .inProgress, search.path ++ [current]⟩ with
      | none => none
      | some (some cycle, after) => some (some cycle, after)
      | some (none, after) => some (none, ⟨update after.color current .done, after.path.dropLast⟩)

/-- Starts a search from a node that no search has entered, on the path that `base` gives. -/
def visitRoot (base : List α → List α) (fuel : Nat) (root : α) (search : Search α) :
    Option (Option (List α) × Search α) :=
  if search.color root = .unvisited then visit next report fuel root ⟨search.color, base search.path⟩
  else some (none, search)

end

section

variable {α : Type} {next : α → List α}

def Edge (next : α → List α) (node other : α) : Prop := other ∈ next node

structure WellFormed (next : α → List α) (search : Search α) : Prop where
  mem_path : ∀ node, search.color node = .inProgress ↔ node ∈ search.path
  nodup : search.path.Nodup
  chain : search.path.IsChain (Edge next)
  done : ∀ node, search.color node = .done → Acc (Function.swap (Edge next)) node

structure Advances (before after : Search α) : Prop where
  path : after.path = before.path
  done : ∀ node, before.color node = .done → after.color node = .done

theorem wellFormed_start : WellFormed next Search.start where
  mem_path node := by simp [Search.start]
  nodup := nodup_nil
  chain := isChain_nil
  done node impossible := by simp [Search.start] at impossible

theorem Advances.refl (search : Search α) : Advances search search := ⟨rfl, fun _ done => done⟩

theorem Advances.trans {first second third : Search α} (left : Advances first second)
    (hr : Advances second third) : Advances first third :=
  ⟨hr.path.trans left.path, fun node done => hr.done node (left.done node done)⟩

def Leads (next : α → List α) (path : List α) (node : α) : Prop := (path ++ [node]).IsChain (Edge next)

structure Closes (next : α → List α) (path : List α) (node : α) : Prop where
  nodup : path.Nodup
  mem : node ∈ path
  leads : Leads next path node

def Sound (next : α → List α) (report : List α → α → Option (List α)) (before : Search α) (nodes : List α) :
    Option (List α) × Search α → Prop
  | (none, after) => WellFormed next after ∧ Advances before after ∧ ∀ node ∈ nodes, after.color node = .done
  | (some cycle, _) => ∃ path node, Closes next path node ∧ report path node = some cycle

variable {report : List α → α → Option (List α)} {search : Search α}

theorem explore_sound {visit : α → Search α → Option (Option (List α) × Search α)} {nodes : List α}
    {result : Option (List α) × Search α}
    (hb : ∀ node other result, other.path = search.path → WellFormed next other → Leads next other.path node →
      visit node other = some result → Sound next report other [node] result)
    (hr : WellFormed next search) (he : ∀ node ∈ nodes, Leads next search.path node)
    (ran : explore visit nodes search = some result) : Sound next report search nodes result := by
  induction nodes generalizing search with
  | nil =>
    cases ran
    exact ⟨hr, Advances.refl search, nofun⟩
  | cons node nodes ih =>
    rw [explore] at ran
    cases hv : visit node search with
    | none =>
      rw [hv] at ran
      cases ran
    | some first =>
      obtain ⟨found, after⟩ := first
      have ho := hb node search _ rfl hr (he node mem_cons_self) hv
      rw [hv] at ran
      cases found with
      | some cycle =>
        cases ran
        exact ho
      | none =>
        obtain ⟨hf, hc, hd⟩ := ho
        have hl : ∀ other ∈ nodes, Leads next after.path other := by
          intro other mem
          rw [hc.path]
          exact he other (mem_cons_of_mem node mem)
        have hs := fun node other result (same : other.path = after.path) =>
          hb node other result (same.trans hc.path)
        have rest := ih hs hf hl ran
        obtain ⟨found, final⟩ := result
        cases found with
        | some cycle => exact rest
        | none =>
          obtain ⟨hg, ha, hi⟩ := rest
          refine ⟨hg, hc.trans ha, fun other mem => ?_⟩
          rcases mem_cons.mp mem with same | later
          · rw [same]
            exact ha.done node (hd node mem_cons_self)
          · exact hi other later

variable [DecidableEq α] {node : α}

theorem WellFormed.enter (hf : WellFormed next search) (hr : search.color node = .unvisited)
    (hl : Leads next search.path node) :
    WellFormed next ⟨update search.color node .inProgress, search.path ++ [node]⟩ := by
  have ha : node ∉ search.path := by
    intro mem
    rw [(hf.mem_path node).mpr mem] at hr
    cases hr
  refine ⟨fun other => ?_, ?_, hl, fun other hi => ?_⟩
  · by_cases same : other = node
    · simp [same]
    · simp [same, hf.mem_path other]
  · rw [nodup_append]
    refine ⟨hf.nodup, nodup_singleton node, fun left mem right only => ?_⟩
    intro same
    rw [mem_singleton.mp only] at same
    rw [same] at mem
    exact ha mem
  · by_cases same : other = node
    · simp [same] at hi
    · have hb : search.color other = .done := by simpa [same] using hi
      exact hf.done other hb

variable {path : List α}

theorem WellFormed.leave (ho : WellFormed next search) (he : search.path = path ++ [node])
    (hf : ∀ other ∈ next node, search.color other = .done) :
    WellFormed next ⟨update search.color node .done, search.path.dropLast⟩ := by
  have hn := ho.nodup
  have hc := ho.chain
  rw [he] at hn hc
  rw [he, dropLast_concat]
  refine ⟨fun other => ?_, (nodup_append.mp hn).1, (isChain_append.mp hc).1, fun other hi => ?_⟩
  · by_cases same : other = node
    · have ha : node ∉ path := fun mem => (nodup_append.mp hn).2.2 node mem node (by simp) rfl
      simp [same, ha]
    · simp [same, ho.mem_path other, he]
  · by_cases same : other = node
    · rw [same]
      exact ⟨node, fun below hj => ho.done below (hf below hj)⟩
    · have hb : search.color other = .done := by simpa [same] using hi
      exact ho.done other hb

theorem visit_sound (hb : ∀ path node, node ∈ path → (report path node).isSome) (fuel : Nat) :
    ∀ node search result, WellFormed next search → Leads next search.path node →
      visit next report fuel node search = some result → Sound next report search [node] result := by
  induction fuel with
  | zero =>
    intro node search result _ _ ran
    cases ran
  | succ fuel ih =>
    intro node search result hd hg ran
    rw [visit] at ran
    cases hc : search.color node with
    | inProgress =>
      have mem := (hd.mem_path node).mp hc
      obtain ⟨cycle, hr⟩ := Option.isSome_iff_exists.mp (hb search.path node mem)
      rw [hc] at ran
      simp only [hr, Option.some.injEq] at ran
      subst ran
      exact ⟨search.path, node, ⟨hd.nodup, mem, hg⟩, hr⟩
    | done =>
      rw [hc] at ran
      cases ran
      refine ⟨hd, Advances.refl search, fun other mem => ?_⟩
      rw [mem_singleton.mp mem]
      exact hc
    | unvisited =>
      have hn := hd.enter hc hg
      have hl : ∀ other ∈ next node, Leads next (search.path ++ [node]) other := by
        intro other mem
        rw [Leads, isChain_append]
        refine ⟨hg, isChain_singleton other, fun last hs first hi => ?_⟩
        simp only [getLast?_concat, Option.mem_def, Option.some.injEq] at hs
        simp only [head?_cons, Option.mem_def, Option.some.injEq] at hi
        subst hs hi
        exact mem
      rw [hc] at ran
      cases he : explore (visit next report fuel) (next node)
          ⟨update search.color node .inProgress, search.path ++ [node]⟩ with
      | none =>
        simp only [he] at ran
        cases ran
      | some inner =>
        obtain ⟨found, after⟩ := inner
        have ho := explore_sound (fun node other result _ => ih node other result) hn hl he
        simp only [he] at ran
        cases found with
        | some cycle =>
          cases ran
          exact ho
        | none =>
          cases ran
          obtain ⟨hf, ha, hk⟩ := ho
          refine ⟨hf.leave ha.path hk, ⟨?_, fun other hisD => ?_⟩, fun other mem => ?_⟩
          · simp [ha.path]
          · by_cases same : other = node
            · simp [same]
            · have kept := ha.done other (by simpa [same] using hisD)
              simp [same, kept]
          · simp [mem_singleton.mp mem]

theorem Closes.circuit (hc : Closes next path node) : ∃ rest, (path.idxOf? node).map path.drop = some (node :: rest) ∧
    (node :: (rest ++ [node])).IsChain (Edge next) := by
  obtain ⟨hn, mem, hl⟩ := hc
  obtain ⟨before, rest, hs⟩ := append_of_mem mem
  subst hs
  have ha : node ∉ before := fun he => (nodup_append.mp hn).2.2 node he node (by simp) rfl
  have hp : (before ++ node :: rest).idxOf? node = some before.length := by
    have hb : before.findIdx? (· == node) = none := by
      rw [findIdx?_eq_none_iff]
      intro other mem
      have hd : other ≠ node := by
        intro same
        rw [same] at mem
        exact ha mem
      simp [hd]
    rw [List.idxOf?, findIdx?_append, hb]
    simp [findIdx?_cons]
  refine ⟨rest, ?_, ?_⟩
  · rw [hp, Option.map_some, drop_left]
  · rw [Leads, append_assoc] at hl
    exact (isChain_append.mp hl).2.1

theorem Closes.closed_walk (hc : Closes next path node) :
    ∃ rest, ((path.idxOf? node).map fun start => path.drop start ++ [node]) = some (node :: (rest ++ [node])) ∧
      (node :: (rest ++ [node])).IsChain (Edge next) := by
  obtain ⟨rest, hd, hh⟩ := hc.circuit
  obtain ⟨start, hp, hs⟩ := Option.map_eq_some_iff.mp hd
  refine ⟨rest, ?_, hh⟩
  rw [hp, Option.map_some, hs]
  rfl

end

section

variable {α : Type} {next : α → List α} {report : List α → α → Option (List α)} {nodes : List α}
  {search : Search α}

theorem explore_unvisited {visit : α → Search α → Option (Option (List α) × Search α)}
    (hf : ∀ node search found after, visit node search = some (found, after) → ∀ other, after.color other =
      .unvisited → search.color other = .unvisited)
    {after : Search α} {found : Option (List α)} (ran : explore visit nodes search = some (found, after))
    (other : α) (hs : after.color other = .unvisited) : search.color other = .unvisited := by
  induction nodes generalizing search with
  | nil =>
    cases ran
    exact hs
  | cons node nodes ih =>
    rw [explore] at ran
    cases hv : visit node search with
    | none =>
      rw [hv] at ran
      cases ran
    | some first =>
      obtain ⟨cycle, middle⟩ := first
      rw [hv] at ran
      cases cycle with
      | some cycle =>
        cases ran
        exact hf node search _ _ hv other hs
      | none => exact hf node search _ _ hv other (ih ran)

def remaining (nodes : List α) (search : Search α) : Nat := nodes.countP fun node => search.color node = .unvisited

theorem explore_terminates {visit : α → Search α → Option (Option (List α) × Search α)} {fuel : Nat}
    (hf : ∀ node search found after, visit node search = some (found, after) → ∀ other, after.color other =
      .unvisited → search.color other = .unvisited)
    (ht : ∀ node ∈ nodes, ∀ search, remaining nodes search < fuel → (visit node search).isSome)
    {pending : List α} (hw : ∀ node ∈ pending, node ∈ nodes) (he : remaining nodes search < fuel) :
    (explore visit pending search).isSome := by
  induction pending generalizing search with
  | nil => rfl
  | cons node pending ih =>
    have hi := ht node (hw node mem_cons_self) search he
    rw [explore]
    cases hv : visit node search with
    | none =>
      rw [hv] at hi
      cases hi
    | some out =>
      obtain ⟨found, after⟩ := out
      cases found with
      | some cycle => rfl
      | none =>
        have ha : remaining nodes after ≤ remaining nodes search := by
          apply countP_mono_left
          intro other _ hs
          have hb := hf node search _ _ hv other (by simpa using hs)
          simp [hb]
        exact ih (fun other mem => hw other (mem_cons_of_mem node mem))
          (Nat.lt_of_le_of_lt ha he)

variable [DecidableEq α]

theorem visit_unvisited (fuel : Nat) : ∀ node search found after,
    visit next report fuel node search = some (found, after) →
      ∀ other, after.color other = .unvisited → search.color other = .unvisited := by
  induction fuel with
  | zero =>
    intro node search found after ran
    cases ran
  | succ fuel ih =>
    intro node search found after ran other hs
    rw [visit] at ran
    cases hc : search.color node with
    | inProgress | done =>
      rw [hc] at ran
      cases ran
      exact hs
    | unvisited =>
      rw [hc] at ran
      cases he : explore (visit next report fuel) (next node)
          ⟨update search.color node .inProgress, search.path ++ [node]⟩ with
      | none =>
        simp only [he] at ran
        cases ran
      | some inner =>
        obtain ⟨cycle, middle⟩ := inner
        have hf := explore_unvisited ih he other
        by_cases same : other = node
        · rw [same]
          exact hc
        · simp only [he] at ran
          cases cycle with
          | some cycle =>
            cases ran
            simpa [same] using hf hs
          | none =>
            cases ran
            simpa [same] using hf (by simpa [same] using hs)

theorem remaining_enter {node : α} (mem : node ∈ nodes) (hf : search.color node = .unvisited) (path : List α) :
    remaining nodes ⟨update search.color node .inProgress, path⟩ < remaining nodes search := by
  obtain ⟨before, after, hs⟩ := append_of_mem mem
  have he : ∀ part : List α, remaining part ⟨update search.color node .inProgress, path⟩ ≤ remaining part search := by
    intro part
    apply countP_mono_left
    intro other _ ht
    by_cases same : other = node
    · simp [same] at ht
    · simpa [same] using ht
  have left := he before
  have hr := he after
  simp only [remaining] at left hr
  simp only [remaining, hs, countP_append, countP_cons, update_self, hf, decide_true,
    ↓reduceIte, reduceCtorEq, decide_false]
  omega

theorem visit_terminates (hc : ∀ node ∈ nodes, ∀ other ∈ next node, other ∈ nodes) (fuel : Nat) :
    ∀ node ∈ nodes, ∀ search, remaining nodes search < fuel → (visit next report fuel node search).isSome := by
  induction fuel with
  | zero =>
    intro node _ search hn
    omega
  | succ fuel ih =>
    intro node mem search hn
    rw [visit]
    cases ho : search.color node with
    | inProgress | done => rfl
    | unvisited =>
      have less := remaining_enter mem ho (search.path ++ [node])
      have he := explore_terminates (visit_unvisited fuel) ih (hc node mem)
        (Nat.lt_of_lt_of_le less (Nat.le_of_lt_succ hn))
      cases ran : explore (visit next report fuel) (next node)
          ⟨update search.color node .inProgress, search.path ++ [node]⟩ with
      | none =>
        rw [ran] at he
        cases he
      | some out =>
        obtain ⟨found, after⟩ := out
        cases found <;> rfl

section

variable {base : List α → List α} {fuel : Nat}

theorem visitRoot_sound (hr : ∀ path node, node ∈ path → (report path node).isSome) (he : base [] = [])
    {root : α} {search : Search α} {result : Option (List α) × Search α} (ho : search.path = [])
    (hf : WellFormed next search) (ran : visitRoot next report base fuel root search = some result) :
    Sound next report search [root] result := by
  rw [visitRoot] at ran
  split_ifs at ran with fresh
  · have hu : (⟨search.color, base search.path⟩ : Search α) = search := by rw [ho, he, ← ho]
    have hl : Leads next search.path root := by
      rw [ho]
      exact isChain_singleton root
    rw [hu] at ran
    exact visit_sound hr fuel root search result hf hl ran
  · cases ran
    refine ⟨hf, Advances.refl search, fun node mem => ?_⟩
    rw [mem_singleton.mp mem]
    cases hc : search.color root with
    | unvisited => exact absurd hc fresh
    | inProgress =>
      have mem := (hf.mem_path root).mp hc
      rw [ho] at mem
      cases mem
    | done => rfl

theorem visitRoot_unvisited (root : α) (search : Search α) (found : Option (List α)) (after : Search α)
    (ran : visitRoot next report base fuel root search = some (found, after)) (other : α)
    (hs : after.color other = .unvisited) : search.color other = .unvisited := by
  rw [visitRoot] at ran
  split_ifs at ran
  · exact visit_unvisited fuel root _ _ _ ran other hs
  · cases ran
    exact hs

theorem visitRoot_terminates {nodes : List α} (hc : ∀ node ∈ nodes, ∀ other ∈ next node, other ∈ nodes)
    (root : α) (mem : root ∈ nodes) (search : Search α) (he : remaining nodes search < fuel) :
    (visitRoot next report base fuel root search).isSome := by
  rw [visitRoot]
  split_ifs
  · exact visit_terminates hc fuel root mem _ he
  · rfl

theorem visitRoots_spec {nodes : List α} (hc : ∀ node ∈ nodes, ∀ other ∈ next node, other ∈ nodes)
    (hr : ∀ path node, node ∈ path → (report path node).isSome) (hm : base [] = []) :
    ∃ found after, explore (visitRoot next report base (nodes.length + 1)) nodes .start = some (found, after) ∧
      match found with
      | none => ∀ node ∈ nodes, Acc (Function.swap (Edge next)) node
      | some cycle => ∃ path node, Closes next path node ∧ report path node = some cycle := by
  have he : remaining nodes Search.start < nodes.length + 1 := Nat.lt_succ_of_le countP_le_length
  have ends : (explore (visitRoot next report base (nodes.length + 1)) nodes .start).isSome :=
    explore_terminates visitRoot_unvisited (visitRoot_terminates hc) (fun _ mem => mem) he
  obtain ⟨⟨found, after⟩, ran⟩ := Option.isSome_iff_exists.mp ends
  have hl : ∀ node ∈ nodes, Leads next Search.start.path node := fun node _ => isChain_singleton node
  have hs : Sound next report .start nodes (found, after) :=
    explore_sound (fun _ _ _ ho hf _ => visitRoot_sound hr hm ho hf) wellFormed_start
      hl ran
  refine ⟨found, after, ran, ?_⟩
  cases found with
  | some cycle => exact hs
  | none =>
    intro node mem
    exact hs.1.done node (hs.2.2 node mem)

/-- Where all edges join the nodes searched, a search that reports nothing shows that there is no cycle. -/
theorem visitRoots_acyclic {nodes : List α} (hw : ∀ node other, Edge next node other → node ∈ nodes ∧ other ∈ nodes)
    (hr : ∀ path node, node ∈ path → (report path node).isSome) (he : base [] = []) :
    ∃ found after, explore (visitRoot next report base (nodes.length + 1)) nodes .start = some (found, after) ∧
      match found with
      | none => Digraph.Acyclic (Edge next)
      | some cycle => ∃ path node, Closes next path node ∧ report path node = some cycle := by
  obtain ⟨found, after, ran, spec⟩ := visitRoots_spec (fun node _ other hj => (hw node other hj).2) hr he
  refine ⟨found, after, ran, ?_⟩
  cases found with
  | some cycle => exact spec
  | none => exact Digraph.acyclic_of_acc fun node other hj => spec node (hw node other hj).1

end

end

end DepthFirst
