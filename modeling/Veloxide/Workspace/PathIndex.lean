import Veloxide.Workspace.Hierarchy

namespace Veloxide.Workspace

open List

namespace WorkspaceIndex

def label (index : WorkspaceIndex) (id : WorkspaceId) : Option WorkspaceName := index.nodes[id]?.map WorkspaceNode.name

def PathOf (index : WorkspaceIndex) (id : WorkspaceId) (segments : List WorkspaceName) : Prop :=
  ∃ chain, Forest.Chain index.above id chain ∧ index.names chain = segments

def Exact (index : WorkspaceIndex) : Prop := ∀ path id, index.findByPath path = .ok id ↔ index.PathOf id path.segments

def Shallow (index : WorkspaceIndex) : Prop := ∀ id segments, index.PathOf id segments → segments.length ≤ maxDepth

inductive SlotPath (index : WorkspaceIndex) : Option WorkspaceId → List WorkspaceName → Prop
  | roots : SlotPath index none []
  | below {id : WorkspaceId} {segments : List WorkspaceName} (path : index.PathOf id segments) :
      SlotPath index (some id) segments

section

variable {index other : WorkspaceIndex} {id : WorkspaceId} {segments : List WorkspaceName} {path : WorkspacePath}

theorem findByPath_eq_ok : index.findByPath path = .ok id ↔ index.pathIndex[path]? = some id := by
  unfold findByPath
  cases index.pathIndex[path]? with
  | none | some found => simp

theorem PathOf.unique {second : List WorkspaceName} (left : index.PathOf id segments) (right : index.PathOf id second) :
    segments = second := by
  obtain ⟨chain, hl, rfl⟩ := left
  obtain ⟨other, also, rfl⟩ := right
  rw [hl.unique also]

theorem PathOf.isSome (hl : index.PathOf id segments) : (index.above id).isSome := by
  obtain ⟨chain, hl, _⟩ := hl
  exact hl.isSome

theorem names_congr {chain : List WorkspaceId} (same : ∀ member ∈ chain, other.label member = index.label member) :
    other.names chain = index.names chain :=
  filterMap_congr same

theorem pathOf_append {name : WorkspaceName} : index.PathOf id (segments ++ [name]) ↔
    ∃ slot, index.above id = some slot ∧ index.SlotPath slot segments ∧ index.label id = some name := by
  constructor
  · rintro ⟨chain, hb, same⟩
    cases hb with
    | root top =>
      obtain ⟨node, held, _⟩ := above_eq_some.mp top
      rw [names_singleton held] at same
      obtain ⟨rfl, he⟩ := append_inj' (show [] ++ [node.name] = segments ++ [name] from same) rfl
      refine ⟨none, top, .roots, ?_⟩
      rw [label, held, ← singleton_inj.mp he]
      rfl
    | child hl rest =>
      obtain ⟨node, held, _⟩ := above_eq_some.mp hl
      rw [names_append, names_singleton held] at same
      obtain ⟨ha, he⟩ := append_inj' same rfl
      refine ⟨_, hl, .below ⟨_, rest, ha⟩, ?_⟩
      rw [label, held, ← singleton_inj.mp he]
      rfl
  · rintro ⟨slot, hp, way, hn⟩
    obtain ⟨node, held, rfl⟩ := Option.map_eq_some_iff.mp hn
    cases way with
    | roots => exact ⟨[id], .root hp, names_singleton held⟩
    | below way =>
      obtain ⟨chain, hb, rfl⟩ := way
      exact ⟨chain ++ [id], .child hp hb, by rw [names_append, names_singleton held]⟩

theorem PathOf.ne_nil (hl : index.PathOf id segments) : segments ≠ [] := by
  obtain ⟨chain, hl, rfl⟩ := hl
  obtain ⟨node, held⟩ := isSome_above.mp hl.isSome
  cases hl with
  | root _ => simp [names_singleton held]
  | child _ _ => simp [names_append, names_singleton held]

theorem PathOf.initial {first : List WorkspaceName} (hl : index.PathOf id segments) (hb : first <+: segments)
    (hn : first ≠ []) : ∃ base, index.PathOf base first := by
  obtain ⟨chain, hl, same⟩ := hl
  obtain ⟨rest, rfl⟩ := hb
  obtain ⟨left, right, rfl, hc, _⟩ := filterMap_eq_append_iff.mp same
  have some : left ≠ [] := by
    rintro rfl
    exact hn hc.symm
  obtain ⟨base, ha⟩ := hl.initial some
  exact ⟨base, left, ha, hc⟩

theorem WellFormed.computePath_eq_ok (hf : index.WellFormed) :
    index.computePath id = .ok path ↔ index.PathOf id path.segments := by
  constructor
  · intro hc
    cases held : index.nodes[id]? with
    | none =>
      rw [computePath_none held] at hc
      cases hc
    | some node =>
      obtain ⟨chain, hl⟩ := hf.consistent.rooted id (isSome_above.mpr ⟨node, held⟩)
      rw [computePath_chain hl] at hc
      exact ⟨chain, hl, (WorkspacePath.new_eq_ok.mp hc).symm⟩
  · rintro ⟨chain, hl, same⟩
    rw [computePath_chain hl]
    exact WorkspacePath.new_eq_ok.mpr same.symm

theorem WellFormed.exists_pathOf (hf : index.WellFormed) (held : (index.above id).isSome) :
    ∃ segments, index.PathOf id segments := by
  obtain ⟨chain, hl⟩ := hf.consistent.rooted id held
  exact ⟨_, chain, hl, rfl⟩

theorem PathOf.congr (hl : index.PathOf id segments) (same : ∀ hm, Forest.Within index.above hm id →
    other.above hm = index.above hm ∧ other.label hm = index.label hm) : other.PathOf id segments := by
  obtain ⟨chain, hl, rfl⟩ := hl
  have hi (hm : WorkspaceId) (on : hm ∈ chain) := same hm ((hl.mem_iff hm).mp on)
  exact ⟨chain, hl.congr fun hm on => (hi hm on).1, names_congr fun hm on => (hi hm on).2⟩

theorem Exact.pathOf_unique (exact : index.Exact) (hs : index.Shallow) {second : WorkspaceId}
    (left : index.PathOf id segments) (right : index.PathOf second segments) : id = second := by
  have first := (exact ⟨segments, hs id segments left⟩ id).mpr left
  have also := (exact ⟨segments, hs id segments left⟩ second).mpr right
  exact Except.ok.inj (first.symm.trans also)

theorem Exact.slotPath_unique (exact : index.Exact) (hs : index.Shallow) {first second : Option WorkspaceId}
    (left : index.SlotPath first segments) (right : index.SlotPath second segments) : first = second := by
  cases left with
  | roots =>
    cases right with
    | roots => rfl
    | below path => exact absurd rfl path.ne_nil
  | below path =>
    cases right with
    | roots => exact absurd rfl path.ne_nil
    | below also => rw [exact.pathOf_unique hs path also]

end

variable (now : TimestampMs)

section

variable (index : WorkspaceIndex) (slot : Option WorkspaceId) (id : WorkspaceId)

theorem label_modify {change : WorkspaceNode → WorkspaceNode} (kept : ∀ node, (change node).name = node.name) :
    label { index with nodes := index.nodes.modify id change } = index.label := by
  funext other
  simp only [label, OrderedStore.get_modify]
  split_ifs
  · rw [Option.map_map]
    exact congrFun (congrArg _ (funext kept)) _
  · rfl

theorem label_appendChild : (index.appendChild slot id).label = index.label := by
  cases slot with
  | none => rfl
  | some parent => exact label_modify index parent fun _ => rfl

theorem label_retainChild : (index.retainChild slot id).label = index.label := by
  cases slot with
  | none => rfl
  | some parent => exact label_modify index parent fun _ => rfl

theorem label_relinked (node : WorkspaceNode) (now : TimestampMs) :
    (index.relinked id node slot now).label = index.label := by
  have hn : (index.relinked id node slot now).label =
      ((index.retainChild node.parentId id).appendChild slot id).label := label_modify _ id fun _ => rfl
  rw [hn, label_appendChild, label_retainChild]

theorem label_store {node : WorkspaceNode} {pathIndex : OrderedStore.Store WorkspacePath WorkspaceId} :
    label { index with nodes := index.nodes.insert id node, pathIndex } =
      Function.update index.label id (some node.name) := by
  funext other
  simp only [label, OrderedStore.get_insert, Function.update_apply, eq_comm]
  split_ifs
  · rfl
  · rfl

theorem label_removeNodes (ids : List WorkspaceId) :
    (index.removeNodes ids).label = fun other => if other ∈ ids then none else index.label other := by
  funext other
  rw [label, get_removeNodes]
  split_ifs
  · rfl
  · rfl

theorem pathIndex_appendChild : (index.appendChild slot id).pathIndex = index.pathIndex := by
  cases slot with
  | none | some parent => rfl

theorem pathIndex_retainChild : (index.retainChild slot id).pathIndex = index.pathIndex := by
  cases slot with
  | none | some parent => rfl

end

variable {index other : WorkspaceIndex}

theorem Exact.congr (exact : index.Exact) (hi : other.above = index.above)
    (hl : other.label = index.label) (paths : other.pathIndex = index.pathIndex) : other.Exact := by
  intro path id
  rw [findByPath_eq_ok, paths, ← findByPath_eq_ok, exact path id]
  constructor
  · intro he
    exact he.congr fun member _ => ⟨congrFun hi member, congrFun hl member⟩
  · intro he
    exact he.congr fun member _ => ⟨(congrFun hi member).symm, (congrFun hl member).symm⟩

theorem Shallow.congr (hs : index.Shallow) (hi : other.above = index.above)
    (hl : other.label = index.label) : other.Shallow := by
  intro id segments he
  refine hs id segments (he.congr fun member _ => ?_)
  exact ⟨(congrFun hi member).symm, (congrFun hl member).symm⟩

section

variable {index : WorkspaceIndex} {parent : Option WorkspaceId} {name : WorkspaceName}
  {data : WorkspaceMetadata} {path : WorkspacePath} {id : WorkspaceId}

theorem WellFormed.slotPath (hf : index.WellFormed) {segments : List WorkspaceName}
    (hc : index.slotSegments parent name segments) :
    ∃ above, segments = above ++ [name] ∧ index.SlotPath parent above := by
  cases parent with
  | none => exact ⟨[], hc, .roots⟩
  | some parent =>
    obtain ⟨parentPath, ho, same⟩ := hc
    exact ⟨_, same, .below (hf.computePath_eq_ok.mp ho)⟩

theorem above_inserted : (index.inserted parent name data now id path).above =
    Function.update index.above id (some parent) := by
  show (appendChild _ parent id).above = _
  rw [above_appendChild, above_store, (newNode_fields id name data now parent).1]

theorem label_inserted : (index.inserted parent name data now id path).label =
    Function.update index.label id (some name) := by
  show (appendChild _ parent id).label = _
  rw [label_appendChild, label_store, (newNode_fields id name data now parent).2.2]

theorem pathIndex_inserted : (index.inserted parent name data now id path).pathIndex =
    index.pathIndex.insert path id := by
  show (appendChild _ parent id).pathIndex = _
  rw [pathIndex_appendChild]

theorem pathOf_inserted (hf : index.WellFormed) (hr : index.nodes[id]? = none)
    (hp : index.insertPath parent name data = .ok path) (now : TimestampMs) (other : WorkspaceId)
    (segments : List WorkspaceName) : (index.inserted parent name data now id path).PathOf other segments ↔
      other = id ∧ segments = path.segments ∨ other ≠ id ∧ index.PathOf other segments := by
  obtain ⟨free, hc, _⟩ := insertPath_ok hp
  obtain ⟨above, same, way⟩ := hf.slotPath hc
  have kept {other : WorkspaceId} {segments : List WorkspaceName} (hl : index.PathOf other segments) :
      (index.inserted parent name data now id path).PathOf other segments := by
    obtain ⟨chain, hl, rfl⟩ := hl
    have ha (hm : WorkspaceId) (on : hm ∈ chain) : hm ≠ id := by
      rintro rfl
      obtain ⟨node, held⟩ := isSome_above.mp (hl.isSome_of_mem on)
      cases hr.symm.trans held
    refine ⟨chain, hl.congr fun hm on => ?_, names_congr fun hm on => ?_⟩
    · rw [above_inserted, Function.update_of_ne (ha hm on)]
    · rw [label_inserted, Function.update_of_ne (ha hm on)]
  have new : (index.inserted parent name data now id path).PathOf id path.segments := by
    rw [same, pathOf_append]
    refine ⟨parent, ?_, ?_, ?_⟩
    · rw [above_inserted, Function.update_self]
    · cases way with
      | roots => exact .roots
      | below hl => exact .below (kept hl)
    · rw [label_inserted, Function.update_self]
  constructor
  · intro hl
    by_cases here : other = id
    · subst here
      exact .inl ⟨rfl, hl.unique new⟩
    · have held := hl.isSome
      rw [above_inserted, Function.update_of_ne here] at held
      obtain ⟨old, hb⟩ := hf.exists_pathOf held
      rw [hl.unique (kept hb)]
      exact .inr ⟨here, hb⟩
  · rintro (⟨rfl, rfl⟩ | ⟨_, hl⟩)
    · exact new
    · exact kept hl

theorem Exact.inserted (exact : index.Exact) (hf : index.WellFormed) (hr : index.nodes[id]? = none)
    (hp : index.insertPath parent name data = .ok path) (now : TimestampMs) :
    (index.inserted parent name data now id path).Exact := by
  have hu := (insertPath_ok hp).2.2
  intro other found
  rw [findByPath_eq_ok, pathIndex_inserted, OrderedStore.get_insert, pathOf_inserted hf hr hp now]
  split_ifs with same
  · subst same
    constructor
    · intro hs
      exact .inl ⟨(Option.some.inj hs).symm, rfl⟩
    · rintro (⟨rfl, _⟩ | ⟨_, hl⟩)
      · rfl
      · cases hu.symm.trans (findByPath_eq_ok.mp ((exact path found).mpr hl))
  · rw [← findByPath_eq_ok, exact other found]
    constructor
    · intro hl
      refine .inr ⟨?_, hl⟩
      rintro rfl
      obtain ⟨node, held⟩ := isSome_above.mp hl.isSome
      cases hr.symm.trans held
    · rintro (⟨_, he⟩ | ⟨_, hl⟩)
      · exact absurd (WorkspacePath.ext he).symm same
      · exact hl

theorem Shallow.inserted (hs : index.Shallow) (hf : index.WellFormed) (hr : index.nodes[id]? = none)
    (hp : index.insertPath parent name data = .ok path) (now : TimestampMs) :
    (index.inserted parent name data now id path).Shallow := by
  intro other segments hl
  rcases (pathOf_inserted hf hr hp now other segments).mp hl with ⟨_, rfl⟩ | ⟨_, hb⟩
  · exact path.bounded
  · exact hs other segments hb

end

section

variable {index : WorkspaceIndex} {id : WorkspaceId} {node : WorkspaceNode} {allIds : List WorkspaceId}
  {paths : List WorkspacePath}

theorem pathOf_deleted (hf : index.WellFormed) (plan : index.DeletePlan id node allIds paths) (other : WorkspaceId)
    (segments : List WorkspaceName) :
    (index.deleted id node allIds paths).PathOf other segments ↔ index.PathOf other segments ∧ other ∉ allIds := by
  have hc : (index.deleted id node allIds paths).above =
      fun other => if other ∈ allIds then none else index.above other := by
    show (removeNodes _ allIds).above = _
    rw [above_removeNodes, above_retainChild]
    rfl
  have hl : (index.deleted id node allIds paths).label =
      fun other => if other ∈ allIds then none else index.label other := by
    show (removeNodes _ allIds).label = _
    rw [label_removeNodes, label_retainChild]
    rfl
  have kept {other : WorkspaceId} {segments : List WorkspaceName} (he : index.PathOf other segments)
      (ho : other ∉ allIds) : (index.deleted id node allIds paths).PathOf other segments := by
    refine he.congr fun member hw => ?_
    have ha : member ∉ allIds := fun hi =>
      ho ((plan.subtree other).mpr (((plan.subtree member).mp hi).trans hw))
    rw [hc, hl]
    exact ⟨if_neg ha, if_neg ha⟩
  constructor
  · intro he
    have held := he.isSome
    simp only [hc] at held
    have ho : other ∉ allIds := by
      intro hi
      rw [if_pos hi] at held
      cases held
    rw [if_neg ho] at held
    obtain ⟨old, hb⟩ := hf.exists_pathOf held
    rw [he.unique (kept hb ho)]
    exact ⟨hb, ho⟩
  · rintro ⟨he, ho⟩
    exact kept he ho

theorem pathIndex_deleted (path : WorkspacePath) : (index.deleted id node allIds paths).pathIndex[path]? =
    if path ∈ paths then none else index.pathIndex[path]? := by
  show (retainChild (index.removePaths paths) node.parentId id).pathIndex[path]? = _
  rw [pathIndex_retainChild]
  exact OrderedStore.get_foldl_erase index.pathIndex paths path

theorem Exact.deleted (exact : index.Exact) (hf : index.WellFormed) (plan : index.DeletePlan id node allIds paths) :
    (index.deleted id node allIds paths).Exact := by
  intro path other
  rw [findByPath_eq_ok, pathIndex_deleted, pathOf_deleted hf plan, ← exact path other, findByPath_eq_ok]
  constructor
  · intro hs
    split_ifs at hs with hr
    refine ⟨hs, fun hi => hr ((plan.known path).mpr ⟨other, hi, ?_⟩)⟩
    exact hf.computePath_eq_ok.mpr ((exact path other).mp (findByPath_eq_ok.mpr hs))
  · rintro ⟨hs, ho⟩
    rw [if_neg, hs]
    intro hr
    obtain ⟨owner, hi, hc⟩ := (plan.known path).mp hr
    have how := findByPath_eq_ok.mp ((exact path owner).mpr (hf.computePath_eq_ok.mp hc))
    rw [hs] at how
    cases how
    exact ho hi

theorem Shallow.deleted (hs : index.Shallow) (hf : index.WellFormed)
    (plan : index.DeletePlan id node allIds paths) : (index.deleted id node allIds paths).Shallow := by
  intro other segments hl
  exact hs other segments ((pathOf_deleted hf plan other segments).mp hl).1

end

section

variable {index : WorkspaceIndex} {id : WorkspaceId} {dest : Option WorkspaceId} {node : WorkspaceNode}
  {descendants : List WorkspaceId} {segments : List WorkspaceName}

theorem MovePlan.pathOf_relinked (plan : index.MovePlan id dest node descendants) (now : TimestampMs)
    {other : WorkspaceId} (hl : index.PathOf other segments) (ho : ¬ Forest.Within index.above id other) :
    (index.relinked id node dest now).PathOf other segments := by
  refine hl.congr fun member hw => ?_
  have ha : member ≠ id := by
    rintro rfl
    exact ho hw
  rw [plan.above_relinked, label_relinked, Function.update_of_ne ha]
  exact ⟨rfl, rfl⟩

theorem MovePlan.newSegments (plan : index.MovePlan id dest node descendants) (hf : index.WellFormed)
    (now : TimestampMs)
    (hc : (index.relinked id node dest now).newSegments node.name dest = .ok segments) :
    ∃ above, segments = above ++ [node.name] ∧ index.SlotPath dest above ∧
      (index.relinked id node dest now).PathOf id segments := by
  have hp : (index.relinked id node dest now).above id = some dest := by
    rw [plan.above_relinked, Function.update_self]
  have hn : (index.relinked id node dest now).label id = some node.name := by
    rw [label_relinked, label, plan.held]
    rfl
  cases dest with
  | none =>
    cases hc
    exact ⟨[], rfl, .roots, (@pathOf_append _ id [] _).mpr ⟨none, hp, .roots, hn⟩⟩
  | some parent =>
    obtain ⟨before, hl⟩ := hf.exists_pathOf (plan.free parent rfl)
    have ha := plan.pathOf_relinked now hl (plan.apart parent rfl)
    simp only [WorkspaceIndex.newSegments] at hc
    cases ho : (index.relinked id node (some parent) now).computePath parent with
    | error err =>
      rw [ho] at hc
      cases hc
    | ok parentPath =>
      rw [ho] at hc
      cases hc
      have same := ((hf.relinked plan now).computePath_eq_ok.mp ho).unique ha
      simp only [same]
      exact ⟨before, rfl, .below hl, pathOf_append.mpr ⟨_, hp, .below ha, hn⟩⟩

theorem MovePlan.begins (plan : index.MovePlan id dest node descendants) (hf : index.WellFormed)
    (now : TimestampMs) {other : List WorkspaceName} {moved : WorkspaceId}
    (here : (index.relinked id node dest now).PathOf id segments)
    (he : (index.relinked id node dest now).PathOf moved other) (hm : moved ∈ id :: descendants) :
    segments <+: other := by
  have hb : Forest.Within (index.relinked id node dest now).above id moved := by
    rcases mem_cons.mp hm with rfl | lower
    · exact .refl
    · have hc := hf.consistent.acyclic id
      rw [plan.above_relinked]
      have hu := (plan.subtree moved).mp lower
      clear hm lower he
      induction hu with
      | @single last hl =>
        refine Relation.ReflTransGen.single ?_
        rw [Forest.Link, Function.update_of_ne]
        · exact hl
        · rintro rfl
          exact hc (.single hl)
      | @tail middle last hp hl ih =>
        refine ih.tail ?_
        rw [Forest.Link, Function.update_of_ne]
        · exact hl
        · rintro rfl
          exact hc (hp.tail hl)
  obtain ⟨chain, he, rfl⟩ := he
  obtain ⟨first, hs, rfl⟩ := here
  obtain ⟨rest, rfl⟩ := he.initial_of_within hs hb
  rw [names_append]
  exact prefix_append _ _

theorem get_indexAlong (nodes : OrderedStore.Store WorkspaceId WorkspaceNode) (descendants : List WorkspaceId)
    {path : WorkspacePath} : ∀ id segments pathIndex, ¬ segments <+: path.segments →
      (indexAlong nodes id descendants segments pathIndex).2[path]? = pathIndex[path]? := by
  induction descendants with
  | nil =>
    intro id segments pathIndex ha
    unfold indexAlong
    cases hu : WorkspacePath.new segments with
    | error err => rfl
    | ok here =>
      refine OrderedStore.get_insert_of_ne pathIndex ?_ id
      rintro rfl
      exact ha (WorkspacePath.new_eq_ok.mp hu ▸ prefix_refl _)
  | cons next later ih =>
    intro id segments pathIndex ha
    unfold indexAlong
    cases hu : WorkspacePath.new segments with
    | error err => rfl
    | ok here =>
      refine (ih next _ _ fun hb => ha ((prefix_append _ _).trans hb)).trans ?_
      refine OrderedStore.get_insert_of_ne pathIndex ?_ id
      rintro rfl
      exact ha (WorkspacePath.new_eq_ok.mp hu ▸ prefix_refl _)

theorem MovePlan.reindex_ok (plan : index.MovePlan id dest node descendants) (hf : index.WellFormed)
    (now : TimestampMs)
    (done : ((index.relinked id node dest now).reindex id node.name dest descendants).1 = .ok ()) :
    ∃ above, index.SlotPath dest above ∧
      (index.relinked id node dest now).PathOf id (above ++ [node.name]) ∧
      (above ++ [node.name]).length ≤ maxDepth ∧ ∀ path : WorkspacePath, ¬ above ++ [node.name] <+: path.segments →
        ((index.relinked id node dest now).reindex id node.name dest descendants).2.pathIndex[path]? =
          index.pathIndex[path]? := by
  have ha := hf.relinked plan now
  obtain ⟨oldPaths, ho, hk⟩ := ha.knownPaths (id :: descendants)
  have same : ((index.relinked id node dest now).removePaths oldPaths).newSegments node.name dest =
      (index.relinked id node dest now).newSegments node.name dest := by
    cases dest with
    | none | some parent => rfl
  unfold WorkspaceIndex.reindex at done ⊢
  rw [ho] at done ⊢
  simp only [same] at done ⊢
  cases hc : (index.relinked id node dest now).newSegments node.name dest with
  | error err =>
    rw [hc] at done
    cases done
  | ok segments =>
    obtain ⟨above, rfl, way, hl⟩ := plan.newSegments hf now hc
    rw [hc] at done
    refine ⟨above, way, hl, ?_, ?_⟩
    · by_contra deep
      unfold indexAlong at done
      simp only [WorkspacePath.new, dif_neg deep] at done
      cases done
    · intro path hp
      have hb := get_indexAlong ((index.relinked id node dest now).removePaths oldPaths).nodes descendants
        id _ ((index.relinked id node dest now).removePaths oldPaths).pathIndex hp
      have hd : ((index.relinked id node dest now).removePaths oldPaths).pathIndex[path]? =
          index.pathIndex[path]? := by
        refine (OrderedStore.get_foldl_erase _ oldPaths path).trans ?_
        rw [if_neg]
        · rw [relinked, setParent, pathIndex_appendChild, pathIndex_retainChild]
        · intro hr
          obtain ⟨moved, hm, path⟩ := (hk _).mp hr
          exact hp (plan.begins hf now hl (ha.computePath_eq_ok.mp path) hm)
      simp only
      split
      · rename_i err pathIndex ran
        rw [ran] at hb
        exact hb.trans hd
      · rename_i pathIndex ran
        rw [ran] at hb
        exact hb.trans hd

theorem MovePlan.not_exact (plan : index.MovePlan id dest node descendants) (hf : index.WellFormed)
    (exact : index.Exact) (hs : index.Shallow) (now : TimestampMs)
    (done : ((index.relinked id node dest now).reindex id node.name dest descendants).1 = .ok ()) :
    ¬ ((index.relinked id node dest now).reindex id node.name dest descendants).2.Exact := by
  intro ha
  obtain ⟨above, way, he, hb, kept⟩ := plan.reindex_ok hf now done
  have hn := (reindex_nodes (index.relinked id node dest now) id node.name dest descendants).1
  generalize (index.relinked id node dest now).reindex id node.name dest descendants = outcome at *
  have paths {other : WorkspaceId} {segments : List WorkspaceName}
      (path : (index.relinked id node dest now).PathOf other segments) : outcome.2.PathOf other segments :=
    path.congr fun member _ => ⟨by rw [WorkspaceIndex.above, hn, WorkspaceIndex.above], by rw [label, hn, label]⟩
  have hp : index.above id = some node.parentId := above_eq_some.mpr ⟨node, plan.held, rfl⟩
  obtain ⟨old, hc⟩ := hf.exists_pathOf (by rw [hp]; rfl)
  by_cases ht : ∃ owner, index.PathOf owner (above ++ [node.name])
  · obtain ⟨owner, how⟩ := ht
    obtain ⟨slot, hung, hg, _⟩ := pathOf_append.mp how
    rw [exact.slotPath_unique hs hg way] at hung
    have hd : owner ≠ id := by
      rintro rfl
      exact plan.changed (Option.some.inj (hp.symm.trans hung))
    have ho : ¬ Forest.Within index.above id owner := by
      intro hw
      rcases Relation.ReflTransGen.cases_tail hw with same | ⟨upper, hh, hl⟩
      · exact hd same
      · exact plan.apart upper (Option.some.inj (hung.symm.trans hl)) hh
    have first := (ha ⟨_, hb⟩ owner).mpr (paths (plan.pathOf_relinked now how ho))
    have hi := (ha ⟨_, hb⟩ id).mpr (paths he)
    exact hd (Except.ok.inj (first.symm.trans hi))
  · have hk : ¬ above ++ [node.name] <+: old := fun hm => ht (hc.initial hm (by simp))
    have hq := findByPath_eq_ok.mp ((exact ⟨old, hs id old hc⟩ id).mpr hc)
    rw [← kept ⟨old, hs id old hc⟩ hk] at hq
    have hr := (ha ⟨old, hs id old hc⟩ id).mp (findByPath_eq_ok.mpr hq)
    exact hk ((paths he).unique hr ▸ prefix_refl _)

end

end WorkspaceIndex

open WorkspaceIndex Machine

section

variable (event : Event)

/-- After the event the index is exact, and an error has changed neither the nodes nor the paths. -/
def Faithful : Prop := event.after.Exact ∧ ((∃ failure, event.reply = .error failure) →
    event.after.nodes = event.before.nodes ∧ event.after.pathIndex = event.before.pathIndex)

def Relocates (index : WorkspaceIndex) : Call → Prop
  | .moveWorkspace id dest _ => index.Reparents id dest
  | _ => False

instance (index : WorkspaceIndex) : DecidablePred (Relocates index)
  | .moveWorkspace id dest _ => inferInstanceAs (Decidable (∃ node ∈ index.nodes[id]?,
      node.parentId ≠ dest ∧ index.checkTarget id node.name dest = .ok ()))
  | .insert .. | .delete _ | .updateMetadata .. => inferInstanceAs (Decidable False)

structure Indexed (index : WorkspaceIndex) : Prop where
  formed : index.WellFormed
  exact : index.Exact
  shallow : index.Shallow

theorem exact_new : WorkspaceIndex.new.Exact ∧ WorkspaceIndex.new.Shallow := by
  have hn (id : WorkspaceId) (segments : List WorkspaceName) : ¬ WorkspaceIndex.new.PathOf id segments := by
    intro hl
    obtain ⟨node, held⟩ := isSome_above.mp hl.isSome
    simp [WorkspaceIndex.new] at held
  refine ⟨fun path id => ?_, fun id segments hl => absurd hl (hn id segments)⟩
  rw [findByPath_eq_ok]
  refine iff_of_false ?_ (hn id path.segments)
  simp [WorkspaceIndex.new]

variable {index : WorkspaceIndex}

theorem Indexed.unchanged (ha : Indexed index) {event : Event} (hb : event.before = index)
    (hn : event.after.nodes = index.nodes) (hr : event.after.rootIds = index.rootIds)
    (hi : event.after.initialized = index.initialized) (paths : event.after.pathIndex = index.pathIndex) :
    Faithful event ∧ Indexed event.after := by
  have hd : event.after.above = index.above := by
    funext id
    rw [above, hn, above]
  have hl : event.after.label = index.label := by
    funext id
    rw [label, hn, label]
  have exact := ha.exact.congr hd hl paths
  exact ⟨⟨exact, fun _ => by rw [hb]; exact ⟨hn, paths⟩⟩, ha.formed.of_nodes hn hr hi, exact, ha.shallow.congr hd hl⟩

theorem Indexed.inserts (hn : Indexed index) {parent : Option WorkspaceId} {name : WorkspaceName}
    {data : WorkspaceMetadata} {now : TimestampMs} {id : WorkspaceId} (hf : index.nodes[id]? = none) :
    let event := Machine.event step index (.insert parent name data now id)
    Faithful event ∧ Indexed event.after := by
  rcases insert_cases index parent name data now id with ⟨err, hp, ran⟩ | ⟨path, hp, ran⟩
  · refine hn.unchanged rfl ?_ ?_ ?_ ?_ <;> simp only [Machine.event, step, ran]
  · have exact := hn.exact.inserted hn.formed hf hp now
    have hs := hn.shallow.inserted hn.formed hf hp now
    simp only [Machine.event, step, ran]
    refine ⟨⟨exact, ?_⟩, hn.formed.inserted hf (insertPath_ok hp).1 now, exact, hs⟩
    rintro ⟨err, hi⟩
    cases hi

theorem Indexed.deletes (hn : Indexed index) {id : WorkspaceId} : let event := Machine.event step index (.delete id)
    Faithful event ∧ Indexed event.after := by
  rcases hn.formed.delete_cases id with ran | ⟨node, allIds, paths, plan, ran⟩
  · refine hn.unchanged rfl ?_ ?_ ?_ ?_ <;> simp only [Machine.event, step, finished, ran]
  · have exact := hn.exact.deleted hn.formed plan
    simp only [Machine.event, step, finished, ran]
    refine ⟨⟨exact, ?_⟩, hn.formed.deleted plan, exact, hn.shallow.deleted hn.formed plan⟩
    rintro ⟨err, hi⟩
    cases hi

theorem Indexed.updates (hn : Indexed index) {id : WorkspaceId} {data : WorkspaceMetadata} {now : TimestampMs} :
    let event := Machine.event step index (.updateMetadata id data now)
    Faithful event ∧ Indexed event.after := by
  rcases hn.formed.updateMetadata_cases id data now with ⟨err, _, ran⟩ | ran
  · refine hn.unchanged rfl ?_ ?_ ?_ ?_ <;> simp only [Machine.event, step, finished, ran]
  · have ha : (index.setMetadata id data now).above = index.above := above_modify index id fun _ => rfl
    have hl : (index.setMetadata id data now).label = index.label := label_modify index id fun _ => rfl
    have exact : (index.setMetadata id data now).bumpVersion.Exact := hn.exact.congr ha hl rfl
    simp only [Machine.event, step, finished, ran]
    refine ⟨⟨exact, ?_⟩, (hn.formed.setMetadata id data now).of_nodes rfl rfl rfl, exact, hn.shallow.congr ha hl⟩
    rintro ⟨err, hi⟩
    cases hi

theorem Indexed.moves (hi : Indexed index) {id : WorkspaceId} {dest : Option WorkspaceId} {now : TimestampMs} :
    let event := Machine.event step index (.moveWorkspace id dest now)
    (¬ Faithful event ∧ index.Reparents id dest) ∨
      (¬ index.Reparents id dest ∧ Faithful event ∧ Indexed event.after) := by
  rcases hi.formed.moveWorkspace_cases id dest now with
    ⟨stays, ⟨error, ran⟩ | ran⟩ | ⟨node, descendants, moves, plan, ran⟩
  · refine .inr ⟨stays, hi.unchanged rfl ?_ ?_ ?_ ?_⟩ <;> simp only [Machine.event, step, finished, ran]
  · refine .inr ⟨stays, hi.unchanged rfl ?_ ?_ ?_ ?_⟩ <;> simp only [Machine.event, step, finished, ran, bumpVersion]
  · left
    have hn := (reindex_nodes (index.relinked id node dest now) id node.name dest descendants).1
    have hb := plan.not_exact hi.formed hi.exact hi.shallow now
    have hp : index.above id = some node.parentId := above_eq_some.mpr ⟨node, plan.held, rfl⟩
    have hm : (index.relinked id node dest now).above id = some dest := by
      rw [plan.above_relinked, Function.update_self]
    simp only [Machine.event, step, finished, ran]
    generalize (index.relinked id node dest now).reindex id node.name dest descendants = outcome at *
    have hc : outcome.2.above id ≠ index.above id := by
      rw [hp, above, hn, ← above, hm]
      exact fun same => plan.changed (Option.some.inj same).symm
    refine ⟨?_, moves⟩
    rintro ⟨exact, kept⟩
    rcases outcome with ⟨err | done, after⟩
    · refine hc ?_
      rw [above, (kept ⟨err, rfl⟩).1, ← above]
    · exact hb rfl exact

/-- The path index is exact exactly as long as no workspace is given another parent. -/
theorem path_index_exact_iff (calls : List Call) (fresh : Guarded step Fresh .new calls) :
    (WorkspaceIndex.new.Exact ∧ ∀ event ∈ trace step .new calls, Faithful event) ↔
      ∀ event ∈ trace step .new calls, ¬ Relocates event.before event.call := by
  refine Iff.trans (and_iff_right exact_new.1) ?_
  refine forall_trace_iff step Fresh Indexed Faithful (fun event => ¬ Relocates event.before event.call) ?_
    ⟨wellFormed_new, exact_new.1, exact_new.2⟩ fresh
  intro index call hi fresh
  have kept (stays : ¬ Relocates index call)
      (fine : Faithful (event step index call) ∧ Indexed (step index call).2) :
      (Faithful (event step index call) ↔ ¬ Relocates index call) ∧
        (¬ Relocates index call → Indexed (step index call).2) :=
    ⟨iff_of_true fine.1 stays, fun _ => fine.2⟩
  cases call with
  | insert parentId name metadata now generated => exact kept id (hi.inserts fresh)
  | delete id => exact kept not_false hi.deletes
  | updateMetadata id metadata now => exact kept not_false hi.updates
  | moveWorkspace id dest now =>
    rcases @Indexed.moves index hi id dest now with ⟨hu, hr⟩ | ⟨stays, fine⟩
    · exact ⟨iff_of_false hu (not_not.mpr hr), fun hs => absurd hr hs⟩
    · exact kept stays fine

end

section Sample

/-- A move to the same parent, one that is refused, an update and a deletion. -/
def stayingCalls : List Call := sampleCalls.take 3 ++ [.moveWorkspace 3 (some 1) 4, .moveWorkspace 1 (some 3) 5,
  .updateMetadata 3 sampleMetadata 6, .delete 2]

theorem path_index_exact_iff_sample : Guarded step Fresh .new stayingCalls ∧
    (trace step .new stayingCalls).map (fun event => event.reply) = [.ok (some 1), .ok (some 2), .ok (some 3),
      .ok none, .error (.returned (.cyclicMoveDetected 1 3)), .ok none, .ok none] ∧
    ∀ event ∈ trace step .new stayingCalls, Faithful event := by
  obtain ⟨first, second, third, _⟩ := sampleCalls_fresh
  have hf : Guarded step Fresh .new stayingCalls :=
    ⟨first, second, third, trivial, trivial, trivial, trivial, trivial⟩
  exact ⟨hf, by decide +kernel, ((path_index_exact_iff stayingCalls hf).mpr (by decide +kernel)).2⟩

def deepCalls : List Call := .insert none nameA sampleMetadata 0 1 ::
    (List.range 15).map (fun depth =>
      .insert (some (.ofNat 128 (depth + 1))) nameA sampleMetadata 0 (.ofNat 128 (depth + 2))) ++
    [.insert none nameB sampleMetadata 0 17, .insert (some 17) nameB sampleMetadata 0 18]

/-- A workspace that has moved is found under its old path, and a move that fails has changed the parent. -/
theorem moved_workspace_found : ¬ (sampleIndex 4).Exact ∧ (sampleIndex 4).findByPath ⟨[nameA, nameC], by decide⟩ = .ok 3 ∧
    ((sampleIndex 4).computePath 3).map WorkspacePath.segments = .ok [nameB, nameC] ∧
    (step (final step .new deepCalls) (.moveWorkspace 1 (some 18) 1)).1 = .error (.returned (.pathTooDeep 16 17)) ∧
    (final step .new deepCalls).above 1 = some none ∧
    (step (final step .new deepCalls) (.moveWorkspace 1 (some 18) 1)).2.above 1 = some (some 18) := by
  have hf : (sampleIndex 4).findByPath ⟨[nameA, nameC], by decide⟩ = .ok 3 := by decide +kernel
  refine ⟨fun exact => ?_, hf, by decide +kernel, by decide +kernel, by decide +kernel, by decide +kernel⟩
  obtain ⟨slot, hp, way, _⟩ := (@pathOf_append _ _ [nameA] nameC).mp ((exact _ 3).mp hf)
  have ha : (sampleIndex 4).above 3 = some (some 2) := by decide +kernel
  cases hp.symm.trans ha
  cases way with
  | below above =>
    obtain ⟨_, _, _, hn⟩ := (@pathOf_append _ _ [] nameA).mp above
    have other : (sampleIndex 4).label 2 = some nameB := by decide +kernel
    exact absurd (hn.symm.trans other) (by decide +kernel)

end Sample

end Veloxide.Workspace
