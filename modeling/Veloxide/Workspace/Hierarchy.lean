import Veloxide.Workspace.Index

namespace Veloxide.Workspace

open List Except Function

namespace WorkspaceIndex

def above (index : WorkspaceIndex) (id : WorkspaceId) : Option (Option WorkspaceId) :=
  index.nodes[id]?.map WorkspaceNode.parentId

def row (index : WorkspaceIndex) : Option WorkspaceId → List WorkspaceId
  | some id => index.childrenOf id
  | none => index.rootIds

variable (ids : List WorkspaceId)

def names (index : WorkspaceIndex) (ids : List WorkspaceId) : List WorkspaceName :=
  ids.filterMap fun id => index.nodes[id]?.map WorkspaceNode.name

structure WellFormed (index : WorkspaceIndex) : Prop where
  initialized : index.initialized = true
  consistent : Forest.Consistent index.above index.row

section

variable {index : WorkspaceIndex} {id : WorkspaceId} {slot : Option WorkspaceId}

theorem above_eq_some : index.above id = some slot ↔ ∃ node, index.nodes[id]? = some node ∧ node.parentId = slot :=
  Option.map_eq_some_iff

theorem isSome_above : (index.above id).isSome ↔ ∃ node, index.nodes[id]? = some node := by
  rw [above, Option.isSome_map, Option.isSome_iff_exists]

variable {node : WorkspaceNode}

theorem slot_of_get (held : index.nodes[id]? = some node) : Forest.Slot index.above (some id) := by
  rintro upper same
  cases same
  exact isSome_above.mpr ⟨node, held⟩

theorem mem_keys (held : (index.above id).isSome) : id ∈ index.nodes.keys := by
  obtain ⟨node, held⟩ := isSome_above.mp held
  rw [Std.ExtTreeMap.mem_keys, Std.ExtTreeMap.mem_iff_isSome_getElem?, held]
  rfl

theorem childrenOf_of_get (held : index.nodes[id]? = some node) : index.childrenOf id = node.children := by
  rw [childrenOf, held]
  rfl

end

variable (now : TimestampMs) (other : WorkspaceId)

section

variable (index : WorkspaceIndex) (slot : Option WorkspaceId) (id : WorkspaceId)
  {change : WorkspaceNode → WorkspaceNode}

theorem above_modify (kept : ∀ node, (change node).parentId = node.parentId) :
    above { index with nodes := index.nodes.modify id change } = index.above := by
  funext other
  simp only [above, OrderedStore.get_modify]
  split_ifs
  · rw [Option.map_map]
    exact congrFun (congrArg _ (funext kept)) _
  · rfl

theorem row_modify (kept : ∀ node, (change node).children = node.children) :
    row { index with nodes := index.nodes.modify id change } = index.row := by
  funext place
  cases place with
  | none => rfl
  | some other =>
    simp only [row, childrenOf, OrderedStore.get_modify]
    split_ifs
    · rw [Option.map_map]
      exact congrArg (Option.getD · []) (congrFun (congrArg _ (funext kept)) _)
    · rfl

theorem above_appendChild : (index.appendChild slot id).above = index.above := by
  cases slot with
  | none => rfl
  | some parentId => exact above_modify index parentId fun _ => rfl

theorem row_appendChild (free : Forest.Slot index.above slot) :
    (index.appendChild slot id).row = update index.row slot (index.row slot ++ [id]) := by
  funext place
  rw [update_apply]
  cases slot with
  | none =>
    cases place with
    | none | some other => rfl
  | some parentId =>
    cases place with
    | none => rfl
    | some other =>
      obtain ⟨parent, held⟩ := isSome_above.mp (free parentId rfl)
      simp only [row, appendChild, childrenOf, OrderedStore.get_modify, Option.some.injEq]
      by_cases same : other = parentId
      · subst same
        simp [held]
      · simp [same, Ne.symm same]

theorem above_retainChild : (index.retainChild slot id).above = index.above := by
  cases slot with
  | none => rfl
  | some parentId => exact above_modify index parentId fun _ => rfl

theorem row_retainChild : (index.retainChild slot id).row = update index.row slot ((index.row slot).filter (· ≠ id)) := by
  funext place
  rw [update_apply]
  cases slot with
  | none =>
    cases place with
    | none | some other => rfl
  | some parentId =>
    cases place with
    | none => rfl
    | some other =>
      simp only [row, retainChild, childrenOf, OrderedStore.get_modify, Option.some.injEq]
      by_cases same : other = parentId
      · subst same
        cases index.nodes[other]? with
        | none | some node => simp
      · simp [same, Ne.symm same]

theorem above_setParent (held : (index.above id).isSome) :
    (index.setParent id slot now).above = update index.above id (some slot) := by
  obtain ⟨node, held⟩ := isSome_above.mp held
  funext other
  simp only [above, setParent, OrderedStore.get_modify, update_apply]
  by_cases same : other = id
  · subst same
    simp [held]
  · simp [same, Ne.symm same]

theorem row_setParent : (index.setParent id slot now).row = index.row := row_modify index id fun _ => rfl

theorem get_removeNodes : (index.removeNodes ids).nodes[other]? = if other ∈ ids then none else index.nodes[other]? :=
  OrderedStore.get_foldl_erase index.nodes ids other

theorem above_removeNodes :
    (index.removeNodes ids).above = fun other => if other ∈ ids then none else index.above other := by
  funext other
  rw [above, get_removeNodes]
  split_ifs
  · rfl
  · rfl

theorem childrenOf_removeNodes :
    (index.removeNodes ids).childrenOf other = if other ∈ ids then [] else index.childrenOf other := by
  rw [childrenOf, get_removeNodes]
  split_ifs
  · rfl
  · rfl

end

def Returns {α : Type} (result : Except Failure α) : Prop := result ≠ .error .diverges

section

variable {index : WorkspaceIndex} {id : WorkspaceId} {chain : List WorkspaceId}

theorem names_append (first second : List WorkspaceId) :
    index.names (first ++ second) = index.names first ++ index.names second :=
  filterMap_append

theorem names_singleton {node : WorkspaceNode} (held : index.nodes[id]? = some node) :
    index.names [id] = [node.name] := by
  simp [names, held]

variable {fuel : Nat}

theorem segmentsAbove_chain (ha : Forest.Chain index.above id chain) (he : chain.length ≤ fuel)
    (segs : List WorkspaceName) :
    segmentsAbove index.nodes fuel (some id) segs = .ok (index.names chain ++ segs) := by
  induction ha generalizing fuel segs with
  | root top =>
    obtain ⟨node, held, root⟩ := above_eq_some.mp top
    obtain ⟨fuel, rfl⟩ := Nat.exists_eq_add_of_le' he
    simp only [segmentsAbove, held, root, names_singleton held, length_singleton]
    rfl
  | child hl _ ih =>
    obtain ⟨node, held, hp⟩ := above_eq_some.mp hl
    rw [length_append, length_singleton] at he
    obtain ⟨more, rfl⟩ := Nat.exists_eq_add_of_le' he
    rw [← Nat.add_assoc, segmentsAbove, held]
    simp only [hp]
    rw [ih (Nat.le_add_left _ _), names_append, names_singleton held, append_assoc]
    rfl

theorem computePath_chain (he : Forest.Chain index.above id chain) :
    index.computePath id = WorkspacePath.new (index.names chain) := by
  have hb : chain.length ≤ index.nodes.size := by
    rw [← Std.ExtTreeMap.length_keys]
    exact he.length_le fun _ => mem_keys
  cases he with
  | root top =>
    obtain ⟨node, held, root⟩ := above_eq_some.mp top
    simp only [computePath, held, root, segmentsAbove, names_singleton held]
    rfl
  | child hl rest =>
    obtain ⟨node, held, hp⟩ := above_eq_some.mp hl
    rw [length_append] at hb
    simp only [computePath, held, hp]
    rw [segmentsAbove_chain rest (Nat.le_of_add_right_le hb), names_append, names_singleton held]
    rfl

theorem computePath_none (ha : index.nodes[id]? = none) :
    index.computePath id = .error (.returned (.workspaceNotFound id)) := by
  rw [computePath, ha]

theorem hasAncestor_chain (ha : Forest.Chain index.above id chain) (he : chain.length ≤ fuel)
    (anc : WorkspaceId) : ∃ found, hasAncestor index.nodes anc fuel index.nodes[id]? = .ok found ∧
      (found = true ↔ Relation.TransGen (Forest.Link index.above) anc id) := by
  induction ha generalizing fuel with
  | root top =>
    obtain ⟨node, held, root⟩ := above_eq_some.mp top
    obtain ⟨fuel, rfl⟩ := Nat.exists_eq_add_of_le' he
    refine ⟨false, by simp [hasAncestor, held, root], ?_⟩
    simp only [Bool.false_eq_true, false_iff]
    intro hb
    obtain ⟨_, _, hl⟩ := Relation.TransGen.tail'_iff.mp hb
    cases top.symm.trans hl
  | @child id upper chain hl rest ih =>
    obtain ⟨node, held, hp⟩ := above_eq_some.mp hl
    rw [length_append, length_singleton] at he
    obtain ⟨more, rfl⟩ := Nat.exists_eq_add_of_le' he
    rw [← Nat.add_assoc, held, hasAncestor, hp]
    simp only [Option.some.injEq, Option.bind_some]
    by_cases hd : upper = anc
    · refine ⟨true, by rw [if_pos hd], ?_⟩
      simpa using Relation.TransGen.single (hd ▸ hl)
    · obtain ⟨found, ran, exact⟩ := ih (Nat.le_add_left _ more)
      refine ⟨found, by rw [if_neg hd, ran], exact.trans ⟨fun higher => higher.tail hl, fun hb => ?_⟩⟩
      obtain ⟨other, hw, same⟩ := Relation.TransGen.tail'_iff.mp hb
      cases hl.symm.trans same
      rcases Relation.reflTransGen_iff_eq_or_transGen.mp hw with hq | higher
      · exact absurd hq hd
      · exact higher

variable (formed : index.WellFormed)

include formed in
theorem WellFormed.isDescendant (id anc : WorkspaceId) (held : (index.above id).isSome) :
    ∃ found, index.isDescendant id anc = .ok found ∧
      (found = true ↔ Relation.TransGen (Forest.Link index.above) anc id) := by
  obtain ⟨chain, hl⟩ := formed.consistent.rooted id held
  refine hasAncestor_chain hl ?_ anc
  rw [← Std.ExtTreeMap.length_keys]
  exact hl.length_le fun _ => mem_keys

include formed in
theorem WellFormed.collectDescendants (id : WorkspaceId) :
    ∃ found, index.collectDescendants id = .ok found ∧ found.Nodup ∧
      ∀ other, other ∈ found ↔ Relation.TransGen (Forest.Link index.above) id other := by
  obtain ⟨found, ran, hd, exact⟩ := @Forest.collect_children _ index.above index.childrenOf id
      (fun upper node => formed.consistent.mem_row (some upper) node) (fun upper => formed.consistent.nodup (some upper))
      formed.consistent.acyclic index.nodes.keys (fun _ => mem_keys) index.nodes.size
      (Std.ExtTreeMap.length_keys).le
  exact ⟨found, by rw [WorkspaceIndex.collectDescendants, ran], hd, exact⟩

include formed in
theorem WellFormed.computePath_returns (id : WorkspaceId) : Returns (index.computePath id) := by
  cases held : index.nodes[id]? with
  | none =>
    rw [computePath_none held]
    simp [Returns]
  | some node =>
    obtain ⟨chain, hl⟩ := formed.consistent.rooted id (isSome_above.mpr ⟨node, held⟩)
    rw [computePath_chain hl]
    exact fun hr => WorkspacePath.new_error hr rfl

theorem knownPaths_ok {ids : List WorkspaceId} (hr : ∀ id ∈ ids, Returns (index.computePath id)) :
    ∃ paths, index.knownPaths ids = .ok paths ∧ ∀ path, path ∈ paths ↔ ∃ id ∈ ids, index.computePath id = .ok path := by
  induction ids with
  | nil => exact ⟨[], rfl, by simp⟩
  | cons id ids ih =>
    obtain ⟨paths, ran, exact⟩ := ih fun other mem => hr other (mem_cons_of_mem _ mem)
    have here := hr id mem_cons_self
    rw [knownPaths, ran]
    rcases hc : index.computePath id with (error | _) | path
    · exact ⟨paths, rfl, fun path => by simp [exact, hc]⟩
    · exact absurd hc here
    · exact ⟨path :: paths, rfl, fun other => by simp [exact, hc, eq_comm]⟩

include formed in
theorem WellFormed.knownPaths : ∃ paths, index.knownPaths ids = .ok paths ∧
    ∀ path, path ∈ paths ↔ ∃ id ∈ ids, index.computePath id = .ok path :=
  knownPaths_ok fun id _ => formed.computePath_returns id

end

section

variable {α β : Type}

theorem Returns.ok (value : α) : Returns (.ok value : Except Failure α) := by simp [Returns]

theorem Returns.error (error : WorkspaceIndexError) : Returns (.error (.returned error) : Except Failure α) := by
  simp [Returns]

variable {result : Except Failure α}

theorem Returns.transfer {err : Failure} (hr : Returns result) (hf : result = .error err) :
    Returns (.error err : Except Failure β) := by
  intro same
  cases same
  exact hr hf

theorem Returns.bind {first : Except Failure α} {next : α → Except Failure β} (here : Returns first)
    (hl : ∀ value, first = .ok value → Returns (next value)) : Returns (first >>= next) := by
  cases first with
  | error err => exact here.transfer rfl
  | ok value => exact hl value rfl

theorem Returns.map (hr : Returns result) (change : α → β) : Returns (result.map change) := by
  cases result with
  | error err => exact hr.transfer rfl
  | ok value => exact Returns.ok _

theorem Returns.forM {items : List α} {check : α → Except Failure Unit} (hr : ∀ item ∈ items, Returns (check item)) :
    Returns (items.forM check) := by
  induction items with
  | nil => exact Returns.ok ()
  | cons item items ih =>
    exact (hr item mem_cons_self).bind fun _ _ =>
      ih fun other mem => hr other (mem_cons_of_mem _ mem)

theorem new_returns (segs : List WorkspaceName) : Returns (WorkspacePath.new segs) :=
  fun hr => WorkspacePath.new_error hr rfl

theorem validate_returns (data : WorkspaceMetadata) : Returns data.validate := by
  unfold WorkspaceMetadata.validate
  split_ifs
  · exact Returns.error _
  · refine Returns.forM fun entry _ => ?_
    unfold WorkspaceMetadata.validateEntry
    split_ifs
    · exact Returns.error _
    · exact Returns.error _
    · exact Returns.ok ()

end

section

variable {index : WorkspaceIndex} {parentId : Option WorkspaceId} {name : WorkspaceName}
  {data : WorkspaceMetadata} {path : WorkspacePath}

def slotSegments (index : WorkspaceIndex) (slot : Option WorkspaceId) (name : WorkspaceName)
    (segments : List WorkspaceName) : Prop :=
  match slot with
  | none => segments = [name]
  | some id => ∃ path, index.computePath id = .ok path ∧ segments = path.segments ++ [name]

theorem slotPath_ok (hc : index.slotPath name parentId = .ok path) :
    Forest.Slot index.above parentId ∧ index.slotSegments parentId name path.segments := by
  cases parentId with
  | none =>
    refine ⟨?_, WorkspacePath.new_eq_ok.mp hc⟩
    rintro upper hi
    cases hi
  | some parentId =>
    simp only [slotPath] at hc
    split at hc
    · cases hc
    · rename_i parent held
      obtain ⟨parentPath, ha, hh⟩ := bind_eq_ok.mp hc
      exact ⟨slot_of_get held, parentPath, ha, WorkspacePath.new_eq_ok.mp hh⟩

theorem insertPath_ok (hp : index.insertPath parentId name data = .ok path) :
    Forest.Slot index.above parentId ∧ index.slotSegments parentId name path.segments ∧
      index.pathIndex[path]? = none := by
  unfold insertPath at hp
  split_ifs at hp
  obtain ⟨_, hp⟩ := bind_unit_eq_ok.mp hp
  obtain ⟨found, hc, hp⟩ := bind_eq_ok.mp hp
  split at hp
  · cases hp
  · rename_i hu
    cases hp
    obtain ⟨free, hs⟩ := slotPath_ok hc
    exact ⟨free, hs, hu⟩

theorem WellFormed.slotPath_returns (formed : index.WellFormed) : Returns (index.slotPath name parentId) := by
  cases parentId with
  | none => exact new_returns [name]
  | some parentId =>
    simp only [slotPath]
    split
    · exact Returns.error _
    · exact (formed.computePath_returns parentId).bind fun _ _ => new_returns _

theorem WellFormed.insertPath_returns (formed : index.WellFormed) :
    Returns (index.insertPath parentId name data) := by
  unfold insertPath
  split_ifs
  · exact Returns.error _
  · refine (validate_returns data).bind fun _ _ => formed.slotPath_returns.bind fun path _ => ?_
    split
    · exact Returns.error _
    · exact Returns.ok path

variable {id : WorkspaceId} {node : WorkspaceNode} {pathIndex : OrderedStore.Store WorkspacePath WorkspaceId}

theorem above_store : above { index with nodes := index.nodes.insert id node, pathIndex } =
    update index.above id (some node.parentId) := by
  funext other
  simp only [above, OrderedStore.get_insert, update_apply, eq_comm]
  split_ifs
  · rfl
  · rfl

theorem row_store (hf : index.nodes[id]? = none) (leaf : node.children = []) :
    row { index with nodes := index.nodes.insert id node, pathIndex } = index.row := by
  funext place
  cases place with
  | none => rfl
  | some other =>
    simp only [row, childrenOf, OrderedStore.get_insert]
    split_ifs with same
    · subst same
      simp [hf, leaf]
    · rfl

theorem newNode_fields (id : WorkspaceId) (name : WorkspaceName) (data : WorkspaceMetadata) (now : TimestampMs)
    (slot : Option WorkspaceId) :
    (newNode id name data now slot).parentId = slot ∧ (newNode id name data now slot).children = [] ∧
      (newNode id name data now slot).name = name := by
  cases slot with
  | none | some parentId => exact ⟨rfl, rfl, rfl⟩

def inserted (index : WorkspaceIndex) (parentId : Option WorkspaceId) (name : WorkspaceName)
    (metadata : WorkspaceMetadata) (now : TimestampMs) (id : WorkspaceId) (path : WorkspacePath) : WorkspaceIndex :=
  (appendChild { index with
    nodes := index.nodes.insert id (newNode id name metadata now parentId)
    pathIndex := index.pathIndex.insert path id } parentId id).bumpVersion

theorem insert_cases (index : WorkspaceIndex) (parentId : Option WorkspaceId) (name : WorkspaceName)
    (data : WorkspaceMetadata) (now : TimestampMs) (id : WorkspaceId) :
    (∃ err, index.insertPath parentId name data = .error err ∧
      index.insert parentId name data now id = (.error err, index)) ∨
    ∃ path, index.insertPath parentId name data = .ok path ∧
      index.insert parentId name data now id = (.ok id, index.inserted parentId name data now id path) := by
  unfold insert
  cases hp : index.insertPath parentId name data with
  | error err => exact .inl ⟨err, rfl, rfl⟩
  | ok path => exact .inr ⟨path, rfl, rfl⟩

theorem WellFormed.inserted (formed : index.WellFormed) (hf : index.nodes[id]? = none)
    (free : Forest.Slot index.above parentId) (now : TimestampMs) :
    (index.inserted parentId name data now id path).WellFormed := by
  obtain ⟨hp, leaf, _⟩ := newNode_fields id name data now parentId
  have hu : index.above id = none := by rw [above, hf]; rfl
  have hs : Forest.Slot (above { index with
      nodes := index.nodes.insert id (newNode id name data now parentId)
      pathIndex := index.pathIndex.insert path id }) parentId := by
    rw [above_store]
    intro upper hl
    rw [update_apply]
    split_ifs
    · rfl
    · exact free upper hl
  refine ⟨?_, ?_⟩
  · rw [WorkspaceIndex.inserted]
    cases parentId with
    | none | some parentId => exact formed.initialized
  · show Forest.Consistent (appendChild _ parentId id).above (appendChild _ parentId id).row
    rw [above_appendChild, row_appendChild _ _ _ hs, above_store, row_store hf leaf, hp]
    exact formed.consistent.insert hu free

end

section

variable {index : WorkspaceIndex} {id : WorkspaceId}

structure DeletePlan (index : WorkspaceIndex) (id : WorkspaceId) (node : WorkspaceNode) (allIds : List WorkspaceId)
    (paths : List WorkspacePath) : Prop where
  held : index.nodes[id]? = some node
  subtree : ∀ other, other ∈ allIds ↔ Forest.Within index.above id other
  known : ∀ path, path ∈ paths ↔ ∃ other ∈ allIds, index.computePath other = .ok path

def deleted (index : WorkspaceIndex) (id : WorkspaceId) (node : WorkspaceNode) (allIds : List WorkspaceId)
    (paths : List WorkspacePath) : WorkspaceIndex :=
  (((index.removePaths paths).retainChild node.parentId id).removeNodes allIds).bumpVersion

theorem WellFormed.delete_cases (formed : index.WellFormed) (id : WorkspaceId) :
    index.delete id = (.error (.returned (.workspaceNotFound id)), index) ∨
      ∃ node allIds paths, index.DeletePlan id node allIds paths ∧
        index.delete id = (.ok (), index.deleted id node allIds paths) := by
  unfold delete deletePlan
  rw [formed.initialized]
  cases held : index.nodes[id]? with
  | none => exact .inl rfl
  | some node =>
    obtain ⟨below, hc, _, hb⟩ := formed.collectDescendants id
    obtain ⟨paths, hf, hk⟩ := formed.knownPaths (id :: below)
    refine .inr ⟨node, id :: below, paths, ⟨held, ?_, hk⟩, ?_⟩
    · intro other
      rw [mem_cons, hb, Forest.Within, Relation.reflTransGen_iff_eq_or_transGen]
    · simp only [Bool.not_true, Bool.false_eq_true, ↓reduceIte, hc, bind, Except.bind, hf]
      rfl

variable {paths : List WorkspacePath} {allIds : List WorkspaceId} {node : WorkspaceNode}

theorem WellFormed.deleted (formed : index.WellFormed) (plan : index.DeletePlan id node allIds paths) :
    (index.deleted id node allIds paths).WellFormed := by
  have held : index.above id = some node.parentId := above_eq_some.mpr ⟨node, plan.held, rfl⟩
  have rows := row_retainChild (index.removePaths paths) node.parentId id
  refine ⟨?_, ?_⟩
  · rw [WorkspaceIndex.deleted]
    cases node.parentId with
    | none | some parentId => exact formed.initialized
  · show Forest.Consistent (removeNodes _ allIds).above (removeNodes _ allIds).row
    rw [above_removeNodes, above_retainChild]
    refine formed.consistent.delete held plan.subtree ?_ ?_
    · intro slot ho
      cases slot with
      | none => exact (congrFun rows none).trans (update_apply ..)
      | some upper =>
        refine Eq.trans ?_ ((congrFun rows (some upper)).trans (update_apply ..))
        rw [row, childrenOf_removeNodes, if_neg (ho upper rfl)]
        rfl
    · intro upper hi
      rw [row, childrenOf_removeNodes, if_pos hi]

theorem DeletePlan.above_deleted (plan : index.DeletePlan id node allIds paths) (other : WorkspaceId) :
    ((index.deleted id node allIds paths).above other).isSome ↔
      (index.above other).isSome ∧ ¬ Forest.Within index.above id other := by
  show ((removeNodes _ allIds).above other).isSome ↔ _
  rw [above_removeNodes, above_retainChild, ← plan.subtree]
  simp only
  split_ifs with inside
  · simp [inside]
  · simp only [inside, not_false_eq_true, and_true]
    rfl

end

section

variable {index : WorkspaceIndex} {id : WorkspaceId} {dest : Option WorkspaceId} {name : WorkspaceName}

structure MovePlan (index : WorkspaceIndex) (id : WorkspaceId) (dest : Option WorkspaceId)
    (node : WorkspaceNode) (descendants : List WorkspaceId) : Prop where
  held : index.nodes[id]? = some node
  changed : node.parentId ≠ dest
  free : Forest.Slot index.above dest
  apart : ∀ upper, dest = some upper → ¬ Forest.Within index.above id upper
  subtree : ∀ other, other ∈ descendants ↔ Relation.TransGen (Forest.Link index.above) id other

def relinked (index : WorkspaceIndex) (id : WorkspaceId) (node : WorkspaceNode) (dest : Option WorkspaceId)
    (now : TimestampMs) : WorkspaceIndex :=
  ((index.retainChild node.parentId id).appendChild dest id).setParent id dest now

theorem WellFormed.checkTarget (formed : index.WellFormed) (id : WorkspaceId) (name : WorkspaceName)
    (dest : Option WorkspaceId) : (∃ error, index.checkTarget id name dest = .error (.returned error)) ∨
      index.checkTarget id name dest = .ok () ∧ Forest.Slot index.above dest ∧
        ∀ upper, dest = some upper → ¬ Forest.Within index.above id upper := by
  cases dest with
  | none => exact .inr ⟨rfl, fun _ hi => (by cases hi), fun _ hi => (by cases hi)⟩
  | some parentId =>
    simp only [WorkspaceIndex.checkTarget]
    split_ifs with self
    · exact .inl ⟨_, rfl⟩
    · cases held : index.nodes[parentId]? with
      | none => exact .inl ⟨_, rfl⟩
      | some parent =>
        obtain ⟨found, ran, exact⟩ := formed.isDescendant parentId id (isSome_above.mpr ⟨parent, held⟩)
        simp only [ran, bind, Except.bind]
        split_ifs with cyclic named
        · exact .inl ⟨_, rfl⟩
        · exact .inl ⟨_, rfl⟩
        · refine .inr ⟨rfl, slot_of_get held, ?_⟩
          rintro upper same hw
          cases same
          rcases Relation.reflTransGen_iff_eq_or_transGen.mp hw with he | below
          · exact self he
          · exact cyclic (exact.mpr below)

/-- A move that passes the checks and gives the workspace another parent. -/
def Reparents (index : WorkspaceIndex) (id : WorkspaceId) (dest : Option WorkspaceId) : Prop :=
  ∃ node, index.nodes[id]? = some node ∧ node.parentId ≠ dest ∧
    index.checkTarget id node.name dest = .ok ()

theorem WellFormed.moveWorkspace_cases (formed : index.WellFormed) (id : WorkspaceId)
    (dest : Option WorkspaceId) (now : TimestampMs) : (¬ index.Reparents id dest ∧
      ((∃ error, index.moveWorkspace id dest now = (.error (.returned error), index)) ∨
        index.moveWorkspace id dest now = (.ok (), index.bumpVersion))) ∨
    ∃ node descendants, index.Reparents id dest ∧ index.MovePlan id dest node descendants ∧
      index.moveWorkspace id dest now =
        (index.relinked id node dest now).reindex id node.name dest descendants := by
  unfold moveWorkspace movePlan
  rw [formed.initialized]
  cases held : index.nodes[id]? with
  | none =>
    refine .inl ⟨?_, .inl ⟨_, rfl⟩⟩
    rintro ⟨node, other, _⟩
    cases held.symm.trans other
  | some node =>
    simp only [Bool.not_true, Bool.false_eq_true, ↓reduceIte]
    split_ifs with same
    · refine .inl ⟨?_, .inr rfl⟩
      rintro ⟨_, other, changed, _⟩
      cases held.symm.trans other
      exact changed same
    · rcases formed.checkTarget id node.name dest with ⟨error, hr⟩ | ⟨hp, free, ha⟩
      · refine .inl ⟨?_, .inl ⟨error, by simp only [hr, bind, Except.bind]⟩⟩
        rintro ⟨_, other, _, checked⟩
        cases held.symm.trans other
        cases hr.symm.trans checked
      · obtain ⟨descendants, hc, _, hs⟩ := formed.collectDescendants id
        refine .inr ⟨node, descendants, ⟨node, held, same, hp⟩, ⟨held, same, free, ha, hs⟩, ?_⟩
        simp only [hp, hc, bind, Except.bind]
        have hk : (((index.retainChild node.parentId id).appendChild dest id).above id).isSome := by
          rw [above_appendChild, above_retainChild]
          exact isSome_above.mpr ⟨node, held⟩
        obtain ⟨_, hk⟩ := isSome_above.mp hk
        rw [hk]
        rfl

variable {below : List WorkspaceId} {node : WorkspaceNode}

theorem MovePlan.above_relinked (plan : index.MovePlan id dest node below) (now : TimestampMs) :
    (index.relinked id node dest now).above = update index.above id (some dest) := by
  rw [relinked, above_setParent, above_appendChild, above_retainChild]
  rw [above_appendChild, above_retainChild]
  exact isSome_above.mpr ⟨node, plan.held⟩

theorem MovePlan.row_relinked (plan : index.MovePlan id dest node below) (now : TimestampMs) :
    (index.relinked id node dest now).row = Forest.Consistent.shift index.row id node.parentId dest := by
  have free : Forest.Slot (index.retainChild node.parentId id).above dest := by
    rw [above_retainChild]
    exact plan.free
  rw [relinked, row_setParent, row_appendChild _ _ _ free, row_retainChild, update_of_ne plan.changed.symm]
  rfl

theorem WellFormed.relinked (formed : index.WellFormed) (plan : index.MovePlan id dest node below)
    (now : TimestampMs) : (index.relinked id node dest now).WellFormed := by
  refine ⟨?_, ?_⟩
  · rw [WorkspaceIndex.relinked, setParent]
    cases node.parentId with
    | none | some oldParentId =>
      cases dest with
      | none | some parentId => exact formed.initialized
  · rw [plan.above_relinked, plan.row_relinked]
    exact formed.consistent.move (above_eq_some.mpr ⟨node, plan.held, rfl⟩) plan.changed plan.free plan.apart

theorem indexAlong_returns (nodes : OrderedStore.Store WorkspaceId WorkspaceNode) (below : List WorkspaceId) :
    ∀ id segs pathIndex, Returns (indexAlong nodes id below segs pathIndex).1 := by
  induction below with
  | nil =>
    intro id segs pathIndex
    unfold indexAlong
    cases hb : WorkspacePath.new segs with
    | error err => exact (new_returns segs).transfer hb
    | ok path => exact Returns.ok ()
  | cons next later ih =>
    intro id segs pathIndex
    unfold indexAlong
    cases hb : WorkspacePath.new segs with
    | error err => exact (new_returns segs).transfer hb
    | ok path => exact ih _ _ _

theorem WellFormed.of_nodes (formed : index.WellFormed) {other : WorkspaceIndex} (hn : other.nodes = index.nodes)
    (hr : other.rootIds = index.rootIds) (hi : other.initialized = index.initialized) : other.WellFormed := by
  obtain ⟨otherNodes, otherRoots, pathIndex, ver, started⟩ := other
  simp only at hn hr hi
  subst hn hr hi
  exact ⟨formed.initialized, formed.consistent⟩

theorem reindex_nodes (index : WorkspaceIndex) (id : WorkspaceId) (name : WorkspaceName)
    (dest : Option WorkspaceId) (below : List WorkspaceId) :
    (index.reindex id name dest below).2.nodes = index.nodes ∧
      (index.reindex id name dest below).2.rootIds = index.rootIds ∧
      (index.reindex id name dest below).2.initialized = index.initialized := by
  unfold reindex
  cases index.knownPaths (id :: below) with
  | error err => exact ⟨rfl, rfl, rfl⟩
  | ok oldPaths =>
    simp only
    cases (index.removePaths oldPaths).newSegments name dest with
    | error err => exact ⟨rfl, rfl, rfl⟩
    | ok segs =>
      simp only
      split
      · exact ⟨rfl, rfl, rfl⟩
      · exact ⟨rfl, rfl, rfl⟩

theorem WellFormed.newSegments_returns (formed : index.WellFormed) (name : WorkspaceName)
    (dest : Option WorkspaceId) : Returns (index.newSegments name dest) := by
  cases dest with
  | none => exact Returns.ok [name]
  | some parentId => exact (formed.computePath_returns parentId).map _

theorem WellFormed.reindex (formed : index.WellFormed) (id : WorkspaceId) (name : WorkspaceName)
    (dest : Option WorkspaceId) (below : List WorkspaceId) :
    (index.reindex id name dest below).2.WellFormed ∧ Returns (index.reindex id name dest below).1 := by
  constructor
  · obtain ⟨hn, hr, hi⟩ := reindex_nodes index id name dest below
    exact formed.of_nodes hn hr hi
  · obtain ⟨oldPaths, hf, _⟩ := formed.knownPaths (id :: below)
    have hl : (index.removePaths oldPaths).WellFormed := formed.of_nodes rfl rfl rfl
    have segments := hl.newSegments_returns name dest
    unfold WorkspaceIndex.reindex
    rw [hf]
    simp only
    cases hc : (index.removePaths oldPaths).newSegments name dest with
    | error err => exact segments.transfer hc
    | ok segments =>
      have ha := indexAlong_returns (index.removePaths oldPaths).nodes below id segments
        (index.removePaths oldPaths).pathIndex
      simp only
      split
      · rename_i err pathIndex ran
        rw [ran] at ha
        exact ha
      · exact Returns.ok ()

end

variable {index : WorkspaceIndex}

theorem WellFormed.updateMetadata_cases (formed : index.WellFormed) (id : WorkspaceId)
    (data : WorkspaceMetadata) (now : TimestampMs) :
    (∃ err, err ≠ .diverges ∧ index.updateMetadata id data now = (.error err, index)) ∨
      index.updateMetadata id data now = (.ok (), (index.setMetadata id data now).bumpVersion) := by
  unfold WorkspaceIndex.updateMetadata
  rw [formed.initialized]
  simp only [Bool.not_true, Bool.false_eq_true, ↓reduceIte]
  cases hv : data.validate with
  | error err =>
    refine .inl ⟨err, ?_, rfl⟩
    rintro rfl
    exact validate_returns data hv
  | ok _ =>
    cases held : index.nodes[id]? with
    | none => exact .inl ⟨_, by simp, rfl⟩
    | some node => exact .inr rfl

theorem WellFormed.setMetadata (formed : index.WellFormed) (id : WorkspaceId)
    (data : WorkspaceMetadata) (now : TimestampMs) : (index.setMetadata id data now).WellFormed := by
  refine ⟨formed.initialized, ?_⟩
  rw [WorkspaceIndex.setMetadata, above_modify, row_modify]
  · exact formed.consistent
  · exact fun _ => rfl
  · exact fun _ => rfl

section

variable {index : WorkspaceIndex} {node : WorkspaceNode} {id : WorkspaceId}

theorem WellFormed.verifyPlace (formed : index.WellFormed) (held : index.nodes[id]? = some node) :
    index.verifyPlace id node = .ok () := by
  have mem := (formed.consistent.mem_row node.parentId id).mpr (above_eq_some.mpr ⟨node, held, rfl⟩)
  unfold WorkspaceIndex.verifyPlace
  cases slot : node.parentId with
  | none =>
    rw [slot] at mem
    exact if_pos mem
  | some parentId =>
    rw [slot] at mem
    have hp : index.above id = some (some parentId) := above_eq_some.mpr ⟨node, held, slot⟩
    obtain ⟨parent, hk⟩ := isSome_above.mp (formed.consistent.slot hp parentId rfl)
    rw [row, childrenOf_of_get hk] at mem
    simp only [hk]
    exact if_pos mem

theorem WellFormed.verifyChild (formed : index.WellFormed) {childId : WorkspaceId}
    (held : index.nodes[id]? = some node) (mem : childId ∈ node.children) : index.verifyChild childId = .ok () := by
  rw [← childrenOf_of_get held] at mem
  obtain ⟨child, hk, _⟩ := above_eq_some.mp ((formed.consistent.mem_row (some id) childId).mp mem)
  rw [WorkspaceIndex.verifyChild, hk]

theorem WellFormed.verifyRoot (formed : index.WellFormed) {rootId : WorkspaceId} (mem : rootId ∈ index.rootIds) :
    index.verifyRoot rootId = .ok () := by
  obtain ⟨node, hk, root⟩ := above_eq_some.mp ((formed.consistent.mem_row none rootId).mp mem)
  rw [WorkspaceIndex.verifyRoot, hk]
  simp only [root]

theorem WellFormed.verifyInvariants (formed : index.WellFormed) : index.verifyInvariants = .ok () := by
  unfold WorkspaceIndex.verifyInvariants
  rw [formed.initialized]
  refine bind_unit_eq_ok.mpr ⟨forM_eq_ok.mpr fun entry mem => ?_, ?_⟩
  · have held : index.nodes[entry.1]? = some entry.2 := (OrderedStore.mem_entries index.nodes entry.1 entry.2).mp mem
    refine bind_unit_eq_ok.mpr ⟨formed.verifyPlace held, forM_eq_ok.mpr fun childId hc => ?_⟩
    exact formed.verifyChild held hc
  · exact forM_eq_ok.mpr fun rootId root => formed.verifyRoot root

end

end WorkspaceIndex

open WorkspaceIndex Machine

section

/-- The parent links, the lists of children and the list of roots describe one forest. -/
structure IsForest (index : WorkspaceIndex) : Prop where
  acyclic : Digraph.Acyclic (Forest.Link index.above)
  children : ∀ parentId parent, index.nodes[parentId]? = some parent → ∀ id,
    parent.children.count id = if index.above id = some (some parentId) then 1 else 0
  roots : ∀ id, index.rootIds.count id = if index.above id = some none then 1 else 0
  verified : index.verifyInvariants = .ok ()
  walk : ∀ id, ∃ found, index.collectDescendants id = .ok found ∧ found.Nodup ∧
    ∀ other, other ∈ found ↔ Relation.TransGen (Forest.Link index.above) id other

theorem WorkspaceIndex.WellFormed.isForest {index : WorkspaceIndex} (formed : index.WellFormed) : IsForest index where
  acyclic := formed.consistent.acyclic
  children parentId parent held id := by
    rw [← childrenOf_of_get held]
    exact formed.consistent.count_row (some parentId) id
  roots id := formed.consistent.count_row none id
  verified := formed.verifyInvariants
  walk := formed.collectDescendants

theorem wellFormed_new : WorkspaceIndex.new.WellFormed where
  initialized := rfl
  consistent := by
    have hn (id : WorkspaceId) : WorkspaceIndex.new.above id = none := by
      rw [above, WorkspaceIndex.new]
      simp
    have he (slot : Option WorkspaceId) : WorkspaceIndex.new.row slot = [] := by
      cases slot with
      | none => rfl
      | some id =>
        rw [row, childrenOf, WorkspaceIndex.new]
        simp
    refine ⟨fun slot => by simp [he], fun slot node => by simp [he, hn], fun node held => ?_⟩
    rw [hn] at held
    cases held

/-- The call returns, and if it is a `delete` that succeeds it has removed the node and what is below it. -/
def Prunes (event : Event) : Prop := event.reply ≠ .error .diverges ∧
    ∀ id, event.call = .delete id → (∃ value, event.reply = .ok value) → ∀ other, (event.after.above other).isSome ↔
        (event.before.above other).isSome ∧ ¬ Forest.Within event.before.above id other

variable {index : WorkspaceIndex} {call : Call}

theorem step_wellFormed (formed : index.WellFormed) (hf : Fresh index call) :
    (step index call).2.WellFormed ∧ Returns (step index call).1 := by
  cases call with
  | insert parentId name data now fresh =>
    simp only [step]
    rcases insert_cases index parentId name data now fresh with ⟨err, hp, ran⟩ | ⟨path, hp, ran⟩
    · rw [ran]
      exact ⟨formed, (formed.insertPath_returns.transfer hp).map _⟩
    · rw [ran]
      exact ⟨formed.inserted hf (insertPath_ok hp).1 now, Returns.ok _⟩
  | delete id =>
    simp only [step, finished]
    rcases formed.delete_cases id with ran | ⟨node, allIds, paths, plan, ran⟩
    · rw [ran]
      exact ⟨formed, Returns.error _⟩
    · rw [ran]
      exact ⟨formed.deleted plan, Returns.ok _⟩
  | moveWorkspace id dest now =>
    simp only [step, finished]
    rcases formed.moveWorkspace_cases id dest now with
      ⟨_, ⟨error, ran⟩ | ran⟩ | ⟨node, below, _, plan, ran⟩
    · rw [ran]
      exact ⟨formed, Returns.error _⟩
    · rw [ran]
      exact ⟨formed.of_nodes rfl rfl rfl, Returns.ok _⟩
    · rw [ran]
      obtain ⟨ha, he⟩ := (formed.relinked plan now).reindex id node.name dest below
      exact ⟨ha, he.map _⟩
  | updateMetadata id data now =>
    simp only [step, finished]
    rcases formed.updateMetadata_cases id data now with ⟨err, hr, ran⟩ | ran
    · rw [ran]
      exact ⟨formed, fun same => hr (Except.error.inj same)⟩
    · rw [ran]
      exact ⟨(formed.setMetadata id data now).of_nodes rfl rfl rfl, Returns.ok _⟩

theorem step_prunes (formed : index.WellFormed) (hf : Fresh index call) : Prunes (event step index call) := by
  refine ⟨(step_wellFormed formed hf).2, ?_⟩
  rintro id rfl ⟨value, hs⟩ other
  simp only [event, step, finished] at hs ⊢
  rcases formed.delete_cases id with ran | ⟨node, allIds, paths, plan, ran⟩
  · rw [ran] at hs
    cases hs
  · rw [ran]
    exact plan.above_deleted other

/-- After every run the hierarchy is a forest, all calls have returned, and each `delete` has removed a subtree. -/
theorem hierarchy_is_forest (calls : List Call) (fresh : Guarded step Fresh .new calls) :
    IsForest (final step .new calls) ∧ ∀ event ∈ trace step .new calls, Prunes event := by
  have hi := history_invariant step Fresh
    (fun history index => index.WellFormed ∧ ∀ event ∈ history, Prunes event) .new ⟨wellFormed_new, by simp⟩
    (fun history index call he fresh => ?_) calls fresh
  · exact ⟨hi.1.isForest, hi.2⟩
  · refine ⟨(step_wellFormed he.1 fresh).1, forall_mem_append.mpr ⟨he.2, ?_⟩⟩
    exact forall_mem_singleton.mpr (step_prunes he.1 fresh)

end

section Sample

def sampleMetadata : WorkspaceMetadata := ⟨∅⟩

def nameA : WorkspaceName := ⟨"a", by decide +kernel⟩

def nameB : WorkspaceName := ⟨"b", by decide +kernel⟩

def nameC : WorkspaceName := ⟨"c", by decide +kernel⟩

def sampleCalls : List Call := [.insert none nameA sampleMetadata 1 1, .insert none nameB sampleMetadata 2 2,
    .insert (some 1) nameC sampleMetadata 3 3, .moveWorkspace 3 (some 2) 4, .delete 2]

def sampleIndex (calls : Nat) : WorkspaceIndex := final step .new (sampleCalls.take calls)

theorem sampleCalls_fresh : Guarded step Fresh .new sampleCalls := by
  refine ⟨?_, ?_, ?_, trivial, trivial, trivial⟩
  · exact Option.isNone_iff_eq_none.mp (by decide +kernel)
  · exact Option.isNone_iff_eq_none.mp (by decide +kernel)
  · exact Option.isNone_iff_eq_none.mp (by decide +kernel)

theorem hierarchy_is_forest_sample : Guarded step Fresh .new sampleCalls ∧ IsForest (final step .new sampleCalls) ∧
    (sampleIndex 4).rootIds = [1, 2] ∧ (sampleIndex 4).childrenOf 2 = [3] ∧ (sampleIndex 5).nodes.keys = [1] :=
  ⟨sampleCalls_fresh, (hierarchy_is_forest sampleCalls sampleCalls_fresh).1, by decide +kernel, by decide +kernel,
    by decide +kernel⟩

end Sample

end Veloxide.Workspace
