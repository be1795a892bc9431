import Veloxide.Library.Execution
import Veloxide.Library.Forest
import Veloxide.Library.Keyspace
import Veloxide.Types.Envelope

namespace Veloxide.Workspace

abbrev WorkspaceId := BitVec 128

def isNameChar (c : Char) : Bool := c.isLower || c.isDigit || c == '-'

def WorkspaceName.validate (input : String) : Except ParseError Unit := do
  if input = "" then throw (.empty "WorkspaceName")
  if 64 < input.utf8ByteSize then throw (.exceedsMaxLength "WorkspaceName" 64 input.utf8ByteSize)
  requireCharacters "WorkspaceName" isNameChar input
  if input.toList.head? = some '-' then throw (.boundaryViolation "WorkspaceName" "must not start with hyphen")
  if input.toList.getLast? = some '-' then throw (.boundaryViolation "WorkspaceName" "must not end with hyphen")
  if EventMetadata.contains input.toList "--".toList then throw (.consecutiveHyphens "WorkspaceName")

abbrev WorkspaceName := Text WorkspaceName.validate

def maxDepth : Nat := 16

structure WorkspacePath where
  segments : List WorkspaceName
  bounded : segments.length ≤ maxDepth
deriving DecidableEq

@[ext] theorem WorkspacePath.ext {left right : WorkspacePath} (same : left.segments = right.segments) : left = right := by
  cases left
  cases right
  cases same
  rfl

instance : Ord WorkspacePath := ⟨fun left right => compare left.segments right.segments⟩

instance : Std.TransOrd WorkspacePath where
  eq_swap {left right} := (Std.OrientedOrd.eq_swap : compare left.segments right.segments = _)
  isLE_trans {left middle right} := (Std.TransCmp.isLE_trans :
    (compare left.segments middle.segments).isLE → (compare middle.segments right.segments).isLE → _)

instance : Std.LawfulEqOrd WorkspacePath where
  compare_self := Std.ReflCmp.compare_self
  eq_of_compare same := WorkspacePath.ext (Std.LawfulEqOrd.eq_of_compare same)

inductive WorkspaceIndexError
  | workspaceNotFound (id : WorkspaceId)
  | pathNotFound (path : WorkspacePath)
  | parentNotFound (id : WorkspaceId)
  | cyclicMoveDetected (workspaceId attemptedParent : WorkspaceId)
  | duplicatePath (path : WorkspacePath)
  | duplicateName (parentId : WorkspaceId) (name : WorkspaceName)
  | pathTooDeep (maxDepth actualDepth : UInt32)
  | metadataKeyTooLong (maxLength actualLength : Nat)
  | metadataValueTooLong (maxLength actualLength : Nat)
  | tooManyMetadataEntries (max actual : Nat)
  | indexNotInitialized
deriving DecidableEq

/-- A call that is not `Ok` returns an error, or one of its loops does not end. -/
inductive Failure
  | returned (error : WorkspaceIndexError)
  | diverges
deriving DecidableEq

namespace WorkspacePath

def new (segments : List WorkspaceName) : Except Failure WorkspacePath :=
  if bounded : segments.length ≤ maxDepth then .ok ⟨segments, bounded⟩
  else .error (.returned (.pathTooDeep 16 (.ofNat segments.length)))

def single (name : WorkspaceName) : Except Failure WorkspacePath := new [name]

def child (path : WorkspacePath) (name : WorkspaceName) : Except Failure WorkspacePath := new (path.segments ++ [name])

variable {segments : List WorkspaceName}

theorem new_eq_ok {path : WorkspacePath} : new segments = .ok path ↔ path.segments = segments := by
  unfold new
  constructor
  · intro hb
    split_ifs at hb
    cases hb
    rfl
  · rintro rfl
    rw [dif_pos path.bounded]

theorem new_error {err : Failure} (hr : new segments = .error err) : err ≠ .diverges := by
  unfold new at hr
  split_ifs at hr
  cases hr
  simp

end WorkspacePath

structure WorkspaceMetadata where
  entries : OrderedStore.Store String String

def WorkspaceMetadata.validateEntry (entry : String × String) : Except Failure Unit :=
  if 128 < entry.1.utf8ByteSize then .error (.returned (.metadataKeyTooLong 128 entry.1.utf8ByteSize))
  else if 4096 < entry.2.utf8ByteSize then .error (.returned (.metadataValueTooLong 4096 entry.2.utf8ByteSize))
  else .ok ()

def WorkspaceMetadata.validate (metadata : WorkspaceMetadata) : Except Failure Unit :=
  if 64 < metadata.entries.size then .error (.returned (.tooManyMetadataEntries 64 metadata.entries.size))
  else metadata.entries.toList.forM validateEntry

structure WorkspaceNode where
  id : WorkspaceId
  name : WorkspaceName
  parentId : Option WorkspaceId
  children : List WorkspaceId
  metadata : WorkspaceMetadata
  createdAt : TimestampMs
  updatedAt : TimestampMs

variable (id : WorkspaceId)

namespace WorkspaceNode

def newRoot (name : WorkspaceName) (metadata : WorkspaceMetadata) (now : TimestampMs) : WorkspaceNode :=
  ⟨id, name, none, [], metadata, now, now⟩

def newChild (name : WorkspaceName) (parentId : WorkspaceId) (metadata : WorkspaceMetadata) (now : TimestampMs) :
    WorkspaceNode :=
  ⟨id, name, some parentId, [], metadata, now, now⟩

end WorkspaceNode

structure WorkspaceIndex where
  nodes : OrderedStore.Store WorkspaceId WorkspaceNode
  rootIds : List WorkspaceId
  pathIndex : OrderedStore.Store WorkspacePath WorkspaceId
  version : UInt64
  initialized : Bool

variable (index : WorkspaceIndex)

namespace WorkspaceIndex

def new : WorkspaceIndex := ⟨∅, [], ∅, 0, true⟩

def segmentsAbove (nodes : OrderedStore.Store WorkspaceId WorkspaceNode) :
    Nat → Option WorkspaceId → List WorkspaceName → Except Failure (List WorkspaceName)
  | _, none, segments => .ok segments
  | 0, some _, _ => .error .diverges
  | fuel + 1, some parentId, segments =>
    match nodes[parentId]? with
    | none => .error (.returned (.workspaceNotFound parentId))
    | some parent => segmentsAbove nodes fuel parent.parentId (parent.name :: segments)

def computePath (id : WorkspaceId) : Except Failure WorkspacePath := match index.nodes[id]? with
  | none => .error (.returned (.workspaceNotFound id))
  | some node => segmentsAbove index.nodes index.nodes.size node.parentId [node.name] >>= WorkspacePath.new

def hasAncestor (nodes : OrderedStore.Store WorkspaceId WorkspaceNode) (ancestorId : WorkspaceId) :
    Nat → Option WorkspaceNode → Except Failure Bool
  | _, none => .ok false
  | 0, some _ => .error .diverges
  | fuel + 1, some node =>
    if node.parentId = some ancestorId then .ok true
    else hasAncestor nodes ancestorId fuel (node.parentId.bind fun parentId => nodes[parentId]?)

def isDescendant (id ancestorId : WorkspaceId) : Except Failure Bool :=
  hasAncestor index.nodes ancestorId index.nodes.size index.nodes[id]?

def childrenOf (id : WorkspaceId) : List WorkspaceId := (index.nodes[id]?.map WorkspaceNode.children).getD []

def collectDescendants (id : WorkspaceId) : Except Failure (List WorkspaceId) :=
  match Forest.collect index.childrenOf index.nodes.size (index.childrenOf id).reverse with
  | some result => .ok result
  | none => .error .diverges

def knownPaths (index : WorkspaceIndex) : List WorkspaceId → Except Failure (List WorkspacePath)
  | [] => .ok []
  | id :: ids =>
    match index.computePath id with
    | .ok path => (index.knownPaths ids).map (path :: ·)
    | .error (.returned _) => index.knownPaths ids
    | .error .diverges => .error .diverges

variable (slot : Option WorkspaceId)

def appendChild (id : WorkspaceId) : WorkspaceIndex := match slot with
  | some parentId => { index with
      nodes := index.nodes.modify parentId fun node => { node with children := node.children ++ [id] } }
  | none => { index with rootIds := index.rootIds ++ [id] }

def retainChild (id : WorkspaceId) : WorkspaceIndex := match slot with
  | some parentId => { index with
      nodes := index.nodes.modify parentId fun node => { node with children := node.children.filter (· ≠ id) } }
  | none => { index with rootIds := index.rootIds.filter (· ≠ id) }

def bumpVersion : WorkspaceIndex := { index with version := index.version + 1 }

def slotPath (name : WorkspaceName) : Option WorkspaceId → Except Failure WorkspacePath
  | some parentId =>
    match index.nodes[parentId]? with
    | none => .error (.returned (.parentNotFound parentId))
    | some _ => index.computePath parentId >>= fun parentPath => parentPath.child name
  | none => WorkspacePath.single name

def insertPath (parentId : Option WorkspaceId) (name : WorkspaceName) (metadata : WorkspaceMetadata) :
    Except Failure WorkspacePath :=
  if !index.initialized then .error (.returned .indexNotInitialized)
  else do
    metadata.validate
    let path ← index.slotPath name parentId
    match index.pathIndex[path]? with
    | some _ => .error (.returned (.duplicatePath path))
    | none => .ok path

def newNode (name : WorkspaceName) (metadata : WorkspaceMetadata) (now : TimestampMs) : Option WorkspaceId → WorkspaceNode
  | some parentId => WorkspaceNode.newChild id name parentId metadata now
  | none => WorkspaceNode.newRoot id name metadata now

def insert (index : WorkspaceIndex) (parentId : Option WorkspaceId) (name : WorkspaceName)
    (metadata : WorkspaceMetadata) (now : TimestampMs) (id : WorkspaceId) :
    Except Failure WorkspaceId × WorkspaceIndex :=
  match index.insertPath parentId name metadata with
  | .error failure => (.error failure, index)
  | .ok path =>
    let stored := { index with
      nodes := index.nodes.insert id (newNode id name metadata now parentId)
      pathIndex := index.pathIndex.insert path id }
    (.ok id, (stored.appendChild parentId id).bumpVersion)

def deletePlan (id : WorkspaceId) : Except Failure (WorkspaceNode × List WorkspaceId × List WorkspacePath) :=
  if !index.initialized then .error (.returned .indexNotInitialized)
  else
    match index.nodes[id]? with
    | none => .error (.returned (.workspaceNotFound id))
    | some node => do
      let descendants ← index.collectDescendants id
      let paths ← index.knownPaths (id :: descendants)
      .ok (node, id :: descendants, paths)

def removePaths (paths : List WorkspacePath) : WorkspaceIndex :=
  { index with pathIndex := paths.foldl (fun pathIndex path => pathIndex.erase path) index.pathIndex }

def removeNodes (ids : List WorkspaceId) : WorkspaceIndex :=
  { index with nodes := ids.foldl (fun nodes id => nodes.erase id) index.nodes }

def delete (id : WorkspaceId) : Except Failure Unit × WorkspaceIndex := match index.deletePlan id with
  | .error failure => (.error failure, index)
  | .ok (node, allIds, paths) =>
    (.ok (), (((index.removePaths paths).retainChild node.parentId id).removeNodes allIds).bumpVersion)

def hasChildNamed (parent : WorkspaceNode) (name : WorkspaceName) : Bool := parent.children.any fun childId =>
    match index.nodes[childId]? with
    | some child => child.name = name
    | none => false

def checkTarget (id : WorkspaceId) (name : WorkspaceName) : Option WorkspaceId → Except Failure Unit
  | none => .ok ()
  | some parentId =>
    if parentId = id then .error (.returned (.cyclicMoveDetected id parentId))
    else
      match index.nodes[parentId]? with
      | none => .error (.returned (.parentNotFound parentId))
      | some parent => do
        let descendant ← index.isDescendant parentId id
        if descendant then .error (.returned (.cyclicMoveDetected id parentId))
        else if index.hasChildNamed parent name then .error (.returned (.duplicateName parentId name))
        else .ok ()

/-- What `move_workspace` works on, the node and its descendants: none when the parent stays the same. -/
def movePlan (id : WorkspaceId) (newParentId : Option WorkspaceId) :
    Except Failure (Option (WorkspaceNode × List WorkspaceId)) :=
  if !index.initialized then .error (.returned .indexNotInitialized)
  else
    match index.nodes[id]? with
    | none => .error (.returned (.workspaceNotFound id))
    | some node =>
      if node.parentId = newParentId then .ok none
      else do
        index.checkTarget id node.name newParentId
        let descendants ← index.collectDescendants id
        .ok (some (node, descendants))

def setParent (id : WorkspaceId) (newParentId : Option WorkspaceId) (now : TimestampMs) : WorkspaceIndex :=
  { index with nodes := index.nodes.modify id fun node => { node with parentId := newParentId, updatedAt := now } }

def newSegments (name : WorkspaceName) : Option WorkspaceId → Except Failure (List WorkspaceName)
  | some parentId => (index.computePath parentId).map fun parentPath => parentPath.segments ++ [name]
  | none => .ok [name]

def firstChildName (nodes : OrderedStore.Store WorkspaceId WorkspaceNode) (id : WorkspaceId) : List WorkspaceName :=
  match nodes[id]? with
  | some node =>
    match node.children with
    | childId :: _ =>
      match nodes[childId]? with
      | some child => [child.name]
      | none => []
    | [] => []
  | none => []

def indexAlong (nodes : OrderedStore.Store WorkspaceId WorkspaceNode) :
    WorkspaceId → List WorkspaceId → List WorkspaceName → OrderedStore.Store WorkspacePath WorkspaceId →
      Except Failure Unit × OrderedStore.Store WorkspacePath WorkspaceId
  | id, descendants, segments, pathIndex =>
    match WorkspacePath.new segments with
    | .error failure => (.error failure, pathIndex)
    | .ok path =>
      match descendants with
      | [] => (.ok (), pathIndex.insert path id)
      | next :: later => indexAlong nodes next later (segments ++ firstChildName nodes next) (pathIndex.insert path id)

def reindex (id : WorkspaceId) (name : WorkspaceName) (newParentId : Option WorkspaceId)
    (descendants : List WorkspaceId) : Except Failure Unit × WorkspaceIndex :=
  match index.knownPaths (id :: descendants) with
  | .error failure => (.error failure, index)
  | .ok oldPaths =>
    let cleared := index.removePaths oldPaths
    match cleared.newSegments name newParentId with
    | .error failure => (.error failure, cleared)
    | .ok segments =>
      match indexAlong cleared.nodes id descendants segments cleared.pathIndex with
      | (.error failure, pathIndex) => (.error failure, { cleared with pathIndex })
      | (.ok (), pathIndex) => (.ok (), bumpVersion { cleared with pathIndex })

def moveWorkspace (id : WorkspaceId) (newParentId : Option WorkspaceId) (now : TimestampMs) :
    Except Failure Unit × WorkspaceIndex :=
  match index.movePlan id newParentId with
  | .error failure => (.error failure, index)
  | .ok none => (.ok (), index.bumpVersion)
  | .ok (some (node, descendants)) =>
    let relinked := (index.retainChild node.parentId id).appendChild newParentId id
    match relinked.nodes[id]? with
    | none => (.error (.returned (.workspaceNotFound id)), relinked)
    | some _ => (relinked.setParent id newParentId now).reindex id node.name newParentId descendants

def setMetadata (id : WorkspaceId) (metadata : WorkspaceMetadata) (now : TimestampMs) : WorkspaceIndex :=
  { index with nodes := index.nodes.modify id fun node => { node with metadata, updatedAt := now } }

def updateMetadata (id : WorkspaceId) (metadata : WorkspaceMetadata) (now : TimestampMs) :
    Except Failure Unit × WorkspaceIndex :=
  if !index.initialized then (.error (.returned .indexNotInitialized), index)
  else
    match metadata.validate with
    | .error failure => (.error failure, index)
    | .ok () =>
      match index.nodes[id]? with
      | none => (.error (.returned (.workspaceNotFound id)), index)
      | some _ => (.ok (), (index.setMetadata id metadata now).bumpVersion)

def findByPath (path : WorkspacePath) : Except Failure WorkspaceId := match index.pathIndex[path]? with
  | some id => .ok id
  | none => .error (.returned (.pathNotFound path))

def verifyPlace (id : WorkspaceId) (node : WorkspaceNode) : Except Failure Unit := match node.parentId with
  | none =>
    if id ∈ index.rootIds then .ok ()
    else WorkspacePath.single node.name >>= fun path => .error (.returned (.duplicatePath path))
  | some parentId =>
    match index.nodes[parentId]? with
    | none => .error (.returned (.parentNotFound parentId))
    | some parent =>
      if id ∈ parent.children then .ok ()
      else index.computePath id >>= fun path => .error (.returned (.duplicatePath path))

def verifyChild (childId : WorkspaceId) : Except Failure Unit := match index.nodes[childId]? with
  | none => .error (.returned (.workspaceNotFound childId))
  | some _ => .ok ()

def verifyRoot (rootId : WorkspaceId) : Except Failure Unit := match index.nodes[rootId]? with
  | none => .error (.returned (.workspaceNotFound rootId))
  | some node =>
    match node.parentId with
    | none => .ok ()
    | some _ => WorkspacePath.single node.name >>= fun path => .error (.returned (.duplicatePath path))

def verifyInvariants : Except Failure Unit := if !index.initialized then .error (.returned .indexNotInitialized)
  else do
    index.nodes.toList.forM fun entry => do
      index.verifyPlace entry.1 entry.2
      entry.2.children.forM index.verifyChild
    index.rootIds.forM index.verifyRoot

end WorkspaceIndex

inductive Call
  | insert (parentId : Option WorkspaceId) (name : WorkspaceName) (metadata : WorkspaceMetadata) (now : TimestampMs)
      (generated : WorkspaceId)
  | delete (id : WorkspaceId)
  | moveWorkspace (id : WorkspaceId) (newParentId : Option WorkspaceId) (now : TimestampMs)
  | updateMetadata (id : WorkspaceId) (metadata : WorkspaceMetadata) (now : TimestampMs)

abbrev Reply := Except Failure (Option WorkspaceId)

def finished (outcome : Except Failure Unit × WorkspaceIndex) : Reply × WorkspaceIndex :=
  (outcome.1.map fun _ => none, outcome.2)

def step : Call → Reply × WorkspaceIndex
  | .insert parentId name metadata now generated =>
    let outcome := index.insert parentId name metadata now generated
    (outcome.1.map some, outcome.2)
  | .delete id => finished (index.delete id)
  | .moveWorkspace id newParentId now => finished (index.moveWorkspace id newParentId now)
  | .updateMetadata id metadata now => finished (index.updateMetadata id metadata now)

abbrev Event := Machine.Event WorkspaceIndex Call Reply

def Fresh : Call → Prop
  | .insert _ _ _ _ generated => index.nodes[generated]? = none
  | _ => True

end Veloxide.Workspace
