import Veloxide.Library.Bytes
import Veloxide.Library.HashTree

namespace Veloxide.Merkle

open ByteCodec List Function

section

variable {Digest : Type}

structure ChunkInfo (Digest : Type) where
  offset : Nat
  size : Nat
  checksum : Digest

/-- `current` is what the hasher of the current chunk has been given. -/
structure ChunkedHasher (Digest : Type) where
  chunkSize : Nat
  currentOffset : Nat
  current : Bytes
  chunks : List (ChunkInfo Digest)
  positive : 0 < chunkSize

structure MerkleNode (Digest : Type) where
  hash : Digest
  offset : Nat
  size : Nat

structure MerkleTree (Digest : Type) where
  rootHash : Digest
  leafHashes : List Digest
  chunkSize : Nat
  levels : List (List (MerkleNode Digest))

structure MerkleProof (Digest : Type) where
  leafHash : Digest
  leafIndex : Nat
  proofHashes : List (Digest × Bool)
  chunkSize : Nat

/-- The hash function, and its values as the bytes that are hashed again. -/
structure Hashing (Digest : Type) where
  hash : Bytes → Digest
  toBytes : Digest → Bytes
  zero : Digest

variable (hashing : Hashing Digest)

namespace ChunkedHasher

def new (chunkSize : Nat) (positive : 0 < chunkSize) : ChunkedHasher Digest := ⟨chunkSize, 0, [], [], positive⟩

variable (hasher : ChunkedHasher Digest) (data : Bytes)

def bytesToProcess : Nat := min (hasher.chunkSize - hasher.currentOffset % hasher.chunkSize) data.length

def advance : ChunkedHasher Digest := let fed := hasher.current ++ data.take (hasher.bytesToProcess data)
  let currentOffset := hasher.currentOffset + hasher.bytesToProcess data
  if currentOffset % hasher.chunkSize = 0 then
    { hasher with
      currentOffset := currentOffset
      current := []
      chunks := hasher.chunks ++ [⟨currentOffset - hasher.chunkSize, hasher.chunkSize, hashing.hash fed⟩] }
  else { hasher with currentOffset := currentOffset, current := fed }

theorem bytesToProcess_pos {data : Bytes} (hn : data ≠ []) : 0 < hasher.bytesToProcess data := by
  have room := Nat.mod_lt hasher.currentOffset hasher.positive
  have hl := length_pos_of_ne_nil hn
  rw [bytesToProcess]
  omega

def update (hasher : ChunkedHasher Digest) (data : Bytes) : ChunkedHasher Digest := if data = [] then hasher
  else update (hasher.advance hashing data) (data.drop (hasher.bytesToProcess data))
termination_by data.length
decreasing_by
  rename_i nonempty
  have progress := hasher.bytesToProcess_pos nonempty
  have length := length_pos_of_ne_nil nonempty
  rw [length_drop]
  omega

def finalize : List (ChunkInfo Digest) := if hasher.currentOffset % hasher.chunkSize ≠ 0 ∨ hasher.currentOffset = 0 then
    let remaining := hasher.currentOffset % hasher.chunkSize
    let size := if remaining = 0 then hasher.chunkSize else remaining
    hasher.chunks ++ [⟨hasher.currentOffset - size, size, hashing.hash hasher.current⟩]
  else hasher.chunks

end ChunkedHasher

def combine (left right : Digest) : Digest := hashing.hash (hashing.toBytes left ++ hashing.toBytes right)

def pairAndHash : List (MerkleNode Digest) → List (MerkleNode Digest)
  | [] => []
  | [last] => [⟨combine hashing last.hash last.hash, last.offset, last.size * 2⟩]
  | left :: right :: rest =>
    ⟨combine hashing left.hash right.hash, left.offset, left.size + right.size⟩ :: pairAndHash rest

theorem map_hash_pairAndHash (nodes : List (MerkleNode Digest)) : (pairAndHash hashing nodes).map MerkleNode.hash =
    HashTree.pairUp (combine hashing) (nodes.map MerkleNode.hash) := by
  induction nodes using pairAndHash.induct with
  | case1 => simp [pairAndHash, HashTree.pairUp]
  | case2 last => simp [pairAndHash, HashTree.pairUp]
  | case3 left right rest ih => simp [pairAndHash, HashTree.pairUp, ih]

def buildLevels (level : List (MerkleNode Digest)) : List (List (MerkleNode Digest)) :=
  if 1 < level.length then level :: buildLevels (pairAndHash hashing level) else [level]
termination_by level.length
decreasing_by
  have length := congrArg List.length (map_hash_pairAndHash hashing level)
  rw [HashTree.length_pairUp, length_map, length_map] at length
  omega

def new (data : Bytes) (chunkSize : Nat) (positive : 0 < chunkSize) : MerkleTree Digest :=
  if data = [] then ⟨hashing.zero, [], chunkSize, []⟩
  else
    let chunks := ((ChunkedHasher.new chunkSize positive).update hashing data).finalize hashing
    let leafNodes := chunks.map fun chunk => ⟨chunk.checksum, chunk.offset, chunk.size⟩
    let levels := buildLevels hashing leafNodes
    let rootHash := ((levels.getLast?.bind List.head?).map MerkleNode.hash).getD hashing.zero
    ⟨rootHash, chunks.map ChunkInfo.checksum, chunkSize, levels⟩

def siblings : List (List (MerkleNode Digest)) → Nat → Option (List (Digest × Bool))
  | [], _ => some []
  | level :: above, currentIndex => do
    let isLeft := currentIndex % 2 = 0
    let siblingIndex := if isLeft then currentIndex + 1 else currentIndex - 1
    let node ← if siblingIndex < level.length then level[siblingIndex]? else level[currentIndex]?
    let rest ← siblings above (currentIndex / 2)
    return (node.hash, isLeft) :: rest

def MerkleTree.proof (tree : MerkleTree Digest) (leafIndex : Nat) : Option (MerkleProof Digest) :=
  if tree.leafHashes.length ≤ leafIndex then none
  else do
    let proofHashes ← siblings tree.levels.dropLast leafIndex
    let leafHash ← tree.leafHashes[leafIndex]?
    return ⟨leafHash, leafIndex, proofHashes, tree.chunkSize⟩

def MerkleProof.verify [DecidableEq Digest] (proof : MerkleProof Digest) (expectedRoot : Digest) : Bool :=
  proof.proofHashes.foldl (fun currentHash sibling =>
    if sibling.2 then combine hashing currentHash sibling.1 else combine hashing sibling.1 currentHash)
    proof.leafHash = expectedRoot

end

section

variable {Digest : Type} (hashing : Hashing Digest)

theorem map_hash_buildLevels (level : List (MerkleNode Digest)) :
    (buildLevels hashing level).map (List.map MerkleNode.hash) =
      HashTree.levels (combine hashing) (level.map MerkleNode.hash) := by
  induction size : level.length using Nat.strongRecOn generalizing level with
  | ind count ih =>
    rw [buildLevels]
    split_ifs with more
    · have hl := congrArg List.length (map_hash_pairAndHash hashing level)
      rw [HashTree.length_pairUp, length_map, length_map] at hl
      rw [HashTree.levels_of_one_lt _ (by rwa [length_map]), ← map_hash_pairAndHash, map_cons,
        ih (pairAndHash hashing level).length (by omega) _ rfl]
    · rw [HashTree.levels_of_le_one _ (by rw [length_map]; omega)]
      rfl

theorem siblings_eq_path (levels : List (List (MerkleNode Digest))) (index : Nat) :
    siblings levels index = HashTree.path (levels.map (List.map MerkleNode.hash)) index := by
  induction levels generalizing index with
  | nil => rfl
  | cons level above ih =>
    have hp : HashTree.sibling (level.map MerkleNode.hash) index =
        (if HashTree.siblingIndex index < level.length then level[HashTree.siblingIndex index]?
          else level[index]?).map MerkleNode.hash := by
      rw [HashTree.sibling, length_map, getElem?_map, getElem?_map]
      split_ifs
      all_goals rfl
    rw [map_cons, HashTree.path, siblings, ih, hp, HashTree.siblingIndex]
    simp only [Option.bind_eq_bind, Option.bind_map]
    by_cases hi : (if index % 2 = 0 then index + 1 else index - 1) < level.length
    · rw [if_pos hi, if_pos hi]
      rfl
    · rw [if_neg hi, if_neg hi]
      rfl

variable {hashing} {data : Bytes} {chunkSize : Nat} {positive : 0 < chunkSize}

theorem leafHashes_levels (hn : data ≠ []) : (new hashing data chunkSize positive).levels.map (List.map MerkleNode.hash) =
    HashTree.levels (combine hashing) (new hashing data chunkSize positive).leafHashes := by
  rw [new, if_neg hn]
  simp only [map_hash_buildLevels, map_map]
  rfl

theorem rootHash_new (hn : data ≠ []) : (new hashing data chunkSize positive).rootHash =
    (HashTree.root (combine hashing) (new hashing data chunkSize positive).leafHashes).getD hashing.zero := by
  have top : ∀ levels : List (List (MerkleNode Digest)), (levels.getLast?.bind List.head?).map MerkleNode.hash =
      (levels.map (List.map MerkleNode.hash)).getLast?.bind List.head? := by
    intro levels
    rw [getLast?_map]
    cases levels.getLast? with
    | none => rfl
    | some level => exact head?_map.symm
  rw [HashTree.root, ← leafHashes_levels hn, ← top, new, if_neg hn]

end

variable {other : Bytes}

section

def pieces (size : Nat) (data : Bytes) : List Bytes :=
  if 0 < size ∧ data ≠ [] then data.take size :: pieces size (data.drop size) else []
termination_by data.length
decreasing_by
  rename_i cut
  have length := length_pos_of_ne_nil cut.2
  rw [length_drop]
  omega

variable {size : Nat} (positive : 0 < size)

theorem pieces_nil : pieces size [] = [] := by
  rw [pieces, if_neg (fun cut => cut.2 rfl)]

include positive

variable {data : Bytes}

theorem pieces_of_ne_nil (hn : data ≠ []) : pieces size data = data.take size :: pieces size (data.drop size) := by
  rw [pieces, if_pos ⟨positive, hn⟩]

theorem pieces_append {piece : Bytes} (hl : piece.length = size) (rest : Bytes) :
    pieces size (piece ++ rest) = piece :: pieces size rest := by
  have hn : piece ++ rest ≠ [] := by
    intro he
    rw [(append_eq_nil_iff.mp he).1, length_nil] at hl
    omega
  rw [pieces_of_ne_nil positive hn, take_left' hl, drop_left' hl]

theorem flatten_pieces (data : Bytes) : (pieces size data).flatten = data := by
  induction total : data.length using Nat.strongRecOn generalizing data with
  | ind count ih =>
    by_cases he : data = []
    · rw [he, pieces_nil]
      rfl
    · have hl := length_pos_of_ne_nil he
      have hs : (data.drop size).length < count := by
        rw [length_drop]
        omega
      rw [pieces_of_ne_nil positive he, flatten_cons, ih _ hs _ rfl, take_append_drop]

theorem length_pieces_congr (same : data.length = other.length) :
    (pieces size data).length = (pieces size other).length := by
  induction total : data.length using Nat.strongRecOn generalizing data other with
  | ind count ih =>
    by_cases he : data = []
    · rw [he, length_nil] at same
      rw [he, length_eq_zero_iff.mp same.symm]
    · have length := length_pos_of_ne_nil he
      have hn : other ≠ [] := ne_nil_of_length_pos (by omega)
      have hs : (data.drop size).length < count := by
        rw [length_drop]
        omega
      have left : (data.drop size).length = (other.drop size).length := by
        rw [length_drop, length_drop, same]
      rw [pieces_of_ne_nil positive he, pieces_of_ne_nil positive hn, length_cons, length_cons, ih _ hs left rfl]

end

section

variable {Digest : Type} (hashing : Hashing Digest) (hasher : ChunkedHasher Digest)

def ChunkedHasher.close (chunk : Bytes) : ChunkedHasher Digest := { hasher with
    currentOffset := hasher.currentOffset + hasher.chunkSize
    current := []
    chunks := hasher.chunks ++
      [⟨hasher.currentOffset + hasher.chunkSize - hasher.chunkSize, hasher.chunkSize, hashing.hash chunk⟩] }

theorem update_full (ha : hasher.currentOffset % hasher.chunkSize = 0) (hf : hasher.current = [])
    {data : Bytes} (full : hasher.chunkSize ≤ data.length) : hasher.update hashing data =
      (hasher.close hashing (data.take hasher.chunkSize)).update hashing (data.drop hasher.chunkSize) := by
  have positive := hasher.positive
  have hn : data ≠ [] := ne_nil_of_length_pos (by omega)
  have hw : hasher.bytesToProcess data = hasher.chunkSize := by
    rw [ChunkedHasher.bytesToProcess, ha]
    omega
  have he : (hasher.currentOffset + hasher.chunkSize) % hasher.chunkSize = 0 := by
    rw [Nat.add_mod_right, ha]
  rw [ChunkedHasher.update, if_neg hn, ChunkedHasher.advance, hw, if_pos he, hf, nil_append, ChunkedHasher.close]

theorem finalize_update_short (ha : hasher.currentOffset % hasher.chunkSize = 0)
    (hf : hasher.current = []) {data : Bytes} (hn : data ≠ []) (hs : data.length < hasher.chunkSize) :
    ((hasher.update hashing data).finalize hashing).map ChunkInfo.checksum =
      hasher.chunks.map ChunkInfo.checksum ++ [hashing.hash data] := by
  have length := length_pos_of_ne_nil hn
  have hw : hasher.bytesToProcess data = data.length := by
    rw [ChunkedHasher.bytesToProcess, ha]
    omega
  have hi : (hasher.currentOffset + data.length) % hasher.chunkSize ≠ 0 := by
    rw [Nat.add_mod, ha, Nat.zero_add, Nat.mod_mod, Nat.mod_eq_of_lt hs]
    omega
  have rest : hasher.update hashing data =
      { hasher with currentOffset := hasher.currentOffset + data.length, current := data } := by
    rw [ChunkedHasher.update, if_neg hn, ChunkedHasher.advance, hw, if_neg hi, hf,
      nil_append, take_length, drop_length, ChunkedHasher.update, if_pos rfl]
  rw [rest, ChunkedHasher.finalize, if_pos (Or.inl hi), map_append]
  rfl

theorem checksums_update (ha : hasher.currentOffset % hasher.chunkSize = 0) (hf : hasher.current = [])
    (data : Bytes) (hd : data ≠ [] ∨ hasher.currentOffset ≠ 0) :
    ((hasher.update hashing data).finalize hashing).map ChunkInfo.checksum =
      hasher.chunks.map ChunkInfo.checksum ++ (pieces hasher.chunkSize data).map hashing.hash := by
  induction total : data.length using Nat.strongRecOn generalizing hasher data with
  | ind count ih =>
    have positive := hasher.positive
    by_cases he : data = []
    · subst he
      have hm := hd.resolve_left (not_not.mpr rfl)
      have hc : ¬(hasher.currentOffset % hasher.chunkSize ≠ 0 ∨ hasher.currentOffset = 0) := by
        rw [ha]
        omega
      rw [ChunkedHasher.update, if_pos rfl, ChunkedHasher.finalize, if_neg hc, pieces_nil, map_nil, append_nil]
    · have hl := length_pos_of_ne_nil he
      rw [pieces_of_ne_nil positive he]
      by_cases full : hasher.chunkSize ≤ data.length
      · have hs : (data.drop hasher.chunkSize).length < count := by
          rw [length_drop]
          omega
        have hb : (hasher.currentOffset + hasher.chunkSize) % hasher.chunkSize = 0 := by
          rw [Nat.add_mod_right, ha]
        have hm : hasher.currentOffset + hasher.chunkSize ≠ 0 := by omega
        have hg := ih _ hs (hasher.close hashing (data.take hasher.chunkSize)) hb rfl _ (Or.inr hm) rfl
        rw [update_full hashing hasher ha hf full, hg, ChunkedHasher.close, map_append, append_assoc]
        rfl
      · rw [finalize_update_short hashing hasher ha hf he (by omega),
          take_of_length_le (by omega), drop_eq_nil_of_le (by omega), pieces_nil]
        rfl

theorem leafHashes_new (data : Bytes) (chunkSize : Nat) (positive : 0 < chunkSize) :
    (new hashing data chunkSize positive).leafHashes = (pieces chunkSize data).map hashing.hash := by
  by_cases he : data = []
  · rw [he, pieces_nil, new, if_pos rfl, map_nil]
  · rw [new, if_neg he]
    exact checksums_update hashing (ChunkedHasher.new chunkSize positive) (Nat.zero_mod _) rfl data (Or.inl he)

end

/-- The leaves are the hashes of the chunks, and the proof of each leads to the root. -/
theorem proof_verifies {Digest : Type} [DecidableEq Digest] (hashing : Hashing Digest) (data : Bytes)
    (chunkSize : Nat) (positive : 0 < chunkSize) (leafIndex : Nat)
    (listed : leafIndex < (new hashing data chunkSize positive).leafHashes.length) :
    (new hashing data chunkSize positive).leafHashes = (pieces chunkSize data).map hashing.hash ∧
    ∃ proof, (new hashing data chunkSize positive).proof leafIndex = some proof ∧
      proof.leafHash ∈ (new hashing data chunkSize positive).leafHashes[leafIndex]? ∧
      proof.verify hashing (new hashing data chunkSize positive).rootHash = true := by
  have hn : data ≠ [] := by
    intro he
    rw [new, if_pos he] at listed
    cases listed
  obtain ⟨leaf, hf⟩ : ∃ leaf, (new hashing data chunkSize positive).leafHashes[leafIndex]? = some leaf :=
    ⟨_, getElem?_eq_getElem listed⟩
  obtain ⟨steps, hw, top⟩ := HashTree.climb_path (combine hashing) hf
  rw [← leafHashes_levels hn, ← map_dropLast, ← siblings_eq_path] at hw
  refine ⟨leafHashes_new hashing data chunkSize positive,
    ⟨leaf, leafIndex, steps, (new hashing data chunkSize positive).chunkSize⟩, ?_, hf, ?_⟩
  · rw [MerkleTree.proof, if_neg (Nat.not_le.mpr listed), hw, hf]
    rfl
  · rw [rootHash_new hn, top]
    exact decide_eq_true rfl

namespace Sample

def toBytes : Bytes → Bytes
  | [] => [0]
  | byte :: digest => 1 :: byte :: toBytes digest

def hashing : Hashing Bytes := ⟨id, toBytes, []⟩

theorem hashing_injective : Injective hashing.hash := fun _ _ same => same

theorem toBytes_pairs (left right first second : Bytes)
    (same : toBytes left ++ toBytes right = toBytes first ++ toBytes second) : left = first ∧ right = second := by
  have hr : ∀ left right : Bytes, toBytes left = toBytes right → left = right := by
    intro left
    induction left with
    | nil =>
      intro right
      cases right <;> simp [toBytes]
    | cons byte digest ih =>
      intro right
      cases right with
      | nil => simp [toBytes]
      | cons other rest =>
        simp only [toBytes, List.cons.injEq, true_and]
        rintro ⟨rfl, hd⟩
        exact ⟨rfl, ih rest hd⟩
  induction left generalizing first with
  | nil =>
    cases first with
    | nil => exact ⟨rfl, hr right second (by simpa [toBytes] using same)⟩
    | cons byte digest => simp [toBytes] at same
  | cons byte digest ih =>
    cases first with
    | nil => simp [toBytes] at same
    | cons other rest =>
      simp only [toBytes, cons_append, List.cons.injEq, true_and] at same
      obtain ⟨rfl, hd⟩ := same
      obtain ⟨rfl, rfl⟩ := ih rest hd
      exact ⟨rfl, rfl⟩

end Sample

def Sample.tree : MerkleTree Bytes := new Sample.hashing [7, 8, 9] 1 Nat.one_pos

theorem proof_verifies_three : 2 < Sample.tree.leafHashes.length ∧
    Sample.tree.leafHashes = (pieces 1 [7, 8, 9]).map Sample.hashing.hash ∧
    ∃ proof, Sample.tree.proof 2 = some proof ∧ proof.leafHash ∈ Sample.tree.leafHashes[2]? ∧
      proof.verify Sample.hashing Sample.tree.rootHash = true :=
  have hl : 2 < Sample.tree.leafHashes.length := by simp [Sample.tree, leafHashes_new, pieces]
  ⟨hl, proof_verifies Sample.hashing [7, 8, 9] 1 Nat.one_pos 2 hl⟩

section

variable {Digest : Type} (hashing : Hashing Digest) {chunkSize : Nat} (positive : 0 < chunkSize)

theorem rootHash_repeated {first second third : Bytes} (hf : first.length = chunkSize)
    (hs : second.length = chunkSize) (ht : third.length = chunkSize) :
    (new hashing (first ++ (second ++ (third ++ third))) chunkSize positive).rootHash =
      (new hashing (first ++ (second ++ third)) chunkSize positive).rootHash := by
  have hn : ∀ rest, first ++ rest ≠ [] := by
    intro rest he
    rw [(append_eq_nil_iff.mp he).1, length_nil] at hf
    omega
  have hi : pieces chunkSize third = [third] := by
    have ha := pieces_append positive ht []
    rwa [append_nil, pieces_nil] at ha
  rw [rootHash_new (hn _), rootHash_new (hn _), leafHashes_new, leafHashes_new,
    pieces_append positive hf, pieces_append positive hf, pieces_append positive hs,
    pieces_append positive hs, pieces_append positive ht, hi]
  have hl := HashTree.root_append_last (combine hashing) [hashing.hash first, hashing.hash second]
    (hashing.hash third) (Nat.mod_self 2) (cons_ne_nil _ _)
  exact congrArg (fun root => root.getD hashing.zero) hl

variable {data : Bytes}

theorem root_eq_some_rootHash (hn : data ≠ []) :
    HashTree.root (combine hashing) ((pieces chunkSize data).map hashing.hash) =
      some (new hashing data chunkSize positive).rootHash := by
  have leaf : ((pieces chunkSize data).map hashing.hash)[0]? = some (hashing.hash (data.take chunkSize)) := by
    rw [pieces_of_ne_nil positive hn]
    rfl
  obtain ⟨steps, hw, top⟩ := HashTree.climb_path (combine hashing) leaf
  rw [rootHash_new hn, leafHashes_new, top, Option.getD_some]

theorem rootHash_injective (hi : Injective hashing.hash)
    (hp : ∀ left right first second, hashing.toBytes left ++ hashing.toBytes right =
      hashing.toBytes first ++ hashing.toBytes second → left = first ∧ right = second)
    (hl : data.length = other.length)
    (same : (new hashing data chunkSize positive).rootHash = (new hashing other chunkSize positive).rootHash) :
    data = other := by
  by_cases he : data = []
  · rw [he, length_nil] at hl
    rw [he, length_eq_zero_iff.mp hl.symm]
  · have hn : other ≠ [] := by
      intro none
      rw [none, length_nil] at hl
      exact he (length_eq_zero_iff.mp hl)
    have ho := length_pieces_congr positive hl
    have ha : (pieces chunkSize data).map hashing.hash = (pieces chunkSize other).map hashing.hash := by
      apply HashTree.root_injective (fun left right first second hc =>
        hp left right first second (hi hc))
      · rw [length_map, length_map, ho]
      · exact (root_eq_some_rootHash hashing positive he).trans
          ((congrArg some same).trans (root_eq_some_rootHash hashing positive hn).symm)
    rw [← flatten_pieces positive data, map_injective_iff.mpr hi ha, flatten_pieces positive]

/-- With no chunk size the root tells all data apart, since an odd level repeats its last node. -/
theorem roots_never_bind :
    ¬(∀ data other, (new hashing data chunkSize positive).rootHash = (new hashing other chunkSize positive).rootHash →
        data = other) ∧
      (Injective hashing.hash → (∀ left right first second, hashing.toBytes left ++ hashing.toBytes right =
          hashing.toBytes first ++ hashing.toBytes second → left = first ∧ right = second) →
        ∀ data other, data.length = other.length →
          (new hashing data chunkSize positive).rootHash = (new hashing other chunkSize positive).rootHash →
            data = other) := by
  constructor
  · intro hb
    have full : (List.replicate chunkSize (0 : UInt8)).length = chunkSize := length_replicate
    have same := hb _ _ (rootHash_repeated hashing positive full full full)
    have length := congrArg List.length same
    simp only [length_append, full] at length
    omega
  · intro hi hp data other length same
    exact rootHash_injective hashing positive hi hp length same

theorem roots_never_bind_sample : ¬(∀ data other, (new Sample.hashing data 1 Nat.one_pos).rootHash =
      (new Sample.hashing other 1 Nat.one_pos).rootHash → data = other) ∧ ∀ data other, data.length = other.length →
      (new Sample.hashing data 1 Nat.one_pos).rootHash = (new Sample.hashing other 1 Nat.one_pos).rootHash →
        data = other :=
  have hn := roots_never_bind Sample.hashing Nat.one_pos
  ⟨hn.1, hn.2 Sample.hashing_injective Sample.toBytes_pairs⟩

/-- The third of three chunks may stand twice. -/
theorem repeated_chunk_unseen : Injective Sample.hashing.hash ∧ (new Sample.hashing [7, 8, 9] 1 Nat.one_pos).rootHash =
    (new Sample.hashing [7, 8, 9, 9] 1 Nat.one_pos).rootHash ∧ ([7, 8, 9] : Bytes) ≠ [7, 8, 9, 9] :=
  ⟨Sample.hashing_injective, (@rootHash_repeated Bytes Sample.hashing 1 Nat.one_pos [7] [8] [9] rfl rfl rfl).symm,
    by decide⟩

end

end Veloxide.Merkle
