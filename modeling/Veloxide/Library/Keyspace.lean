import Veloxide.Library.Bytes

namespace OrderedStore

open Std List

abbrev Store (K V : Type) [Ord K] := ExtTreeMap K V

section

variable {K V : Type} [Ord K] [TransOrd K] [LawfulEqOrd K] (store : Store K V) (key : K) (value : V) (other : K)

theorem get_insert (value : V) [DecidableEq K] :
    (store.insert key value)[other]? = if key = other then some value else store[other]? := by
  rw [ExtTreeMap.getElem?_insert]
  simp only [LawfulEqOrd.compare_eq_iff_eq]

theorem get_insert_of_ne {key other : K} (hd : key ≠ other) (value : V) :
    (store.insert key value)[other]? = store[other]? := by
  classical rw [get_insert, if_neg hd]

variable {holds : K → V → Prop}

theorem forall_insert {store : Store K V} (all : ∀ key value, store[key]? = some value → holds key value)
    {key : K} {value : V} (new : holds key value) :
    ∀ other found, (store.insert key value)[other]? = some found → holds other found := by
  intro other found held
  by_cases same : key = other
  · rw [same, ExtTreeMap.getElem?_insert_self] at held
    cases held
    exact same ▸ new
  · rw [get_insert_of_ne store same] at held
    exact all other found held

theorem get_erase [DecidableEq K] : (store.erase key)[other]? = if key = other then none else store[other]? := by
  rw [ExtTreeMap.getElem?_erase]
  simp only [LawfulEqOrd.compare_eq_iff_eq]

theorem get_foldl_erase (keys : List K) (other : K) [DecidableEq K] :
    (keys.foldl (fun store key => store.erase key) store)[other]? = if other ∈ keys then none else store[other]? := by
  induction keys generalizing store with
  | nil => simp
  | cons key keys ih =>
    rw [foldl_cons, ih, get_erase]
    by_cases hi : other ∈ keys
    · simp [hi]
    · by_cases same : other = key
      · simp [same]
      · simp [hi, same, Ne.symm same]

theorem get_modify (change : V → V) [DecidableEq K] :
    (store.modify key change)[other]? = if key = other then store[other]?.map change else store[other]? := by
  rw [ExtTreeMap.getElem?_modify]
  simp only [LawfulEqOrd.compare_eq_iff_eq]
  split_ifs with same
  · rw [same]
  · rfl

theorem get_filter (keep : K → V → Bool) (key : K) : (store.filter keep)[key]? = store[key]?.filter (keep key) := by
  rw [ExtTreeMap.getElem?_filter]
  simp only [ExtTreeMap.getKey_eq, Option.pfilter_eq_filter]

theorem insert_insert (first second : V) : (store.insert key first).insert key second = store.insert key second := by
  classical
  refine ExtTreeMap.ext_getElem? fun other => ?_
  rw [get_insert, get_insert, get_insert]
  split_ifs <;> rfl

theorem forall_erase [DecidableEq K] {store : Store K V}
    (all : ∀ key value, store[key]? = some value → holds key value) (key : K) :
    ∀ other found, (store.erase key)[other]? = some found → holds other found := by
  intro other found held
  rw [get_erase] at held
  by_cases same : key = other
  · rw [if_pos same] at held
    contradiction
  · rw [if_neg same] at held
    exact all other found held

theorem insert_erase : (store.erase key).insert key value = store.insert key value := by
  classical
  refine ExtTreeMap.ext_getElem? fun other => ?_
  rw [get_insert, get_insert, get_erase]
  split_ifs <;> rfl

theorem insert_self {store : Store K V} {key : K} {value : V} (held : store[key]? = some value) :
    store.insert key value = store := by
  classical
  refine ExtTreeMap.ext_getElem? fun other => ?_
  rw [get_insert]
  split_ifs with same
  · rw [← same, held]
  · rfl

omit [LawfulEqOrd K] in
theorem size_insert_held {store : Store K V} {key : K} (held : (store[key]?).isSome = true) (value : V) :
    (store.insert key value).size = store.size := by
  rw [ExtTreeMap.size_insert, if_pos (by simpa using held)]

omit [LawfulEqOrd K] in
theorem size_erase_held {store : Store K V} {key : K} (held : (store[key]?).isSome = true) :
    (store.erase key).size + 1 = store.size := by
  have hp : store.size ≠ 0 := by
    intro none
    rw [ExtTreeMap.eq_empty_iff_size_eq_zero.mpr none] at held
    simp at held
  rw [ExtTreeMap.size_erase, if_pos (by simpa using held)]
  omega

theorem mem_entries : (key, value) ∈ store.toList ↔ store[key]? = some value := ExtTreeMap.mem_toList_iff_getElem?_eq_some

variable {α : Type}

omit [LawfulEqOrd K] in
theorem ordered_ext (key : α → K) {left right : List α}
    (hl : left.Pairwise fun first second => compare (key first) (key second) = .lt)
    (hr : right.Pairwise fun first second => compare (key first) (key second) = .lt)
    (hm : ∀ item, item ∈ left ↔ item ∈ right) : left = right := by
  have hd : ∀ items : List α, (items.Pairwise fun first second => compare (key first) (key second) = .lt) →
      items.Nodup := fun _ ho => ho.imp fun less same => by simp [same] at less
  refine List.Perm.eq_of_pairwise ?_ hl hr
    ((perm_ext_iff_of_nodup (hd left hl) (hd right hr)).mpr hm)
  intro first second _ _ less hg
  exact absurd hg (OrientedCmp.not_lt_of_lt less)

omit [LawfulEqOrd K] in
theorem nodup_keys : (store.toList.map Prod.fst).Nodup := by
  refine pairwise_map.mpr (ExtTreeMap.ordered_keys_toList.imp ?_)
  intro first second less same
  simp [same] at less

omit [TransOrd K] [LawfulEqOrd K] in
def keyLE (key : α → K) (first second : α) : Bool := (compare (key first) (key second)).isLE

theorem mergeSort_ordered (key : α → K) {items : List α} (hd : (items.map key).Nodup) :
    (items.mergeSort (keyLE key)).Pairwise fun first second => compare (key first) (key second) = .lt := by
  have ht : ∀ first second third, keyLE key first second = true → keyLE key second third = true →
      keyLE key first third = true := fun _ _ _ => TransCmp.isLE_trans
  have ho : ∀ first second, (keyLE key first second || keyLE key second first) = true := by
    intro first second
    rw [keyLE, keyLE, OrientedOrd.eq_swap (a := key second)]
    cases compare (key first) (key second) <;> rfl
  have hs := pairwise_mergeSort ht ho items
  have ha := pairwise_map.mp (((mergeSort_perm items (keyLE key)).map key).nodup_iff.mpr hd)
  refine (hs.and ha).imp fun {first second} both => ?_
  cases hf : compare (key first) (key second) with
  | lt => rfl
  | eq => exact absurd (LawfulEqOrd.compare_eq_iff_eq.mp hf) both.2
  | gt =>
    have hn := both.1
    rw [keyLE, hf] at hn
    cases hn

theorem toList_erase [DecidableEq K] : (store.erase key).toList = store.toList.filter fun entry => entry.1 ≠ key := by
  refine ordered_ext Prod.fst ExtTreeMap.ordered_keys_toList (ExtTreeMap.ordered_keys_toList.filter _) ?_
  intro entry
  rw [mem_filter, mem_entries, mem_entries, get_erase]
  by_cases same : key = entry.1
  · simp [same]
  · simp [same, Ne.symm same]

variable (low : K)

def rangeScan (high : K) : List (K × V) :=
  store.toList.filter fun entry => (compare low entry.1).isLE && (compare entry.1 high).isLE

theorem mem_rangeScan (high key : K) (value : V) : (key, value) ∈ rangeScan store low high ↔
    store[key]? = some value ∧ (compare low key).isLE ∧ (compare key high).isLE := by
  simp only [rangeScan, mem_filter, mem_entries, Bool.and_eq_true]

omit [LawfulEqOrd K] in
theorem rangeScan_ordered (high : K) :
    (rangeScan store low high).Pairwise fun left right => compare left.1 right.1 = .lt :=
  ExtTreeMap.ordered_keys_toList.filter _

end

section

variable {K V : Type} [Ord K] [TransOrd K] [LawfulEqOrd K] [DecidableEq K]

abbrev Write (K V : Type) := K × Option V

variable (store : Store K V)

def write : Write K V → Store K V
  | (key, some value) => store.insert key value
  | (key, none) => store.erase key

variable (batch : List (Write K V))

def commit : Store K V := batch.foldl write store

theorem get_write (entry : Write K V) (other : K) :
    (write store entry)[other]? = if entry.1 = other then entry.2 else store[other]? := by
  obtain ⟨key, _ | value⟩ := entry
  · exact get_erase store key other
  · exact get_insert store key other value

theorem get_commit_of_not_mem (other : K) (ho : ∀ entry ∈ batch, entry.1 ≠ other) :
    (commit store batch)[other]? = store[other]? := by
  induction batch generalizing store with
  | nil => rfl
  | cons entry batch ih =>
    rw [commit, foldl_cons]
    have rest := ih (write store entry) fun later mem => ho later (mem_cons_of_mem _ mem)
    rw [commit] at rest
    rw [rest, get_write, if_neg (ho entry mem_cons_self)]

omit [LawfulEqOrd K] [DecidableEq K] in
theorem commit_append (first second : List (Write K V)) :
    commit store (first ++ second) = commit (commit store first) second :=
  foldl_append

theorem get_commit (key : K) : (commit store batch)[key]? =
    ((batch.reverse.find? fun entry => entry.1 = key).map Prod.snd).getD store[key]? := by
  induction batch using List.reverseRecOn with
  | nil => rfl
  | append_singleton batch entry ih =>
    rw [commit_append, commit, foldl_cons, foldl_nil, get_write, ih, reverse_append,
      reverse_singleton, singleton_append, find?_cons]
    by_cases same : entry.1 = key
    · simp [same]
    · simp [same]

theorem get_commit_removals (keys : List K) (key : K) :
    (commit store (keys.map fun removed => (removed, none)))[key]? = if key ∈ keys then none else store[key]? := by
  induction keys generalizing store with
  | nil => simp [commit]
  | cons removed keys ih =>
    have rest := ih (store.erase removed)
    rw [commit] at rest
    rw [commit, map_cons, foldl_cons, write, rest, get_erase]
    by_cases hl : key ∈ keys
    · simp [hl]
    · by_cases same : removed = key
      · simp [same]
      · simp [same, hl, Ne.symm same]

theorem isSome_commit (hi : ∀ entry ∈ batch, entry.2.isSome = true) (key : K) :
    ((commit store batch)[key]?).isSome ↔ (store[key]?).isSome ∨ key ∈ batch.map Prod.fst := by
  induction batch generalizing store with
  | nil => simp [commit]
  | cons entry batch ih =>
    have rest := ih (write store entry) fun later mem => hi later (mem_cons_of_mem _ mem)
    have here := hi entry mem_cons_self
    rw [commit] at rest ⊢
    rw [foldl_cons, rest, get_write, map_cons, mem_cons]
    by_cases same : entry.1 = key
    · simp [same, here]
    · simp [same, Ne.symm same]

end

section

open ByteCodec

variable {V : Type}

theorem isPrefix_of_between {start low high key : Bytes} (ha : (compare (start ++ low) key).isLE = true)
    (hb : (compare key (start ++ high)).isLE = true) : start <+: key := by
  induction start generalizing key with
  | nil => exact nil_prefix
  | cons first start ih =>
    cases key with
    | nil => cases ha
    | cons head key =>
      rw [cons_append, List.compare_cons_cons, Ordering.isLE_then_iff_and] at ha hb
      have same : first = head := LawfulEqOrd.compare_eq_iff_eq.mp (OrientedCmp.isLE_antisymm ha.1 hb.1)
      subst same
      simp only [ReflCmp.compare_self, reduceCtorEq, false_or] at ha hb
      exact (prefix_cons_inj first).mpr (ih ha.2 hb.2)

variable (store : Store Bytes V) (start : Bytes)

def prefixScan : List (Bytes × V) := store.toList.filter fun entry => start.isPrefixOf entry.1

variable (key : Bytes)

theorem mem_prefixScan (value : V) :
    (key, value) ∈ prefixScan store start ↔ store[key]? = some value ∧ start <+: key := by
  simp only [prefixScan, mem_filter, mem_entries, isPrefixOf_iff_prefix]

theorem prefixScan_ordered : (prefixScan store start).Pairwise fun left right => compare left.1 right.1 = .lt :=
  ExtTreeMap.ordered_keys_toList.filter _

theorem prefixScan_foldl_erase (keys : List Bytes) :
    prefixScan (keys.foldl (fun store key => store.erase key) store) start =
      (prefixScan store start).filter fun entry => entry.1 ∉ keys := by
  induction keys generalizing store with
  | nil => simp
  | cons key keys ih =>
    rw [foldl_cons, ih, prefixScan, prefixScan, toList_erase, filter_filter, filter_filter, filter_filter]
    congr 1
    funext entry
    by_cases same : entry.1 = key
    · simp [same]
    · simp [same]

theorem mem_prefixScan_keys :
    key ∈ (prefixScan store start).map Prod.fst ↔ (store[key]?).isSome = true ∧ start <+: key := by
  rw [mem_map, Option.isSome_iff_exists]
  constructor
  · intro hl
    obtain ⟨entry, mem, same⟩ := hl
    obtain ⟨held, hs⟩ := (mem_prefixScan store start entry.1 entry.2).mp mem
    rw [same] at held hs
    exact ⟨⟨entry.2, held⟩, hs⟩
  · intro hf
    obtain ⟨⟨value, held⟩, hs⟩ := hf
    exact ⟨(key, value), (mem_prefixScan store start key value).mpr ⟨held, hs⟩, rfl⟩

end

end OrderedStore
