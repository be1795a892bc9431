import Veloxide.Library.Keyspace

namespace OrderedStore

open Std List Function

section

variable {Index K L V W : Type} [Ord K] [TransOrd K] [Ord L] [TransOrd L]

/-- Two stores of the same indices, each under its own keys, with related values. -/
structure Related (leftKey : Index → K) (rightKey : Index → L) (holds : V → W → Prop) (left : Store K V)
    (right : Store L W) : Prop where
  entries : ∀ index, Option.Rel holds left[leftKey index]? right[rightKey index]?
  leftKeys : ∀ key value, left[key]? = some value → ∃ index, key = leftKey index
  rightKeys : ∀ key value, right[key]? = some value → ∃ index, key = rightKey index

variable {leftKey : Index → K} {rightKey : Index → L} {holds : V → W → Prop} {left : Store K V} {right : Store L W}

theorem Related.empty : Related leftKey rightKey holds (∅ : Store K V) (∅ : Store L W) := ⟨by simp, by simp, by simp⟩

variable {index : Index}

theorem Related.left_of_right (hr : Related leftKey rightKey holds left right) {value : W}
    (held : right[rightKey index]? = some value) : ∃ twin, left[leftKey index]? = some twin ∧ holds twin value := by
  have he := hr.entries index
  rw [held] at he
  generalize left[leftKey index]? = found at he
  cases he with
  | some hr => exact ⟨_, rfl, hr⟩

variable {value : V}

theorem Related.right_of_left (hr : Related leftKey rightKey holds left right)
    (held : left[leftKey index]? = some value) : ∃ twin, right[rightKey index]? = some twin ∧ holds value twin := by
  have he := hr.entries index
  rw [held] at he
  generalize right[rightKey index]? = found at he
  cases he with
  | some hr => exact ⟨_, rfl, hr⟩

theorem Related.left_absent (hr : Related leftKey rightKey holds left right)
    (ha : right[rightKey index]? = none) : left[leftKey index]? = none := by
  have he := hr.entries index
  rw [ha] at he
  generalize left[leftKey index]? = found at he
  cases he with
  | none => rfl

variable [LawfulEqOrd K] [LawfulEqOrd L]

theorem Related.insert (he : Related leftKey rightKey holds left right)
    (hl : Injective leftKey) (hr : Injective rightKey) (index : Index) {twin : W} (new : holds value twin) :
    Related leftKey rightKey holds (left.insert (leftKey index) value) (right.insert (rightKey index) twin) := by
  refine ⟨?_, forall_insert he.leftKeys ⟨index, rfl⟩, forall_insert he.rightKeys ⟨index, rfl⟩⟩
  intro other
  by_cases same : index = other
  · rw [same, ExtTreeMap.getElem?_insert_self, ExtTreeMap.getElem?_insert_self]
    exact .some new
  · rw [get_insert_of_ne left (hl.ne same), get_insert_of_ne right (hr.ne same)]
    exact he.entries other

variable [DecidableEq K] [DecidableEq L]

theorem Related.remove (hr : Related leftKey rightKey holds left right) {leftRemoved : List K}
    {rightRemoved : List L} (same : ∀ index, leftKey index ∈ leftRemoved ↔ rightKey index ∈ rightRemoved) :
    Related leftKey rightKey holds (commit left (leftRemoved.map fun key => (key, none)))
      (commit right (rightRemoved.map fun key => (key, none))) := by
  refine ⟨?_, ?_, ?_⟩
  · intro index
    rw [get_commit_removals, get_commit_removals]
    by_cases he : leftKey index ∈ leftRemoved
    · rw [if_pos he, if_pos ((same index).mp he)]
      exact .none
    · rw [if_neg he, if_neg fun mem => he ((same index).mpr mem)]
      exact hr.entries index
  · intro key value held
    rw [get_commit_removals] at held
    split_ifs at held
    exact hr.leftKeys key value held
  · intro key value held
    rw [get_commit_removals] at held
    split_ifs at held
    exact hr.rightKeys key value held

end

section

variable {K V : Type} [Ord K] [TransOrd K] [LawfulEqOrd K] (store : Store K V) (chosen : V → Bool)

def keysWhere : List K := (store.toList.filter fun entry => chosen entry.2).map Prod.fst

theorem mem_keysWhere (key : K) :
    key ∈ keysWhere store chosen ↔ ∃ value, store[key]? = some value ∧ chosen value = true := by
  rw [keysWhere, mem_map]
  constructor
  · intro hl
    obtain ⟨⟨other, value⟩, mem, rfl⟩ := hl
    obtain ⟨held, chosen⟩ := mem_filter.mp mem
    exact ⟨value, (mem_entries store other value).mp held, chosen⟩
  · intro hf
    obtain ⟨value, held, chosen⟩ := hf
    exact ⟨(key, value), mem_filter.mpr ⟨(mem_entries store key value).mpr held, chosen⟩, rfl⟩

omit [LawfulEqOrd K] in
theorem nodup_keysWhere : (keysWhere store chosen).Nodup := by
  have ho : (keysWhere store chosen).Pairwise fun low high => compare low high = .lt :=
    pairwise_map.mpr (ExtTreeMap.ordered_keys_toList.filter _)
  exact ho.imp fun less same => by simp [same] at less

variable {Index L W : Type} [Ord L] [TransOrd L] [LawfulEqOrd L] {leftKey : Index → K} {rightKey : Index → L}
  {holds : V → W → Prop} {left : Store K V} {right : Store L W} {rightChosen : W → Bool} {leftChosen : V → Bool}

theorem Related.mem_keysWhere_iff (hr : Related leftKey rightKey holds left right)
    (ha : ∀ value twin, holds value twin → leftChosen value = rightChosen twin) (index : Index) :
    leftKey index ∈ keysWhere left leftChosen ↔ rightKey index ∈ keysWhere right rightChosen := by
  rw [mem_keysWhere, mem_keysWhere]
  constructor
  · intro hf
    obtain ⟨value, held, chosen⟩ := hf
    obtain ⟨twin, kept, same⟩ := hr.right_of_left held
    exact ⟨twin, kept, ha value twin same ▸ chosen⟩
  · intro hf
    obtain ⟨twin, kept, chosen⟩ := hf
    obtain ⟨value, held, same⟩ := hr.left_of_right kept
    exact ⟨value, held, (ha value twin same).trans chosen⟩

theorem Related.length_keysWhere (he : Related leftKey rightKey holds left right)
    (hl : Injective leftKey) (hr : Injective rightKey)
    (ha : ∀ value twin, holds value twin → leftChosen value = rightChosen twin) :
    (keysWhere left leftChosen).length = (keysWhere right rightChosen).length := by
  have hi : ∀ key ∈ keysWhere left leftChosen, ∃ index, leftKey index = key := by
    intro key mem
    obtain ⟨value, held, _⟩ := (mem_keysWhere left leftChosen key).mp mem
    obtain ⟨index, same⟩ := he.leftKeys key value held
    exact ⟨index, same.symm⟩
  obtain ⟨indices, keys⟩ : keysWhere left leftChosen ∈ Set.range (List.map leftKey) := by
    rw [Set.range_list_map]
    exact hi
  have hd : indices.Nodup := (keys ▸ nodup_keysWhere left leftChosen).of_map leftKey
  have hm : ∀ key, key ∈ indices.map rightKey ↔ key ∈ keysWhere right rightChosen := by
    intro key
    constructor
    · intro mem
      obtain ⟨index, hb, rfl⟩ := mem_map.mp mem
      exact (he.mem_keysWhere_iff ha index).mp (keys ▸ mem_map_of_mem hb)
    · intro mem
      obtain ⟨twin, kept, _⟩ := (mem_keysWhere right rightChosen key).mp mem
      obtain ⟨index, rfl⟩ := he.rightKeys key twin kept
      have hb := (he.mem_keysWhere_iff ha index).mpr mem
      rw [← keys] at hb
      obtain ⟨other, hn, same⟩ := mem_map.mp hb
      rw [← hl same]
      exact mem_map_of_mem hn
  have hp := (perm_ext_iff_of_nodup (hd.map hr)
    (nodup_keysWhere right rightChosen)).mpr hm
  rw [← keys, length_map, ← hp.length_eq, length_map]

end

end OrderedStore
