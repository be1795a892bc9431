import Veloxide.Library.Digraph

namespace Forest

open List Function

variable {α : Type}

/-- The nodes from a root down to a node; `above` is `none` off the forest, `some none` at a root. -/
inductive Chain (above : α → Option (Option α)) : α → List α → Prop
  | root {node : α} (top : above node = some none) : Chain above node [node]
  | child {node upper : α} {chain : List α} (linked : above node = some (some upper))
      (rest : Chain above upper chain) : Chain above node (chain ++ [node])

def Link (above : α → Option (Option α)) (upper lower : α) : Prop := above lower = some (some upper)

def Within (above : α → Option (Option α)) : α → α → Prop := Relation.ReflTransGen (Link above)

section

variable {above other : α → Option (Option α)} {node upper base : α} {chain : List α}

theorem Chain.unique {second : List α} (left : Chain above node chain) (hr : Chain above node second) :
    chain = second := by
  induction left generalizing second with
  | root top =>
    cases hr with
    | root _ => rfl
    | child hl _ => cases top.symm.trans hl
  | child hl _ ih =>
    cases hr with
    | root top => cases hl.symm.trans top
    | child same rest =>
      cases hl.symm.trans same
      rw [ih rest]

theorem Chain.isSome (he : Chain above node chain) : (above node).isSome := by
  cases he with
  | root top => rw [top]; rfl
  | child hl _ => rw [hl]; rfl

theorem Chain.isSome_of_mem (ha : Chain above node chain) {member : α} (hi : member ∈ chain) :
    (above member).isSome := by
  induction ha with
  | root top =>
    rw [mem_singleton.mp hi, top]
    rfl
  | child hl _ ih =>
    rcases mem_append.mp hi with he | last
    · exact ih he
    · rw [mem_singleton.mp last, hl]
      rfl

theorem Chain.mem_iff (he : Chain above node chain) (member : α) : member ∈ chain ↔ Within above member node := by
  induction he with
  | root top =>
    rw [mem_singleton]
    constructor
    · rintro rfl
      exact .refl
    · intro hw
      cases hw with
      | refl => rfl
      | tail _ hl => cases top.symm.trans hl
  | child hl _ ih =>
    rw [mem_append, ih, mem_singleton]
    constructor
    · rintro (hh | rfl)
      · exact hh.tail hl
      · exact .refl
    · intro hw
      cases hw with
      | refl => exact .inr rfl
      | tail hh same =>
        cases hl.symm.trans same
        exact .inl hh

theorem Chain.not_below_self (he : Chain above node chain) : ¬ Relation.TransGen (Link above) node node := by
  induction he with
  | root top =>
    intro hc
    obtain ⟨_, _, hl⟩ := Relation.TransGen.tail'_iff.mp hc
    cases top.symm.trans hl
  | child hl _ ih =>
    intro hc
    obtain ⟨_, hw, same⟩ := Relation.TransGen.tail'_iff.mp hc
    cases hl.symm.trans same
    exact ih (.head' hl hw)

theorem acyclic_of_rooted (hr : ∀ node, (above node).isSome → ∃ chain, Chain above node chain) :
    Digraph.Acyclic (Link above) := by
  intro node hc
  obtain ⟨_, _, hl⟩ := Relation.TransGen.tail'_iff.mp hc
  obtain ⟨chain, he⟩ := hr node (by rw [show above node = _ from hl]; rfl)
  exact he.not_below_self hc

theorem Chain.nodup (he : Chain above node chain) : chain.Nodup := by
  induction he with
  | root _ => exact nodup_singleton _
  | child hl rest ih =>
    rw [nodup_append]
    refine ⟨ih, nodup_singleton _, ?_⟩
    rintro member hi _ last rfl
    rw [mem_singleton.mp last] at hi
    exact (Chain.child hl rest).not_below_self (.tail' ((rest.mem_iff _).mp hi) hl)

theorem Chain.length_le (hl : Chain above node chain) {nodes : List α}
    (all : ∀ node, (above node).isSome → node ∈ nodes) : chain.length ≤ nodes.length :=
  (hl.nodup.subperm fun _ hi => all _ (hl.isSome_of_mem hi)).length_le

theorem Chain.initial {first rest : List α} (he : Chain above node (first ++ rest)) (hn : first ≠ []) :
    ∃ base, Chain above base first := by
  generalize hw : first ++ rest = chain at he
  induction he generalizing rest with
  | root top =>
    cases first with
    | nil => exact absurd rfl hn
    | cons head first =>
      obtain ⟨rfl, ho⟩ := List.cons.inj hw
      rw [(append_eq_nil_iff.mp ho).1]
      exact ⟨_, .root top⟩
  | child hl above ih =>
    rcases eq_nil_or_concat rest with rfl | ⟨shorter, last, rfl⟩
    · rw [append_nil] at hw
      rw [hw]
      exact ⟨_, .child hl above⟩
    · rw [concat_eq_append, ← append_assoc] at hw
      exact ih (append_inj' hw rfl).1

theorem Chain.initial_of_within {first : List α} (he : Chain above node chain) (hs : Chain above base first)
    (hw : Within above base node) : first <+: chain := by
  induction he with
  | root top =>
    cases hw with
    | refl => rw [hs.unique (.root top)]
    | tail _ hl => cases top.symm.trans hl
  | child hl rest ih =>
    cases hw with
    | refl => rw [hs.unique (.child hl rest)]
    | tail hh same =>
      cases hl.symm.trans same
      exact (ih hh).trans (prefix_append _ _)

theorem Chain.congr (he : Chain above node chain) (same : ∀ member ∈ chain, other member = above member) :
    Chain other node chain := by
  induction he with
  | root top => exact .root ((same _ (mem_singleton_self _)).trans top)
  | child hl _ ih =>
    refine .child ((same _ (mem_append_right _ (mem_singleton_self _))).trans hl) (ih ?_)
    exact fun member hi => same member (mem_append_left _ hi)

theorem Chain.graft {new : List α} (ha : Chain above node chain) (hm : Chain other base new)
    (hi : base ∈ chain) (same : ∀ member, member ≠ base → Within above base member → other member = above member) :
    ∃ rest, Chain other node (new ++ rest) := by
  induction ha with
  | root top =>
    rw [mem_singleton] at hi
    subst hi
    exact ⟨[], by rwa [append_nil]⟩
  | @child node upper chain hl rest ih =>
    by_cases here : node = base
    · subst here
      exact ⟨[], by rwa [append_nil]⟩
    · rcases mem_append.mp hi with he | last
      · obtain ⟨middle, ha⟩ := ih he
        have hw : Within above base node := ((rest.mem_iff base).mp he).tail hl
        exact ⟨middle ++ [node], by
          rw [← append_assoc]
          exact .child ((same node here hw).trans hl) ha⟩
      · exact absurd (mem_singleton.mp last).symm here

end

/-- The parent links agree with the lists of children, and every node hangs below a root. -/
structure Consistent (above : α → Option (Option α)) (row : Option α → List α) : Prop where
  nodup : ∀ slot, (row slot).Nodup
  mem_row : ∀ slot node, node ∈ row slot ↔ above node = some slot
  rooted : ∀ node, (above node).isSome → ∃ chain, Chain above node chain

def Slot (above : α → Option (Option α)) (slot : Option α) : Prop := ∀ upper, slot = some upper → (above upper).isSome

namespace Consistent

variable {above : α → Option (Option α)} {row : Option α → List α}

theorem acyclic (hc : Consistent above row) : Digraph.Acyclic (Link above) := acyclic_of_rooted hc.rooted

theorem slot (hc : Consistent above row) {node : α} {slot : Option α} (held : above node = some slot) :
    Slot above slot := by
  rintro upper rfl
  obtain ⟨_, he⟩ := hc.rooted node (by rw [held]; rfl)
  cases he with
  | root top => cases held.symm.trans top
  | child hl rest =>
    cases held.symm.trans hl
    exact rest.isSome

theorem hang {node : α} {slot : Option α} {shifted : α → Option (Option α)} (hp : shifted node = some slot)
    (hc : ∀ upper, slot = some upper → ∃ chain, Chain shifted upper chain) : ∃ chain, Chain shifted node chain := by
  cases slot with
  | none => exact ⟨_, .root hp⟩
  | some upper =>
    obtain ⟨chain, hl⟩ := hc upper rfl
    exact ⟨_, .child hp hl⟩

variable [DecidableEq α]

theorem count_row (hc : Consistent above row) (slot : Option α) (node : α) :
    (row slot).count node = if above node = some slot then 1 else 0 := by
  split_ifs with held
  · exact count_eq_one_of_mem (hc.nodup slot) ((hc.mem_row slot node).mpr held)
  · exact count_eq_zero.mpr fun hm => held ((hc.mem_row slot node).mp hm)

theorem insert (hc : Consistent above row) {node : α} {slot : Option α} (hf : above node = none)
    (free : Slot above slot) : Consistent (update above node (some slot)) (update row slot (row slot ++ [node])) := by
  have ha (other : Option α) : node ∉ row other := by
    rw [hc.mem_row, hf]
    simp
  have kept (other : α) (held : (above other).isSome) : ∃ chain, Chain (update above node (some slot)) other chain := by
    obtain ⟨chain, hl⟩ := hc.rooted other held
    refine ⟨chain, hl.congr fun member hi => update_of_ne ?_ _ _⟩
    rintro rfl
    have hk := hl.isSome_of_mem hi
    rw [hf] at hk
    cases hk
  refine ⟨?_, ?_, ?_⟩
  · intro place
    by_cases here : place = slot
    · rw [here, update_self, nodup_append]
      refine ⟨hc.nodup slot, nodup_singleton _, ?_⟩
      rintro member hi _ last rfl
      rw [mem_singleton.mp last] at hi
      exact ha slot hi
    · rw [update_of_ne here]
      exact hc.nodup place
  · intro place other
    by_cases same : other = node
    · subst same
      rw [update_self]
      by_cases here : place = slot
      · simp [here]
      · rw [update_of_ne here]
        simp [ha place, Ne.symm here]
    · rw [update_of_ne same, ← hc.mem_row]
      by_cases here : place = slot
      · simp [here, same]
      · rw [update_of_ne here]
  · intro other held
    by_cases same : other = node
    · subst same
      exact hang (update_self ..) fun upper place => kept upper (free upper place)
    · rw [update_of_ne same] at held
      exact kept other held

def shift (row : Option α → List α) (node : α) (old new : Option α) : Option α → List α :=
  update (update row old ((row old).filter (· ≠ node))) new (row new ++ [node])

theorem shift_apply (row : Option α → List α) (node : α) (old new slot : Option α) : shift row node old new slot =
    if slot = new then row new ++ [node] else if slot = old then (row old).filter (· ≠ node) else row slot := by
  simp only [shift, update_apply]

theorem move (hc : Consistent above row) {node : α} {old new : Option α} (held : above node = some old)
    (hh : old ≠ new) (free : Slot above new) (ha : ∀ upper, new = some upper → ¬ Within above node upper) :
    Consistent (update above node (some new)) (shift row node old new) := by
  have he : node ∉ row new := by
    rw [hc.mem_row, held]
    simp [hh]
  have kept (other : α) (chain : List α) (hl : Chain above other chain) (ho : node ∉ chain) :
      Chain (update above node (some new)) other chain := by
    refine hl.congr fun member hi => update_of_ne ?_ _ _
    rintro rfl
    exact ho hi
  have hm : ∃ chain, Chain (update above node (some new)) node chain := by
    refine hang (update_self ..) fun upper hp => ?_
    obtain ⟨chain, hl⟩ := hc.rooted upper (free upper hp)
    exact ⟨chain, kept upper chain hl fun hi => ha upper hp ((hl.mem_iff node).mp hi)⟩
  refine ⟨?_, ?_, ?_⟩
  · intro slot
    rw [shift_apply]
    split_ifs with here there
    · rw [nodup_append]
      refine ⟨hc.nodup new, nodup_singleton _, ?_⟩
      rintro member hi _ last rfl
      rw [mem_singleton.mp last] at hi
      exact he hi
    · exact (hc.nodup old).filter _
    · exact hc.nodup slot
  · intro slot other
    by_cases same : other = node
    · subst same
      rw [update_self]
      rw [shift_apply]
      split_ifs with here there
      · simp [here]
      · simp [Ne.symm here]
      · rw [hc.mem_row, held]
        simp [Ne.symm here, Ne.symm there]
    · rw [update_of_ne same, ← hc.mem_row]
      rw [shift_apply]
      split_ifs with here there
      · simp [here, same]
      · simp [there, same]
      · rfl
  · intro other held
    by_cases same : other = node
    · subst same
      exact hm
    · rw [update_of_ne same] at held
      obtain ⟨chain, hl⟩ := hc.rooted other held
      by_cases hi : node ∈ chain
      · obtain ⟨new, hr⟩ := hm
        obtain ⟨rest, hl⟩ := hl.graft hr hi fun member hd _ => update_of_ne hd _ _
        exact ⟨_, hl⟩
      · exact ⟨chain, kept other chain hl hi⟩

theorem delete (hc : Consistent above row) {node : α} {old : Option α} (held : above node = some old)
    {removed : α → Prop} [DecidablePred removed] (hs : ∀ other, removed other ↔ Within above node other)
    {rest : Option α → List α} (rows : ∀ slot, (∀ upper, slot = some upper → ¬ removed upper) →
      rest slot = if slot = old then (row old).filter (· ≠ node) else row slot)
    (gone : ∀ upper, removed upper → rest (some upper) = []) :
    Consistent (fun other => if removed other then none else above other) rest := by
  have ha {upper lower : α} (hl : above lower = some (some upper)) (hb : removed upper) : removed lower :=
    (hs lower).mpr (((hs upper).mp hb).tail hl)
  have hm (slot : Option α) (other : α) :
      other ∈ rest slot ↔ (if removed other then none else above other) = some slot := by
    by_cases ho : ∀ upper, slot = some upper → ¬ removed upper
    · rw [rows slot ho]
      by_cases out : removed other
      · rw [if_pos out]
        simp only [reduceCtorEq, iff_false]
        split_ifs with there
        · rw [mem_filter, hc.mem_row]
          rintro ⟨hl, hd⟩
          rcases Relation.ReflTransGen.cases_tail ((hs other).mp out) with same | ⟨upper, hw, link⟩
          · simp [same] at hd
          · cases hl.symm.trans link
            exact ho upper there ((hs upper).mpr hw)
        · rw [hc.mem_row]
          intro hl
          rcases Relation.ReflTransGen.cases_tail ((hs other).mp out) with same | ⟨upper, hw, link⟩
          · subst same
            exact there (Option.some.inj (hl.symm.trans held))
          · cases hl.symm.trans link
            exact ho upper rfl ((hs upper).mpr hw)
      · rw [if_neg out]
        have hd : other ≠ node := by
          rintro rfl
          exact out ((hs other).mpr .refl)
        split_ifs with there
        · rw [mem_filter, hc.mem_row, there]
          simp [hd]
        · exact hc.mem_row slot other
    · simp only [not_forall, not_not] at ho
      obtain ⟨upper, rfl, hb⟩ := ho
      rw [gone upper hb]
      simp only [not_mem_nil, false_iff]
      split_ifs with out
      · simp
      · intro hl
        exact out (ha hl hb)
  refine ⟨?_, hm, ?_⟩
  · intro slot
    by_cases ho : ∀ upper, slot = some upper → ¬ removed upper
    · rw [rows slot ho]
      split_ifs
      · exact (hc.nodup old).filter _
      · exact hc.nodup slot
    · simp only [not_forall, not_not] at ho
      obtain ⟨upper, rfl, hb⟩ := ho
      rw [gone upper hb]
      exact nodup_nil
  · intro other hk
    by_cases out : removed other
    · rw [if_pos out] at hk
      cases hk
    · rw [if_neg out] at hk
      obtain ⟨chain, he⟩ := hc.rooted other hk
      refine ⟨chain, he.congr fun member hi => if_neg fun hb => out ?_⟩
      exact (hs other).mpr (((hs member).mp hb).trans ((he.mem_iff member).mp hi))

end Consistent

/-- A walk through everything below a stack of nodes, whose top comes first: `none` when it takes more steps. -/
def collect (children : α → List α) : Nat → List α → Option (List α)
  | _, [] => some []
  | 0, _ :: _ => none
  | fuel + 1, top :: stack => (collect children fuel ((children top).reverse ++ stack)).map (top :: ·)

section

variable {above : α → Option (Option α)} {children : α → List α} {base : α}

structure Walked (above : α → Option (Option α)) (base : α) (done stack : List α) : Prop where
  nodup : (done ++ stack).Nodup
  below : ∀ node ∈ done ++ stack, Relation.TransGen (Link above) base node
  origin : ∀ node ∈ done ++ stack, ∃ upper, above node = some (some upper) ∧ (upper = base ∨ upper ∈ done)
  covered : ∀ node, above node = some (some base) → node ∈ done ++ stack
  closed : ∀ upper ∈ done, ∀ node, above node = some (some upper) → node ∈ done ++ stack

variable (rows : ∀ upper node, node ∈ children upper ↔ above node = some (some upper))
  (distinct : ∀ upper, (children upper).Nodup) (acyclic : Digraph.Acyclic (Link above))

include rows distinct in
theorem walked_start : Walked above base [] (children base).reverse where
  nodup := by simpa using distinct base
  below node member := by
    rw [nil_append, mem_reverse, rows] at member
    exact .single member
  origin node member := by
    rw [nil_append, mem_reverse, rows] at member
    exact ⟨base, member, .inl rfl⟩
  covered node linked := by
    rw [nil_append, mem_reverse, rows]
    exact linked
  closed upper impossible := absurd impossible not_mem_nil

include rows distinct acyclic in
theorem Walked.pop {done stack : List α} {top : α} (hw : Walked above base done (top :: stack)) :
    Walked above base (done ++ [top]) ((children top).reverse ++ stack) := by
  have hu : Relation.TransGen (Link above) base top := hw.below top (by simp)
  have hp : (done ++ top :: stack).Nodup := hw.nodup
  have new (node : α) (linked : above node = some (some top)) : node ∉ done ++ top :: stack := by
    intro hm
    obtain ⟨upper, same, hk⟩ := hw.origin node hm
    cases linked.symm.trans same
    rcases hk with rfl | earlier
    · exact acyclic _ hu
    · exact (nodup_append.mp hp).2.2 top earlier top mem_cons_self rfl
  have mem (node : α) : node ∈ (done ++ [top]) ++ ((children top).reverse ++ stack) ↔
      node ∈ done ++ top :: stack ∨ above node = some (some top) := by
    simp only [mem_append, mem_reverse, rows, mem_cons, not_mem_nil, or_false]
    tauto
  refine ⟨?_, ?_, ?_, ?_, ?_⟩
  · have ho : ((done ++ [top]) ++ ((children top).reverse ++ stack)).Perm
        ((children top).reverse ++ (done ++ top :: stack)) := by
      simp only [append_assoc, singleton_append]
      have hn : (top :: ((children top).reverse ++ stack)).Perm ((children top).reverse ++ top :: stack) :=
        perm_middle.symm
      refine (hn.append_left done).trans ?_
      rw [← append_assoc, ← append_assoc]
      exact perm_append_comm.append_right _
    rw [ho.nodup_iff, nodup_append]
    refine ⟨nodup_reverse.mpr (distinct top), hp, ?_⟩
    rintro node hc _ hm rfl
    rw [mem_reverse, rows] at hc
    exact new node hc hm
  · intro node hm
    rcases (mem node).mp hm with earlier | linked
    · exact hw.below node earlier
    · exact hu.tail linked
  · intro node hm
    rcases (mem node).mp hm with earlier | linked
    · obtain ⟨upper, linked, hk⟩ := hw.origin node earlier
      exact ⟨upper, linked, hk.imp_right fun hi => mem_append_left _ hi⟩
    · exact ⟨top, linked, .inr (by simp)⟩
  · intro node linked
    exact (mem node).mpr (.inl (hw.covered node linked))
  · intro upper hm node linked
    rcases mem_append.mp hm with earlier | last
    · exact (mem node).mpr (.inl (hw.closed upper earlier node linked))
    · rw [mem_singleton.mp last] at linked
      exact (mem node).mpr (.inr linked)

include rows distinct acyclic in
theorem collect_walked {nodes : List α} (all : ∀ node, (above node).isSome → node ∈ nodes) (fuel : Nat)
    {done stack : List α} (hw : Walked above base done stack) (he : nodes.length ≤ fuel + done.length) :
    ∃ found, collect children fuel stack = some found ∧ Walked above base (done ++ found) [] := by
  induction fuel generalizing done stack with
  | zero =>
    cases stack with
    | nil => exact ⟨[], rfl, by rwa [append_nil]⟩
    | cons top stack =>
      have hi : ∀ node ∈ done ++ top :: stack, node ∈ nodes := by
        intro node hm
        obtain ⟨upper, hl, _⟩ := hw.origin node hm
        exact all node (by rw [hl]; rfl)
      have hb := (hw.nodup.subperm hi).length_le
      simp only [length_append, length_cons] at hb
      omega
  | succ fuel ih =>
    cases stack with
    | nil => exact ⟨[], rfl, by rwa [append_nil]⟩
    | cons top stack =>
      obtain ⟨found, ran, hf⟩ := ih (hw.pop rows distinct acyclic) (by simp; omega)
      refine ⟨top :: found, by rw [collect, ran]; rfl, ?_⟩
      rwa [append_assoc, singleton_append] at hf

include rows distinct acyclic in
theorem collect_children {nodes : List α} (all : ∀ node, (above node).isSome → node ∈ nodes) {fuel : Nat}
    (he : nodes.length ≤ fuel) : ∃ found, collect children fuel (children base).reverse = some found ∧ found.Nodup ∧
      ∀ node, node ∈ found ↔ Relation.TransGen (Link above) base node := by
  obtain ⟨found, ran, hw⟩ :=
    collect_walked rows distinct acyclic all fuel (@walked_start _ above children base rows distinct) (by simpa using he)
  rw [nil_append] at hw
  refine ⟨found, ran, by simpa using hw.nodup, fun node => ⟨fun hm => ?_, fun hb => ?_⟩⟩
  · exact hw.below node (by simpa using hm)
  · induction hb with
    | single hl => simpa using hw.covered _ hl
    | tail _ hl ih => simpa using hw.closed _ ih _ hl

end

end Forest
