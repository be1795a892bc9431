import Mathlib

namespace Selection

open List

variable {α : Type} (pick : List α → Option α)

def run : Nat → List α
  | 0 => []
  | rounds + 1 =>
    match pick (run rounds) with
    | some item => run rounds ++ [item]
    | none => run rounds

variable {pick} {rounds : Nat} {item : α}

theorem run_succ_of_some (hp : pick (run pick rounds) = some item) :
    run pick (rounds + 1) = run pick rounds ++ [item] := by
  rw [run, hp]

theorem run_succ_of_none (hs : pick (run pick rounds) = none) : run pick (rounds + 1) = run pick rounds := by
  rw [run, hs]

theorem pick_eq_some_of_run {before after : List α} (ran : run pick rounds = before ++ item :: after) :
    pick before = some item := by
  induction rounds generalizing after with
  | zero => simp [run] at ran
  | succ rounds ih =>
    cases hp : pick (run pick rounds) with
    | none => exact ih ((run_succ_of_none hp).symm.trans ran)
    | some last =>
      rw [run_succ_of_some hp] at ran
      rcases eq_nil_or_concat after with rfl | ⟨past, final, rfl⟩
      · obtain ⟨same, only⟩ := append_inj' ran rfl
        cases only
        rw [← same]
        exact hp
      · rw [concat_eq_append, ← cons_append, ← append_assoc] at ran
        exact ih (append_inj' ran rfl).1

theorem length_run_le (rounds : Nat) : (run pick rounds).length ≤ rounds := by
  induction rounds with
  | zero => exact Nat.le_refl 0
  | succ rounds ih =>
    cases hp : pick (run pick rounds) with
    | none =>
      rw [run_succ_of_none hp]
      omega
    | some item =>
      rw [run_succ_of_some hp, length_append, length_singleton]
      omega

theorem stuck_of_length_lt (hb : (run pick rounds).length < rounds) : pick (run pick rounds) = none := by
  induction rounds with
  | zero => omega
  | succ rounds ih =>
    cases hp : pick (run pick rounds) with
    | none =>
      rw [run_succ_of_none hp]
      exact hp
    | some item =>
      rw [run_succ_of_some hp, length_append, length_singleton] at hb
      rw [ih (Nat.lt_of_succ_lt_succ hb)] at hp
      cases hp

section

variable {items : List α} (fresh : ∀ done item, pick done = some item → item ∈ items ∧ item ∉ done)

include fresh

theorem mem_of_mem_run (mem : item ∈ run pick rounds) : item ∈ items := by
  obtain ⟨before, after, ran⟩ := append_of_mem mem
  exact (fresh before item (pick_eq_some_of_run ran)).1

theorem nodup_run (rounds : Nat) : (run pick rounds).Nodup := by
  induction rounds with
  | zero => exact nodup_nil
  | succ rounds ih =>
    cases hp : pick (run pick rounds) with
    | none =>
      rw [run_succ_of_none hp]
      exact ih
    | some item =>
      rw [run_succ_of_some hp]
      exact nodup_append.mpr ⟨ih, nodup_singleton item, fun other mem same only he =>
        (fresh _ item hp).2 (mem_singleton.mp only ▸ he ▸ mem)⟩

theorem length_run_le_items (rounds : Nat) : (run pick rounds).length ≤ items.length :=
  ((nodup_run fresh rounds).subperm fun _ mem => mem_of_mem_run fresh mem).length_le

theorem stuck_of_items_le (he : items.length ≤ rounds) : pick (run pick rounds) = none := by
  cases hp : pick (run pick rounds) with
  | none => rfl
  | some item =>
    have hl := length_run_le_items fresh (rounds + 1)
    rw [run_succ_of_some hp, length_append, length_singleton] at hl
    have hb : (run pick rounds).length < rounds := by omega
    rw [stuck_of_length_lt hb] at hp
    cases hp

end

section

variable {α : Type} [LE α] [DecidableLE α] [Std.IsLinearOrder α]

theorem lawfulOrderMax_maxOfLe : @Std.LawfulOrderMax α maxOfLe _ := by
  let choice : Max α := maxOfLe
  have hc (first second : α) : max first second = if first ≤ second then second else first := rfl
  have he : Std.MaxEqOr α := ⟨fun first second => by
    rw [hc]
    split
    · exact .inr rfl
    · exact .inl rfl⟩
  have hb : Std.LawfulOrderSup α := ⟨fun first second third => by
    rw [hc]
    split
    · rename_i hd
      exact ⟨fun le => ⟨Std.le_trans hd le, le⟩, fun both => both.2⟩
    · rename_i ha
      have ho := (Std.le_total : first ≤ second ∨ second ≤ first).resolve_left ha
      exact ⟨fun le => ⟨le, Std.le_trans ho le⟩, fun both => both.1⟩⟩
  exact ⟨⟩

theorem exists_max {values : List α} (hn : values ≠ []) (otherwise : α) :
    (@List.max? α maxOfLe values).getD otherwise ∈ values ∧
      ∀ value ∈ values, value ≤ (@List.max? α maxOfLe values).getD otherwise := by
  let choice : Max α := maxOfLe
  have hl : Std.LawfulOrderMax α := lawfulOrderMax_maxOfLe
  cases hg : values.max? with
  | none => exact absurd (max?_eq_none_iff.mp hg) hn
  | some most =>
    exact max?_eq_some_iff.mp hg

end

end Selection
