import Mathlib

open List

/-- What a binary heap answers on its entries: one of the greatest, and which of them is open. -/
structure HeapOrder {α : Type} (cmp : α → α → Ordering) where
  peek : List α → Option α
  eq_nil_of_peek : ∀ {entries}, peek entries = none → entries = []
  mem_of_peek : ∀ {entries top}, peek entries = some top → top ∈ entries
  le_of_peek : ∀ {entries top other}, peek entries = some top → other ∈ entries → (cmp other top).isLE = true

namespace HeapOrder

open Std

variable {α : Type} (cmp : α → α → Ordering) [TransCmp cmp]

theorem exists_greatest {entries : List α} (hn : entries ≠ []) :
    ∃ top ∈ entries, ∀ other ∈ entries, (cmp other top).isLE = true := by
  induction entries with
  | nil => exact absurd rfl hn
  | cons entry entries ih =>
    have self : (cmp entry entry).isLE = true := ReflCmp.isLE_rfl
    by_cases last : entries = []
    · subst last
      exact ⟨entry, mem_singleton_self entry, by simpa using self⟩
    obtain ⟨top, mem, hg⟩ := ih last
    by_cases hb : (cmp entry top).isLE = true
    · exact ⟨top, mem_cons_of_mem entry mem, forall_mem_cons.mpr ⟨hb, hg⟩⟩
    · have ha : (cmp top entry).isLE = true := by
        rw [@OrientedCmp.eq_swap α cmp _ top entry]
        cases ho : cmp entry top <;> simp_all
      exact ⟨entry, mem_cons_self, forall_mem_cons.mpr
        ⟨self, fun other hl => TransCmp.isLE_trans (hg other hl) ha⟩⟩

def scan : HeapOrder cmp where
  peek entries := entries.find? fun top => entries.all fun other => (cmp other top).isLE
  eq_nil_of_peek := by
    intro entries nothing
    by_contra nonempty
    obtain ⟨top, mem, greatest⟩ := exists_greatest cmp nonempty
    exact find?_eq_none.mp nothing top mem (by simpa using greatest)
  mem_of_peek := mem_of_find?_eq_some
  le_of_peek := by
    intro entries top other found mem
    have greatest := find?_some found
    exact all_eq_true.mp greatest other mem

end HeapOrder
