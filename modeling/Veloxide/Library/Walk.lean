import Mathlib

namespace Walk

open List

variable {State Label : Type} {step : State → Option (Label × State)}

/-- The states that a walk leaves, with the labels of its steps, up to some state. -/
inductive Path (step : State → Option (Label × State)) : State → List (State × Label) → State → Prop
  | nil (state : State) : Path step state [] state
  | cons {state next last : State} {label : Label} {path : List (State × Label)}
      (taken : step state = some (label, next)) (rest : Path step next path last) :
      Path step state ((state, label) :: path) last

theorem Path.split {start middle last : State} {before after : List (State × Label)} {label : Label}
    (path : Path step start (before ++ (middle, label) :: after) last) : Path step start before middle := by
  induction before generalizing start with
  | nil =>
    cases path with
    | cons ht rest => exact .nil middle
  | cons head before ih =>
    cases path with
    | cons ht rest => exact .cons ht (ih rest)

theorem Path.extends_of_terminal {start middle last : State} {path shorter : List (State × Label)}
    (hw : Path step start path last) (ht : step last = none) (part : Path step start shorter middle) :
    ∃ rest, path = shorter ++ rest ∧ Path step middle rest last := by
  induction part generalizing path with
  | nil state => exact ⟨path, rfl, hw⟩
  | cons ha _ ih =>
    cases hw with
    | nil =>
      rw [ht] at ha
      cases ha
    | cons ho rest =>
      rw [ha] at ho
      cases ho
      obtain ⟨remainder, same, hl⟩ := ih rest
      exact ⟨remainder, by rw [same]; rfl, hl⟩

theorem Path.unique_of_terminal {start first second : State} {left right : List (State × Label)}
    (hw : Path step start left first) (ho : Path step start right second) (ht : step first = none)
    (hf : step second = none) : left = right ∧ first = second := by
  obtain ⟨rest, same, hl⟩ := hw.extends_of_terminal ht ho
  cases hl with
  | nil => exact ⟨by rw [same, append_nil], rfl⟩
  | cons ha _ =>
    rw [hf] at ha
    cases ha

theorem Path.not_terminal_of_revisit {start last again : State} {path loop : List (State × Label)}
    (hr : Path step start loop again) (left : again ∈ loop.map Prod.fst) (hw : Path step start path last) :
    step last ≠ none := by
  intro ht
  obtain ⟨⟨state, label⟩, mem, rfl⟩ := mem_map.mp left
  obtain ⟨before, after, rfl⟩ := append_of_mem mem
  obtain ⟨first, ho, hf⟩ := hw.extends_of_terminal ht hr.split
  obtain ⟨second, ha, hs⟩ := hw.extends_of_terminal ht hr
  obtain ⟨same, _⟩ := hf.unique_of_terminal hs ht ht
  rw [ho, same] at ha
  have hl := congrArg List.length ha
  simp only [length_append, length_cons] at hl
  omega

end Walk
