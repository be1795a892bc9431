import Mathlib

namespace CheckThenAct

open List Function

/-- A caller checks in one step, and acts in its next one if the check let it pass. -/
inductive Phase
  | idle
  | passed
  | acted
  | refused

structure State (Caller : Type) where
  closed : Bool
  phase : Caller → Phase

variable {Caller : Type} [DecidableEq Caller] (state : State Caller)

def step (caller : Caller) : State Caller := match state.phase caller with
  | .idle => { state with phase := update state.phase caller (if state.closed then .refused else .passed) }
  | .passed => ⟨true, update state.phase caller .acted⟩
  | .acted => state
  | .refused => state

variable (schedule : List Caller)

def run : State Caller := schedule.foldl step state

def start : State Caller := ⟨false, fun _ => .idle⟩

variable {Label : Type}

/-- When the first caller acts one with another label has passed its check, and goes on to act. -/
def Conflicts (label : Caller → Label) (schedule : List Caller) : Prop :=
  ∃ before first after, schedule = before ++ first :: after ∧ before.Nodup ∧ first ∈ before ∧
    ∃ second ∈ before, label second ≠ label first ∧ second ∈ after

/-- When the first caller acts another one has passed its check, and goes on to act. -/
def Races : Prop := ∃ before first after, schedule = before ++ first :: after ∧ before.Nodup ∧ first ∈ before ∧
    ∃ second ∈ before, second ≠ first ∧ second ∈ after

theorem run_append (first second : List Caller) : run state (first ++ second) = run (run state first) second :=
  foldl_append

theorem run_nodup {schedule : List Caller} (hd : schedule.Nodup) :
    run start schedule = ⟨false, fun caller => if caller ∈ schedule then .passed else .idle⟩ := by
  induction schedule using List.reverseRecOn with
  | nil => simp [run, start]
  | append_singleton schedule last ih =>
    obtain ⟨he, _, hf⟩ := nodup_append.mp hd
    have hu : last ∉ schedule := fun mem => hf last mem last (by simp) rfl
    rw [run_append, ih he]
    simp only [run, foldl_cons, foldl_nil, step, hu, ↓reduceIte, Bool.false_eq_true, State.mk.injEq, true_and]
    funext caller
    by_cases same : caller = last
    · simp [same]
    · simp [same]

def outcome (phase : Phase) (steps : Bool) : Phase := match phase with
  | .idle => if steps then .refused else .idle
  | .passed => if steps then .acted else .passed
  | .acted => .acted
  | .refused => .refused

variable (phase : Caller → Phase)

theorem step_closed (caller : Caller) :
    step ⟨true, phase⟩ caller = ⟨true, update phase caller (outcome (phase caller) true)⟩ := by
  cases here : phase caller with
  | idle | passed => simp [step, outcome, here]
  | acted =>
    have same : update phase caller .acted = phase := by rw [← here, update_eq_self]
    simp [step, outcome, here, same]
  | refused =>
    have same : update phase caller .refused = phase := by rw [← here, update_eq_self]
    simp [step, outcome, here, same]

theorem run_closed (schedule : List Caller) :
    run ⟨true, phase⟩ schedule = ⟨true, fun caller => outcome (phase caller) (caller ∈ schedule)⟩ := by
  induction schedule generalizing phase with
  | nil =>
    rw [run, foldl_nil, State.mk.injEq]
    refine ⟨rfl, funext fun caller => ?_⟩
    cases here : phase caller <;> simp [outcome]
  | cons first schedule ih =>
    rw [run, foldl_cons, ← run, step_closed, ih, State.mk.injEq]
    refine ⟨rfl, funext fun caller => ?_⟩
    by_cases same : caller = first
    · subst same
      cases here : phase caller <;> simp [outcome]
    · simp [same]

theorem acted_iff {before after : List Caller} {first : Caller} (hd : before.Nodup) (ha : first ∈ before)
    (caller : Caller) :
    (run start (before ++ first :: after)).phase caller = .acted ↔ caller = first ∨ caller ∈ before ∧ caller ∈ after := by
  have hb : step ⟨false, fun other => if other ∈ before then .passed else .idle⟩ first =
      ⟨true, update (fun other => if other ∈ before then .passed else .idle) first .acted⟩ := by
    simp [step, ha]
  rw [run_append, run_nodup hd, run, foldl_cons, hb, ← run, run_closed]
  by_cases same : caller = first
  · simp [same, outcome]
  · by_cases hc : caller ∈ before <;> by_cases hl : caller ∈ after <;>
      simp [same, hc, hl, outcome]

theorem exists_first_repeat {schedule : List Caller} (hr : ¬ schedule.Nodup) :
    ∃ before first after, schedule = before ++ first :: after ∧ before.Nodup ∧ first ∈ before := by
  induction schedule using List.reverseRecOn with
  | nil => exact absurd nodup_nil hr
  | append_singleton schedule last ih =>
    by_cases hd : schedule.Nodup
    · refine ⟨schedule, last, [], rfl, hd, ?_⟩
      by_contra hf
      apply hr
      rw [← concat_eq_append]
      exact hd.concat hf
    · obtain ⟨before, first, after, hs, he, ha⟩ := ih hd
      exact ⟨before, first, after ++ [last], by rw [hs]; simp, he, ha⟩

theorem acted_agree_iff (label : Caller → Label) (schedule : List Caller) :
    (∀ left right, (run start schedule).phase left = .acted → (run start schedule).phase right = .acted →
      label left = label right) ↔ ¬ Conflicts label schedule := by
  constructor
  · intro ha hc
    obtain ⟨before, first, after, hs, hi, hg, second, hh, hd, hb⟩ := hc
    rw [hs] at ha
    exact hd (ha second first ((acted_iff hi hg second).mpr (.inr ⟨hh, hb⟩))
      ((acted_iff hi hg first).mpr (.inl rfl)))
  · intro free left right hl hr
    by_cases hi : schedule.Nodup
    · rw [run_nodup hi] at hl
      dsimp only at hl
      split_ifs at hl
    · obtain ⟨before, first, after, hs, he, hg⟩ := exists_first_repeat hi
      have only : ∀ caller, (run start schedule).phase caller = .acted → label caller = label first := by
        intro caller acts
        rw [hs] at acts
        rcases (acted_iff he hg caller).mp acts with same | ⟨hh, hb⟩
        · rw [same]
        · by_contra hd
          exact free ⟨before, first, after, hs, he, hg, caller, hh, hd, hb⟩
      rw [only left hl, only right hr]

theorem acts_at_most_once_iff :
    (∀ left right, (run start schedule).phase left = .acted → (run start schedule).phase right = .acted →
      left = right) ↔ ¬ Races schedule :=
  acted_agree_iff id schedule

theorem update_outline {Detail : Type} (outline : Detail → Phase) {phase : Caller → Phase} {detail : Caller → Detail}
    (ha : ∀ caller, phase caller = outline (detail caller)) (caller : Caller) (next : Detail) (other : Caller) :
    update phase caller (outline next) other = outline (update detail caller next other) := by
  by_cases same : other = caller
  · simp [same]
  · simp [same, ha]

end CheckThenAct
