import Mathlib

namespace Machine

open List

structure Event (State Call Reply : Type) where
  before : State
  call : Call
  reply : Reply
  after : State

variable {State Call Reply : Type}

section

variable (step : State → Call → Reply × State) (state : State)

def event (call : Call) : Event State Call Reply := ⟨state, call, (step state call).1, (step state call).2⟩

def trace : State → List Call → List (Event State Call Reply)
  | _, [] => []
  | state, call :: calls => event step state call :: trace (step state call).2 calls

def final : State → List Call → State
  | state, [] => state
  | state, call :: calls => final (step state call).2 calls

variable (first : List Call) (second : List Call)

theorem final_append : final step state (first ++ second) = final step (final step state first) second := by
  induction first generalizing state with
  | nil => rfl
  | cons call first ih => exact ih (step state call).2

theorem trace_append : trace step state (first ++ second) =
    trace step state first ++ trace step (final step state first) second := by
  induction first generalizing state with
  | nil => rfl
  | cons call first ih =>
    simp only [cons_append, trace, final]
    rw [ih]

theorem trace_append_singleton (calls : List Call) (call : Call) :
    trace step state (calls ++ [call]) = trace step state calls ++ [event step (final step state calls) call] :=
  trace_append step state calls [call]

theorem trace_calls (calls : List Call) : (trace step state calls).map Event.call = calls := by
  induction calls generalizing state with
  | nil => rfl
  | cons call calls ih => simp only [trace, map_cons, ih, event]

variable {start : State} {here : Event State Call Reply} {calls : List Call}

theorem call_mem_of_trace {past : List (Event State Call Reply)}
    (run : trace step start calls = past) (mem : here ∈ past) : here.call ∈ calls := by
  have hc := mem_map_of_mem (f := Event.call) mem
  rwa [← run, trace_calls] at hc

theorem exists_of_call_mem (start : State) {call : Call} (mem : call ∈ calls) :
    ∃ here ∈ trace step start calls, here.call = call := by
  rw [← trace_calls step start calls] at mem
  exact mem_map.mp mem

theorem event_of_mem_trace (mem : here ∈ trace step start calls) : here = event step here.before here.call := by
  induction calls generalizing start with
  | nil => cases mem
  | cons call calls ih =>
    rcases mem_cons.mp mem with same | later
    · rw [same]
      rfl
    · exact ih later

theorem trace_split {before after : List (Event State Call Reply)}
    (run : trace step start calls = before ++ here :: after) :
    ∃ first rest, calls = first ++ here.call :: rest ∧ before = trace step start first ∧
      here = event step (final step start first) here.call ∧ after = trace step here.after rest := by
  induction before generalizing start calls with
  | nil =>
    cases calls with
    | nil => contradiction
    | cons call calls =>
      obtain ⟨first, rest⟩ := List.cons.inj run
      subst first rest
      exact ⟨[], calls, rfl, rfl, rfl, rfl⟩
  | cons past before ih =>
    cases calls with
    | nil => contradiction
    | cons call calls =>
      obtain ⟨same, run⟩ := List.cons.inj run
      obtain ⟨first, rest, hs, he, hp, hl⟩ := ih run
      refine ⟨call :: first, rest, by rw [hs]; rfl, ?_, hp, hl⟩
      rw [he, ← same]
      rfl

theorem final_invariant (invariant : List Call → State → Prop) (hi : invariant [] start)
    (next : ∀ past state call, invariant past state → invariant (past ++ [call]) (step state call).2)
    (calls : List Call) : invariant calls (final step start calls) := by
  induction calls using List.reverseRecOn with
  | nil => exact hi
  | append_singleton calls call ih =>
    rw [final_append]
    exact next calls _ call ih

def Guarded (guard : State → Call → Prop) : State → List Call → Prop
  | _, [] => True
  | state, call :: calls => guard state call ∧ Guarded guard (step state call).2 calls

variable (guard : State → Call → Prop)

theorem Guarded.append_iff (state : State) (first second : List Call) : Guarded step guard state (first ++ second) ↔
    Guarded step guard state first ∧ Guarded step guard (final step state first) second := by
  induction first generalizing state with
  | nil => simp [Guarded, final]
  | cons call first ih => simp only [cons_append, Guarded, final, ih, and_assoc]

theorem Guarded.iff_forall_split (start : State) (calls : List Call) : Guarded step guard start calls ↔
    ∀ before call after, calls = before ++ call :: after → guard (final step start before) call := by
  constructor
  · intro hg before call after hs
    rw [hs, Guarded.append_iff] at hg
    exact hg.2.1
  · intro hh
    induction calls generalizing start with
    | nil => exact trivial
    | cons call calls ih =>
      refine ⟨hh [] call calls rfl, ih (step start call).2 fun before next after hs => ?_⟩
      exact hh (call :: before) next after (by rw [hs]; rfl)

theorem Guarded.iff_forall_trace (start : State) (calls : List Call) :
    Guarded step guard start calls ↔ ∀ event ∈ trace step start calls, guard event.before event.call := by
  induction calls generalizing start with
  | nil => simp [Guarded, trace]
  | cons call calls ih =>
    rw [Guarded, trace, forall_mem_cons, ih]
    rfl

/-- What a step keeps under exactly the guard holds at every point of exactly the guarded runs. -/
theorem Guarded.iff_forall_prefix (allowed : State → Call → Prop) (holds : State → Prop)
    (next : ∀ state call, holds state → allowed state call → (holds (step state call).2 ↔ guard state call))
    {start : State} (hi : holds start) (hp : Guarded step allowed start calls) :
    (∀ past, past <+: calls → holds (final step start past)) ↔ Guarded step guard start calls := by
  induction calls generalizing start with
  | nil => exact iff_of_true (fun _ he => prefix_nil.mp he ▸ hi) trivial
  | cons call calls ih =>
    have here := next start call hi hp.1
    constructor
    · intro all
      have hr := all [call] ⟨calls, rfl⟩
      exact ⟨here.mp hr, (ih hr hp.2).mp fun past hw =>
        all (call :: past) ((prefix_cons_inj call).mpr hw)⟩
    · intro hg past hw
      rcases prefix_cons_iff.mp hw with rfl | ⟨rest, rfl, hs⟩
      · exact hi
      · exact (ih (here.mpr hg.1) hp.2).mpr hg.2 rest hs

/-- What holds at the start and is kept by each guarded call holds of every guarded run. -/
theorem history_invariant (invariant : List (Event State Call Reply) → State → Prop) (start : State)
    (hi : invariant [] start) (next : ∀ past state call, invariant past state → guard state call →
      invariant (past ++ [event step state call]) (step state call).2)
    (calls : List Call) (hg : Guarded step guard start calls) :
    invariant (trace step start calls) (final step start calls) := by
  induction calls using List.reverseRecOn with
  | nil => exact hi
  | append_singleton calls call ih =>
    rw [Guarded.append_iff] at hg
    rw [trace_append, final_append]
    exact next _ _ _ (ih hg.1) hg.2.1

/-- Invariants over the history of runs that are permitted as a whole, as are their beginnings. -/
theorem permitted_invariant (allows : List Call → Prop) (hc : ∀ calls call, allows (calls ++ [call]) → allows calls)
    (invariant : List (Event State Call Reply) → State → Prop) (hi : invariant [] start)
    (next : ∀ calls call, allows (calls ++ [call]) → invariant (trace step start calls) (final step start calls) →
      invariant (trace step start calls ++ [event step (final step start calls) call]) (step (final step start calls) call).2)
    (calls : List Call) (ha : allows calls) : invariant (trace step start calls) (final step start calls) := by
  induction calls using List.reverseRecOn with
  | nil => exact hi
  | append_singleton calls call ih =>
    rw [trace_append_singleton, final_append]
    exact next calls call ha (ih (hc calls call ha))

/-- What holds of exactly the good events holds of all events in exactly the runs of good ones. -/
theorem forall_trace_iff (invariant : State → Prop) (holds good : Event State Call Reply → Prop)
    (next : ∀ state call, invariant state → guard state call → (holds (event step state call) ↔
      good (event step state call)) ∧ (good (event step state call) → invariant (step state call).2))
    (hi : invariant start) (hg : Guarded step guard start calls) :
    (∀ event ∈ trace step start calls, holds event) ↔ ∀ event ∈ trace step start calls, good event := by
  induction calls generalizing start with
  | nil => simp [trace]
  | cons call calls ih =>
    obtain ⟨here, kept⟩ := next start call hi hg.1
    simp only [trace, forall_mem_cons, here]
    exact and_congr_right fun hs => ih (kept hs) hg.2

/-- A part of the state that only some calls touch is as if the other calls had not been made. -/
theorem projection {View : Type} (view : State → View) (about : Call → Bool)
    (here : ∀ state twin call, about call = true → view state = view twin → (step state call).1 =
      (step twin call).1 ∧ view (step state call).2 = view (step twin call).2)
    (he : ∀ state call, about call = false → view (step state call).2 = view state) {twin : State}
    (same : view start = view twin) (calls : List Call) :
    ((trace step start calls).filter fun event => about event.call).map Event.reply =
        (trace step twin (calls.filter about)).map Event.reply ∧
      view (final step start calls) = view (final step twin (calls.filter about)) := by
  induction calls generalizing start twin with
  | nil => exact ⟨rfl, same⟩
  | cons call calls ih =>
    cases hd : about call with
    | true =>
      obtain ⟨hr, hv⟩ := here start twin call hd same
      obtain ⟨hl, last⟩ := ih hv
      rw [filter_cons_of_pos hd, trace, filter_cons_of_pos (by simpa [event] using hd)]
      simp only [trace, final, map_cons, event, hr, hl, last, and_self]
    | false =>
      rw [filter_cons_of_neg (by simp [hd]), trace, filter_cons_of_neg (by simp [event, hd])]
      exact ih ((he start call hd).trans same)

section

variable {Other Answer : Type} (other : Other → Call → Answer × Other) (related : State → Other → Prop)
  (agree : Reply → Answer → Prop) {twin : Other}

/-- Two machines that are kept related by each permitted call answer every permitted run alike. -/
theorem simulation (allows : Call → Prop)
    (next : ∀ state twin call, related state twin → allows call → agree (step state call).1 (other twin call).1 ∧
      related (step state call).2 (other twin call).2)
    {start : State} (hi : related start twin) {calls : List Call} (ha : ∀ call ∈ calls, allows call) :
    List.Forall₂ agree ((trace step start calls).map Event.reply) ((trace other twin calls).map Event.reply) ∧
      related (final step start calls) (final other twin calls) := by
  induction calls generalizing start twin with
  | nil => exact ⟨.nil, hi⟩
  | cons call calls ih =>
    obtain ⟨hn, hm⟩ := next start twin call hi (ha call mem_cons_self)
    obtain ⟨hl, last⟩ := ih hm fun other mem => ha other (mem_cons_of_mem call mem)
    exact ⟨.cons hn hl, last⟩

/-- Two machines that agree exactly on the good calls agree on exactly the runs of good calls. -/
theorem lockstep_iff (good : Other → Call → Prop) (allows : Call → Prop)
    (next : ∀ state twin call, related state twin → allows call →
      (agree (step state call).1 (other twin call).1 ↔ good twin call) ∧ (good twin call →
      related (step state call).2 (other twin call).2))
    {start : State} (hi : related start twin) {calls : List Call} (ha : ∀ call ∈ calls, allows call) :
    (List.Forall₂ agree ((trace step start calls).map Event.reply) ((trace other twin calls).map Event.reply) ↔
        Guarded other good twin calls) ∧
      (Guarded other good twin calls → related (final step start calls) (final other twin calls)) := by
  induction calls generalizing start twin with
  | nil => exact ⟨iff_of_true .nil trivial, fun _ => hi⟩
  | cons call calls ih =>
    obtain ⟨hg, kept⟩ := next start twin call hi (ha call mem_cons_self)
    have rest (hs : good twin call) := ih (kept hs) fun later mem => ha later (mem_cons_of_mem call mem)
    simp only [trace, final, map_cons, forall₂_cons, Guarded]
    refine ⟨⟨fun both => ?_, fun both => ?_⟩, fun both => (rest both.1).2 both.2⟩
    · have hs := hg.mp both.1
      exact ⟨hs, (rest hs).1.mp both.2⟩
    · exact ⟨hg.mpr both.1, (rest both.1).1.mpr both.2⟩

end

section

variable (counter : State → Nat) (issued : Event State Call Reply → Option Nat)

/-- Numbers that are handed out above a counter, which never falls and covers them, increase. -/
theorem issued_increasing (next : ∀ state call, counter state ≤ counter (step state call).2 ∧
      ∀ number, issued (event step state call) = some number →
        counter state < number ∧ number ≤ counter (step state call).2) (start : State) (calls : List Call) :
    ((trace step start calls).filterMap issued).Pairwise (· < ·) ∧
      ∀ number ∈ (trace step start calls).filterMap issued, counter start < number := by
  induction calls generalizing start with
  | nil => exact ⟨.nil, nofun⟩
  | cons call calls ih =>
    obtain ⟨hg, hc⟩ := next start call
    obtain ⟨hl, ha⟩ := ih (step start call).2
    rw [trace, filterMap_cons]
    cases hf : issued (event step start call) with
    | none => exact ⟨hl, fun number mem => Nat.lt_of_le_of_lt hg (ha number mem)⟩
    | some first =>
      obtain ⟨hh, most⟩ := hc first hf
      refine ⟨pairwise_cons.mpr ⟨fun number mem => Nat.lt_of_le_of_lt most (ha number mem), hl⟩, ?_⟩
      intro number mem
      rcases mem_cons.mp mem with same | rest
      · rw [same]
        exact hh
      · exact Nat.lt_of_le_of_lt hg (ha number rest)

end

theorem Guarded.trivial (calls : List Call) : Guarded step (fun _ _ => True) state calls := by
  induction calls generalizing state with
  | nil => exact trivial
  | cons call calls ih => exact ⟨trivial, ih (step state call).2⟩

end

section

variable {Failure : Type} {step : State → Call → Except Failure State} {start : State}

theorem accepted_append_singleton {last : State} {calls : List Call} {call : Call}
    (ha : (calls ++ [call]).foldlM step start = .ok last) :
    ∃ middle, calls.foldlM step start = .ok middle ∧ step middle call = .ok last := by
  rw [foldlM_append] at ha
  cases hr : calls.foldlM step start with
  | error err =>
    rw [hr] at ha
    contradiction
  | ok middle =>
    refine ⟨middle, rfl, ?_⟩
    rw [hr] at ha
    have hs : (step middle call >>= pure) = .ok last := ha
    rwa [bind_pure] at hs

theorem accepted_invariant (invariant : List Call → State → Prop) (hi : invariant [] start)
    (next : ∀ calls state call after, invariant calls state → step state call = .ok after → invariant (calls ++ [call]) after)
    (calls : List Call) (last : State) (ha : calls.foldlM step start = .ok last) : invariant calls last := by
  induction calls using List.reverseRecOn generalizing last with
  | nil =>
    cases ha
    exact hi
  | append_singleton calls call ih =>
    obtain ⟨middle, hr, hf⟩ := accepted_append_singleton ha
    exact next calls middle call last (ih middle hr) hf

end

section

variable {Item : Type} (step : State → Item → Option State) (stop : State → Prop)

/-- What a left fold takes of `items` when it ends after the first item that leads to a stopping state. -/
structure StopsAt (start : State) (items consumed : List Item) (last : State) : Prop where
  isPrefix : consumed <+: items
  folds : consumed.foldlM step start = some last
  running : ∀ earlier state, earlier <+: consumed → earlier ≠ consumed →
    earlier.foldlM step start = some state → ¬ stop state
  exhausted : consumed = items ∨ stop last

variable {step stop} {start last middle : State} {item : Item} {items consumed : List Item}

theorem StopsAt.nil_iff : StopsAt step stop start [] consumed last ↔ consumed = [] ∧ last = start := by
  constructor
  · intro ht
    have he := prefix_nil.mp ht.isPrefix
    have hf := ht.folds
    subst he
    exact ⟨rfl, (Option.some.inj hf).symm⟩
  · intro ho
    obtain ⟨rfl, rfl⟩ := ho
    refine ⟨ nil_prefix, rfl, ?_, .inl rfl⟩
    intro past state hs hp
    exact absurd (prefix_nil.mp hs) hp

theorem StopsAt.stop_cons (runs : ¬ stop start) (ha : step start item = some middle)
    (ht : stop middle) : StopsAt step stop start (item :: items) [item] middle := by
  refine ⟨⟨items, rfl⟩, by simp [ha], ?_, .inr ht⟩
  intro past state hs hp hf
  have he : past = [] := by
    rcases past with _ | ⟨first, rest⟩
    · rfl
    · obtain ⟨same, tail⟩ := cons_prefix_cons.mp hs
      exact absurd (by rw [same, prefix_nil.mp tail]) hp
  subst he
  cases hf
  exact runs

theorem StopsAt.cons (runs : ¬ stop start) (ha : step start item = some middle)
    (rest : StopsAt step stop middle items consumed last) :
    StopsAt step stop start (item :: items) (item :: consumed) last := by
  refine ⟨(prefix_cons_inj item).mpr rest.isPrefix, by simp [ha, rest.folds], ?_, ?_⟩
  · intro past state hs hp hf
    rcases past with _ | ⟨first, past⟩
    · cases hf
      exact runs
    · obtain ⟨same, tail⟩ := cons_prefix_cons.mp hs
      subst same
      simp only [foldlM_cons, ha, Option.bind_eq_bind, Option.bind_some] at hf
      exact rest.running past state tail (fun same => hp (by rw [same])) hf
  · rcases rest.exhausted with same | stops
    · exact .inl (by rw [same])
    · exact .inr stops

theorem StopsAt.cons_cases (runs : ¬ stop start) (stops : StopsAt step stop start (item :: items) consumed last) :
    ∃ middle, step start item = some middle ∧ ((stop middle ∧ consumed = [item] ∧ last = middle) ∨
        (¬ stop middle ∧ ∃ rest, consumed = item :: rest ∧ StopsAt step stop middle items rest last)) := by
  obtain ⟨hc, hf, hr, he⟩ := stops
  rcases consumed with _ | ⟨first, rest⟩
  · cases hf
    rcases he with hi | stops
    · contradiction
    · exact absurd stops runs
  obtain ⟨rfl, hs⟩ := cons_prefix_cons.mp hc
  rw [foldlM_cons, Option.bind_eq_bind, Option.bind_eq_some_iff] at hf
  obtain ⟨middle, ha, hf⟩ := hf
  refine ⟨middle, ha, ?_⟩
  by_cases ht : stop middle
  · left
    by_cases hm : rest = []
    · subst hm
      cases hf
      exact ⟨ht, rfl, rfl⟩
    · refine absurd ht (hr [first] middle ⟨rest, rfl⟩ ?_ (by simp [ha]))
      intro same
      exact hm (List.cons.inj same).2.symm
  · refine .inr ⟨ht, rest, rfl, hs, hf, ?_, ?_⟩
    · intro past state hb hp hd
      refine hr (first :: past) state ((prefix_cons_inj first).mpr hb)
        (fun same => hp (List.cons.inj same).2) ?_
      simp [ha, hd]
    · rcases he with same | stops
      · exact .inl (List.cons.inj same).2
      · exact .inr stops

theorem StopsAt.invariant (hs : StopsAt step stop start items consumed last) (holds : State → Prop) (hi : holds start)
    (next : ∀ state item after, holds state → step state item = some after → holds after) : holds last := by
  have hf := hs.folds
  clear hs
  induction consumed generalizing start with
  | nil =>
    cases hf
    exact hi
  | cons item consumed ih =>
    rw [foldlM_cons, Option.bind_eq_bind, Option.bind_eq_some_iff] at hf
    obtain ⟨middle, ha, hf⟩ := hf
    exact ih (next start item middle hi ha) hf

end

end Machine
