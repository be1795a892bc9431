import Veloxide.CircuitBreaker.Breaker

namespace Veloxide.CircuitBreaker

open Machine List

variable {config : CircuitBreakerConfig} {workflowName : WorkflowName}

section

variable {first rest : List Call} {call earlier : Call}

theorem Timed.of_append (ht : Timed (first ++ rest)) : Timed first := by
  rw [Timed, filterMap_append] at ht
  exact (pairwise_append.mp ht).1

theorem Timed.le (ht : Timed (first ++ call :: rest)) {past now : Instant} (mem : earlier ∈ first)
    (hb : earlier.time = some past) (here : call.time = some now) : past ≤ now := by
  rw [Timed, filterMap_append, filterMap_cons_some here] at ht
  exact (pairwise_append.mp ht).2.2 past (mem_filterMap.mpr ⟨earlier, mem, hb⟩) now mem_cons_self

end

section

theorem le_roundedSeconds {rest : Nat} (fits : rest ≤ (2 ^ 64 - 1) * 10 ^ 9) :
    rest ≤ (UInt64.ofNat (rest / 10 ^ 9) + if 0 < rest % 10 ^ 9 then 1 else 0).toNat * 10 ^ 9 := by
  have hw : (UInt64.ofNat (rest / 10 ^ 9)).toNat = rest / 10 ^ 9 :=
    UInt64.toNat_ofNat_of_lt' (by rw [UInt64.size]; omega)
  split_ifs with part
  · have less : rest / 10 ^ 9 + 1 < 2 ^ 64 := by omega
    rw [UInt64.toNat_add, hw, UInt64.toNat_one, Nat.mod_eq_of_lt less, Nat.mul_comm]
    exact (Nat.lt_mul_div_succ rest (by decide)).le
  · rw [UInt64.add_zero, hw]
    exact (Nat.div_mul_cancel (Nat.dvd_of_mod_eq_zero (Nat.eq_zero_of_not_pos part))).ge

variable {last now window : Nat} {retryAfterSecs : UInt64}

theorem checkRateLimit_none : checkRateLimit (some last) window now = none ↔ window ≤ now - last := by
  rw [checkRateLimit, durationSince]
  split_ifs with free
  · simp [free]
  · simp [free]

theorem checkRateLimit_some (fits : window ≤ (2 ^ 64 - 1) * 10 ^ 9)
    (hl : checkRateLimit (some last) window now = some retryAfterSecs) :
    window ≤ now - last + retryAfterSecs.toNat * 10 ^ 9 := by
  rw [checkRateLimit, durationSince] at hl
  split_ifs at hl with free
  have left : window - (now - last) ≤ (2 ^ 64 - 1) * 10 ^ 9 := by omega
  have hr := le_roundedSeconds left
  have hs := Option.some.inj hl
  rw [show UInt64.ofNat ((window - (now - last)) / 10 ^ 9) +
    (if 0 < (window - (now - last)) % 10 ^ 9 then 1 else 0) = retryAfterSecs from hs] at hr
  omega

theorem elapsed_of_promise {soon seconds : Nat} (hp : window ≤ now - last + seconds) (ho : last ≤ now)
    (ha : now + seconds ≤ soon) : window ≤ soon - last := by
  omega

end

section

def Allows (workflowName : WorkflowName) (now : Instant) (event : Event) : Prop :=
  event.call.workflowName = workflowName ∧ event.call.time = some now ∧ event.reply = .evaluated (.ok .allowed)

def Unquarantines (workflowName : WorkflowName) (event : Event) : Prop :=
  event.call.workflowName = workflowName ∧ ∃ result, event.reply = .unquarantined (.ok result)

def Requests (workflowName : WorkflowName) (now : Instant) (call : Call) : Prop :=
  ∃ hash, call = .evaluateRegistration ⟨workflowName, hash, none⟩ now

def Unregistered (state : CircuitBreakerState) : Prop := state.rateLimiter = ∅

variable {state : CircuitBreakerState} {call : Call} {now : Instant}

theorem allows_stamps {now : Instant} (ha : Allows workflowName now (event (step config) state call)) :
    ((step config state call).2.account workflowName).lastRegistration = some now := by
  obtain ⟨hb, time, hr⟩ := ha
  replace hb : call.workflowName = workflowName := hb
  replace time : call.time = some now := time
  replace hr : (step config state call).1 = .evaluated (.ok .allowed) := hr
  subst hb
  have hm := @step_moves config state call
  rw [hr] at hm
  generalize (step config state call).2.account call.workflowName = after at hm ⊢
  cases hm with
  | forced | registered =>
    cases time
    rfl
  | blocked _ _ ho => rcases ho with impossible | impossible <;> cases impossible

theorem lastRegistration_step : ((step config state call).2.account workflowName).lastRegistration =
      (state.account workflowName).lastRegistration ∨
    (∃ now, call.time = some now ∧ call.workflowName = workflowName ∧
      ((step config state call).2.account workflowName).lastRegistration = some now) ∨
    (Unquarantines workflowName (event (step config) state call) ∧
      ((step config state call).2.account workflowName).lastRegistration = none) := by
  by_cases ha : call.workflowName = workflowName
  · subst ha
    have hm := @step_moves config state call
    show _ ∨ _ ∨ ((call.workflowName = call.workflowName ∧
      ∃ result, (step config state call).1 = .unquarantined (.ok result)) ∧ _)
    generalize (step config state call).2.account call.workflowName = after at hm ⊢
    generalize (step config state call).1 = reply at hm ⊢
    cases hm with
    | unauthorized | blocked | limited | ignored | counted | tripped | refused => exact .inl rfl
    | forced | registered => exact .inr (.inl ⟨_, rfl, rfl, rfl⟩)
    | released => exact .inr (.inr ⟨⟨rfl, _, rfl⟩, rfl⟩)
  · exact .inl (congrArg Account.lastRegistration ((step_touches call).elsewhere workflowName ha))

/-- The time that is kept is that of a call, and not before an allowed registration that still counts. -/
structure Stamped (workflowName : WorkflowName) (history : List Event) (state : CircuitBreakerState) : Prop where
  made : ∀ last, (state.account workflowName).lastRegistration = some last →
    ∃ event ∈ history, event.call.time = some last
  newest : ∀ earlier event later now, history = earlier ++ event :: later → Allows workflowName now event →
    (∀ other ∈ later, ¬ Unquarantines workflowName other) →
      ∃ last, (state.account workflowName).lastRegistration = some last ∧ now ≤ last

theorem Stamped.step {history : List Event} (hs : Stamped workflowName history state)
    (ht : ∀ event ∈ history, ∀ past now, event.call.time = some past → call.time = some now → past ≤ now) :
    Stamped workflowName (history ++ [Machine.event (step config) state call]) (step config state call).2 := by
  constructor
  · intro last hr
    rcases @lastRegistration_step config workflowName state call with same | ⟨now, time, _, set⟩ | ⟨_, hc⟩
    · obtain ⟨event, mem, made⟩ := hs.made last (same.symm.trans hr)
      exact ⟨event, mem_append_left _ mem, made⟩
    · cases set.symm.trans hr
      exact ⟨_, mem_append_right _ mem_cons_self, time⟩
    · cases hc.symm.trans hr
  · intro earlier event later past hp ha kept
    rcases eq_nil_or_concat later with rfl | ⟨between, latest, rfl⟩
    · obtain ⟨rfl, same⟩ := append_inj' hp rfl
      cases same
      exact ⟨past, allows_stamps ha, Nat.le_refl _⟩
    · rw [concat_eq_append, ← cons_append, ← append_assoc] at hp
      obtain ⟨rfl, same⟩ := append_inj' hp rfl
      cases same
      rw [concat_eq_append, forall_mem_append] at kept
      obtain ⟨last, hr, hn⟩ := hs.newest earlier event between past rfl ha kept.1
      rcases @lastRegistration_step config workflowName state call with same | ⟨now, time, _, set⟩ | ⟨hc, _⟩
      · exact ⟨last, same.trans hr, hn⟩
      · exact ⟨now, set, ht event (by simp) past now ha.2.1 time⟩
      · exact absurd hc (kept.2 _ mem_cons_self)

theorem stamped_reached (config : CircuitBreakerConfig) (workflowName : WorkflowName) {start : CircuitBreakerState}
    (hf : Unregistered start) {calls : List Call} (ht : Timed calls) :
    Stamped workflowName (trace (CircuitBreaker.step config) start calls)
      (final (CircuitBreaker.step config) start calls) := by
  refine permitted_invariant (CircuitBreaker.step config) Timed (fun calls call => Timed.of_append)
    (Stamped workflowName) ⟨fun last hr => ?_, fun earlier event later now hp => ?_⟩ ?_ calls ht
  · rw [CircuitBreakerState.account, hf] at hr
    simp at hr
  · simp at hp
  · intro calls call ht hs
    refine hs.step fun event mem past now hb here => ht.le ?_ hb here
    exact call_mem_of_trace (CircuitBreaker.step config) rfl mem

end

section

variable {state : CircuitBreakerState} {call : Call} {now : Instant}

theorem request_spaced {last : Instant} (hr : Requests workflowName now call)
    (registered : (state.account workflowName).lastRegistration = some last)
    (ha : (step config state call).1 = .evaluated (.ok .allowed)) : config.rateLimitWindow ≤ now - last := by
  obtain ⟨hash, rfl⟩ := hr
  have hm := @step_moves config state (.evaluateRegistration ⟨workflowName, hash, none⟩ now)
  rw [ha] at hm
  simp only [Call.workflowName] at hm
  generalize (step config state _).2.account workflowName = after at hm
  cases hm with
  | forced forced => cases forced
  | blocked _ _ ho => rcases ho with impossible | impossible <;> cases impossible
  | registered _ _ free =>
    rw [registered] at free
    exact checkRateLimit_none.mp free

theorem request_limited {retryAfterSecs : UInt64} (he : Requests workflowName now call)
    (limited : (step config state call).1 = .evaluated (.ok (.rateLimited retryAfterSecs))) :
    (step config state call).2.account workflowName = state.account workflowName ∧
      (state.account workflowName).standing = .active ∧
      ∃ last, (state.account workflowName).lastRegistration = some last ∧
        checkRateLimit (some last) config.rateLimitWindow now = some retryAfterSecs := by
  obtain ⟨hash, rfl⟩ := he
  have hm := @step_moves config state (.evaluateRegistration ⟨workflowName, hash, none⟩ now)
  rw [limited] at hm
  simp only [Call.workflowName] at hm
  generalize (step config state _).2.account workflowName = after at hm
  cases hm with
  | blocked _ _ ho => rcases ho with impossible | impossible <;> cases impossible
  | limited _ ha hr limited => exact ⟨rfl, ha, _, hr, limited⟩

theorem request_allowed {last : Instant} (hr : Requests workflowName now call)
    (ha : (state.account workflowName).standing = .active)
    (registered : (state.account workflowName).lastRegistration = some last)
    (free : config.rateLimitWindow ≤ now - last) : (step config state call).1 = .evaluated (.ok .allowed) := by
  obtain ⟨hash, rfl⟩ := hr
  have hm := @step_moves config state (.evaluateRegistration ⟨workflowName, hash, none⟩ now)
  simp only [Call.workflowName] at hm
  generalize (step config state _).2.account workflowName = after at hm
  generalize (step config state _).1 = reply at hm ⊢
  cases hm with
  | unauthorized forced | forced forced => cases forced
  | blocked _ hi => exact absurd ha hi
  | limited _ _ same limited =>
    cases same.symm.trans registered
    cases (checkRateLimit_none.mpr free).symm.trans limited
  | registered => rfl

theorem account_elsewhere {calls : List Call} (ho : ∀ call ∈ calls, call.workflowName ≠ workflowName) :
    (final (step config) state calls).account workflowName = state.account workflowName := by
  induction calls generalizing state with
  | nil => rfl
  | cons call calls ih =>
    obtain ⟨here, hl⟩ := forall_mem_cons.mp ho
    rw [final, ih hl, (step_touches call).elsewhere workflowName here]

theorem registration_spacing (config : CircuitBreakerConfig)
    (fits : config.rateLimitWindow ≤ (2 ^ 64 - 1) * 10 ^ 9) (start : CircuitBreakerState) (fresh : Unregistered start)
    (calls : List Call) (timed : Timed calls) (workflowName : WorkflowName) :
    (∀ earlier first between second later past now,
      trace (step config) start calls = earlier ++ first :: (between ++ second :: later) →
        Allows workflowName past first → Requests workflowName now second.call → Allows workflowName now second →
          (∀ event ∈ between, ¬ Unquarantines workflowName event) → past + config.rateLimitWindow ≤ now) ∧
      ∀ earlier limited between next later now soon retryAfterSecs,
        trace (step config) start calls = earlier ++ limited :: (between ++ next :: later) →
          Requests workflowName now limited.call → limited.reply = .evaluated (.ok (.rateLimited retryAfterSecs)) →
              (∀ event ∈ between, event.call.workflowName ≠ workflowName) → Requests workflowName soon next.call →
                now + retryAfterSecs.toNat * 10 ^ 9 ≤ soon → next.reply = .evaluated (.ok .allowed) := by
  constructor
  · intro earlier first between second later past now run ha he allowed kept
    rw [← cons_append, ← append_assoc] at run
    obtain ⟨front, rest, hd, hf, hp, _⟩ := trace_split (step config) run
    rw [hd] at timed
    obtain ⟨last, hr, hn⟩ :=
      (stamped_reached config workflowName fresh timed.of_append).newest earlier first between past hf.symm ha kept
    have reply := allowed.2.2
    rw [hp] at reply
    have hs := request_spaced he hr reply
    have ho := timed.le (call_mem_of_trace (step config) hf.symm (by simp)) ha.2.1 allowed.2.1
    exact Nat.add_le_of_le_sub' ho (Nat.le_trans hs (Nat.sub_le_sub_left hn now))
  · intro earlier limited between next later now soon retryAfterSecs run he reply ht hg hi
    obtain ⟨front, rest, hd, hf, hp, hh⟩ := trace_split (step config) run
    obtain ⟨quiet, rest', split', hb, position', _⟩ := trace_split (step config) hh.symm
    rw [hp] at reply
    obtain ⟨same, hk, last, hr, hl⟩ := request_limited he reply
    have hu : (final (step config) limited.after quiet).account workflowName =
        (final (step config) start front).account workflowName := by
      rw [account_elsewhere, hp]
      · exact same
      · intro call mem
        obtain ⟨event, hm, rfl⟩ := exists_of_call_mem (step config) limited.after mem
        exact ht event (hb ▸ hm)
    rw [hd] at timed
    obtain ⟨event, hm, made⟩ := (stamped_reached config workflowName fresh timed.of_append).made last hr
    have ho : last ≤ now := by
      obtain ⟨hash, hc⟩ := he
      exact timed.le (call_mem_of_trace (step config) rfl hm) made (by rw [hc]; rfl)
    rw [position']
    refine request_allowed hg (by rw [hu]; exact hk) (by rw [hu]; exact hr) ?_
    exact elapsed_of_promise (checkRateLimit_some fits hl) ho hi

end

section Sample

def requestAt (now : Instant) : Call := .evaluateRegistration ⟨sampleWorkflow, sampleHash, none⟩ now

def sampleRequests : List Call := [requestAt 0, requestAt (10 ^ 9), requestAt (60 * 10 ^ 9)]

theorem registration_spacing_sample : Unregistered CircuitBreakerState.new ∧ Timed sampleRequests ∧
    ∀ earlier limited between next later now soon retryAfterSecs,
      trace (step sampleConfig) CircuitBreakerState.new sampleRequests =
          earlier ++ limited :: (between ++ next :: later) →
        Requests sampleWorkflow now limited.call → limited.reply = .evaluated (.ok (.rateLimited retryAfterSecs)) →
            (∀ event ∈ between, event.call.workflowName ≠ sampleWorkflow) → Requests sampleWorkflow soon next.call →
              now + retryAfterSecs.toNat * 10 ^ 9 ≤ soon → next.reply = .evaluated (.ok .allowed) := by
  have ht : Timed sampleRequests := by
    unfold Timed
    decide +kernel
  exact ⟨rfl, ht, (registration_spacing sampleConfig (by decide) CircuitBreakerState.new rfl
    sampleRequests ht sampleWorkflow).2⟩

/-- With a window of `Duration::MAX` the number of seconds wraps around to zero. -/
theorem retry_promise_wraps : (trace (step ⟨2 ^ 64 * 10 ^ 9 - 1, 600 * 10 ^ 9, 5⟩) CircuitBreakerState.new
      [requestAt 0, requestAt 0, requestAt 0]).map Event.reply =
    [.evaluated (.ok .allowed), .evaluated (.ok (.rateLimited 0)), .evaluated (.ok (.rateLimited 0))] := by
  decide +kernel

end Sample

end Veloxide.CircuitBreaker
