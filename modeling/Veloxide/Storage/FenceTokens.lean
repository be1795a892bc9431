import Veloxide.Storage.FjallLease
import Veloxide.Storage.InMemoryLease

namespace Veloxide.Lease

open ByteCodec Unsigned OrderedStore Machine

variable [Ulid]

section

variable {S : Type}

def issuedToken (pair : Pair) (event : Event S Call Reply) : Option Nat := match event.call, event.reply with
  | .acquire other _ _, .acquired (.ok lease) => if other = pair then some lease.token.value.toNat else none
  | _, _ => none

/-- Granted tokens increase, and an acquisition that finds them exhausted changes nothing. -/
structure FenceSafe (step : S → Call → Reply × S) (start : S) (calls : List Call) : Prop where
  increasing : ∀ pair, ((trace step start calls).filterMap (issuedToken pair)).Pairwise (· < ·)
  exhausted : ∀ event ∈ trace step start calls, ∀ instanceId stepId,
    event.reply = .acquired (.error (.fenceTokenExhausted instanceId stepId)) → event.after = event.before

theorem grant_ne_exhausted (pair : Pair) (token : FenceToken) (inst stepId : String) :
    grant pair token ≠ .error (.fenceTokenExhausted inst stepId) := by
  rw [grant]
  split_ifs <;> simp

theorem issuedToken_granted {pair other : Pair} {token : FenceToken} {ttlMs nowMs : UInt64} {before after : S}
    {number : Nat}
    (hi : issuedToken pair ⟨before, .acquire other ttlMs nowMs, .acquired (grant other token), after⟩ = some number) :
    other = pair ∧ number = token.value.toNat := by
  rw [grant] at hi
  split_ifs at hi with nil
  · cases hi
  · simp only [issuedToken] at hi
    split_ifs at hi with same
    exact ⟨same, (Option.some.inj hi).symm⟩

theorem FenceSafe.of_step {step : S → Call → Reply × S} (counter : Pair → S → Nat)
    (ha : ∀ state pair ttlMs nowMs, (∃ err, step state (.acquire pair ttlMs nowMs) = (.acquired (.error err), state)) ∨
        ∃ token, (step state (.acquire pair ttlMs nowMs)).1 = .acquired (grant pair token) ∧
          counter pair state < token.value.toNat ∧ ∀ other, counter other (step state (.acquire pair ttlMs nowMs)).2 =
            if pair = other then token.value.toNat else counter other state)
    (hr : ∀ state lease, (∃ result, (step state (.release lease)).1 = .released result) ∧
      ∀ pair, counter pair (step state (.release lease)).2 = counter pair state)
    (hh : ∀ state pair token nowMs, ∃ result, step state (.checkStaleFence pair token nowMs) = (.checked result, state))
    (start : S) (calls : List Call) : FenceSafe step start calls := by
  refine ⟨fun pair => (issued_increasing step (counter pair) (issuedToken pair) ?_ start calls).1, ?_⟩
  · intro state call
    cases call with
    | acquire other ttlMs nowMs =>
      rcases ha state other ttlMs nowMs with ⟨err, he⟩ | ⟨token, hg, hb, hc⟩
      · simp [Machine.event, he, issuedToken]
      · simp only [Machine.event, hg, hc]
        refine ⟨?_, ?_⟩
        · split_ifs with same
          · rw [← same]
            exact Nat.le_of_lt hb
          · exact Nat.le_refl _
        · intro number hi
          obtain ⟨same, hv⟩ := issuedToken_granted hi
          rw [if_pos same, hv, ← same]
          exact ⟨hb, Nat.le_refl _⟩
    | release lease =>
      obtain ⟨⟨result, hd⟩, hc⟩ := hr state lease
      simp [Machine.event, hd, issuedToken, hc]
    | checkStaleFence other token nowMs =>
      obtain ⟨result, hf⟩ := hh state other token nowMs
      simp [Machine.event, hf, issuedToken]
  · intro event mem inst stepId hk
    obtain ⟨before, after, run⟩ := List.append_of_mem mem
    obtain ⟨first, _, _, _, hp, _⟩ := trace_split step run
    rw [hp] at hk ⊢
    cases call : event.call with
    | acquire pair ttlMs nowMs =>
      rw [call] at hk
      rcases ha (final step start first) pair ttlMs nowMs with
        ⟨err, he⟩ | ⟨token, hg, _⟩
      · simp only [Machine.event, he]
      · simp only [Machine.event, hg] at hk
        exact absurd (Reply.acquired.inj hk) (grant_ne_exhausted pair token inst stepId)
    | release lease =>
      rw [call] at hk
      obtain ⟨⟨result, hd⟩, _⟩ := hr (final step start first) lease
      simp [Machine.event, hd] at hk
    | checkStaleFence pair token nowMs =>
      rw [call] at hk
      obtain ⟨result, hf⟩ := hh (final step start first) pair token nowMs
      simp [Machine.event, hf] at hk

end

namespace InMemoryLeaseStore

theorem fence_safe (store : InMemoryLeaseStore) (calls : List Call) : FenceSafe step store calls := by
  apply FenceSafe.of_step fun pair store => (store.fence pair).toNat
  · intro state pair ttlMs nowMs
    rcases acquire_cases state pair ttlMs nowMs with ⟨err, he⟩ | ⟨token, hb, ha⟩
    · exact .inl ⟨err, by simp [step, he]⟩
    · simp only [step, ha, Prod.map, id]
      refine .inr ⟨token, rfl, UInt64.lt_iff_toNat_lt.mp hb, ?_⟩
      intro other
      rw [fence_insert, apply_ite UInt64.toNat]
  · intro state lease
    rcases release_cases state lease with ⟨err, he⟩ | ⟨_, _, _, hr⟩
    · simp only [step, he, Prod.map, id]
      exact ⟨⟨_, rfl⟩, fun _ => trivial⟩
    · simp only [step, hr, Prod.map, id]
      exact ⟨⟨_, rfl⟩, fun _ => rfl⟩
  · intro state pair token nowMs
    exact ⟨_, rfl⟩

end InMemoryLeaseStore

namespace FjallLeaseStore

variable [JsonCodec]

def fence (store : FjallLeaseStore) (pair : Pair) : UInt64 := (store.currentToken pair).toOption.getD 0

theorem acquire_cases (store : FjallLeaseStore) (pair : Pair) (ttlMs nowMs : UInt64) :
    (∃ err, store.acquire pair ttlMs nowMs = (.error err, store)) ∨
      ∃ token : FenceToken, store.fence pair < token.value ∧ store.acquire pair ttlMs nowMs =
        (grant pair token, { store with
          fences := store.fences.insert (fenceKey pair) (JsonCodec.bytes (Json.u64 token.value)) }) := by
  rw [acquire]
  split_ifs with zero
  · exact .inl ⟨_, rfl⟩
  · cases store.getCurrentLease pair with
    | error err => exact .inl ⟨_, rfl⟩
    | ok current =>
      simp only
      split_ifs with held
      · exact .inl ⟨_, rfl⟩
      · rw [allocateFenceToken]
        cases hc : store.currentToken pair with
        | error err => exact .inl ⟨_, rfl⟩
        | ok value =>
          cases next : checkedSucc value with
          | none =>
            simp only [next]
            exact .inl ⟨_, rfl⟩
          | some token =>
            have ha := checkedSucc_gt next
            have hn : token ≠ 0 := by
              intro zero
              rw [zero] at ha
              exact UInt64.not_lt.mpr UInt64.zero_le ha
            have he := LeaseEntry.new_eq pair token (saturatingAdd nowMs ttlMs) hn
            refine .inr ⟨⟨token, hn⟩, ?_, ?_⟩
            · rw [fence, hc]
              exact ha
            · simp only [next, JsonCodec.toVec_eq, he]
              exact congrArg (·, _) (toLeaseRecord_eq pair ⟨token, hn⟩ _)

theorem fence_safe (store : FjallLeaseStore) (calls : List Call) : FenceSafe step store calls := by
  apply FenceSafe.of_step fun pair store => (store.fence pair).toNat
  · intro state pair ttlMs nowMs
    rcases acquire_cases state pair ttlMs nowMs with ⟨err, hr⟩ | ⟨token, hb, ha⟩
    · exact .inl ⟨err, by simp [step, hr]⟩
    · simp only [step, ha, Prod.map, id]
      refine .inr ⟨token, rfl, UInt64.lt_iff_toNat_lt.mp hb, ?_⟩
      intro other
      rw [fence, currentToken_insert]
      split_ifs <;> rfl
  · intro state lease
    refine ⟨⟨_, rfl⟩, ?_⟩
    intro pair
    have fences : (state.release lease).2.fences = state.fences := by
      rw [release]
      split
      · rfl
      · rfl
      · split_ifs <;> rfl
    simp only [step, Prod.map, id, fence, currentToken, fences]
  · intro state pair token nowMs
    exact ⟨_, rfl⟩

end FjallLeaseStore

/-- In both stores, from any content on. -/
theorem fence_tokens_increase [JsonCodec] (calls : List Call) :
    (∀ store : FjallLeaseStore, FenceSafe FjallLeaseStore.step store calls) ∧
      ∀ store : InMemoryLeaseStore, FenceSafe InMemoryLeaseStore.step store calls :=
  ⟨fun store => store.fence_safe calls, fun store => store.fence_safe calls⟩

end Veloxide.Lease
