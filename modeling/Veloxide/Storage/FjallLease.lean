import Veloxide.Library.JsonText
import Veloxide.Storage.KeyEncoding
import Veloxide.Storage.Lease

namespace Veloxide.Lease

open ByteCodec Unsigned OrderedStore KeyEncoding Machine List

structure FjallLeaseStore where
  leases : Store Bytes Bytes
  fences : Store Bytes Bytes

namespace FjallLeaseStore

variable [Ulid] (pair : Pair)

def leaseKey : Bytes := encodeLeaseKey pair.instanceId pair.stepId

def fenceKey : Bytes := leaseKey pair ++ beBytes 2 1

theorem fenceKey_injective {left right : Pair} (same : fenceKey left = fenceKey right) : left = right := by
  have keys := (append_inj' same (by simp)).1
  obtain ⟨hi, hs⟩ := encodeLeaseKey_injective keys
  cases left
  cases right
  cases hi
  cases hs
  rfl

def takesToken : Call → Bool
  | .acquire other ttlMs _ => other = pair && ttlMs ≠ 0
  | _ => false

variable (calls : List Call)

def issued : Nat := min (calls.countP (takesToken pair)) (2 ^ 64 - 1)

theorem issued_append_singleton (call : Call) : issued pair (calls ++ [call]) =
    if takesToken pair call ∧ issued pair calls < 2 ^ 64 - 1 then issued pair calls + 1 else issued pair calls := by
  simp only [issued, countP_append, countP_singleton]
  by_cases ht : takesToken pair call = true
  · simp only [ht, ↓reduceIte, true_and]
    split_ifs <;> omega
  · simp [ht]

def tokenAfter (count : Nat) (below : count < 2 ^ 64 - 1) : FenceToken := ⟨UInt64.ofNat (count + 1), by
    intro zero
    have number := congrArg UInt64.toNat zero
    rw [UInt64.toNat_ofNat_of_lt' (show count + 1 < 2 ^ 64 by omega)] at number
    exact Nat.succ_ne_zero count number⟩

/-- No lease is ever found to be held, since `acquire` stores the fence counter and no lease. -/
def expectedReply (earlier : List Call) : Call → Reply
  | .acquire pair ttlMs _ =>
    .acquired (if ttlMs = 0 then .error .invalidArgument
      else if below : issued pair earlier < 2 ^ 64 - 1 then grant pair (tokenAfter (issued pair earlier) below)
      else .error (.fenceTokenExhausted pair.instanceId.text pair.stepId.value))
  | .release lease => .released (.error (.notFound lease.instanceId.text lease.stepId.value))
  | .checkStaleFence .. => .checked (.ok false)

variable {earlier : List Call} {ttlMs : UInt64} {lease : LeaseRecord}

theorem expectedReply_acquired {pair : Pair} {nowMs : UInt64}
    (hg : expectedReply earlier (.acquire pair ttlMs nowMs) = .acquired (.ok lease)) :
    ttlMs ≠ 0 ∧ ¬ pair.instanceId.IsNil ∧ issued pair earlier < 2 ^ 64 - 1 := by
  simp only [expectedReply, Reply.acquired.injEq] at hg
  split_ifs at hg with zero below
  rw [grant] at hg
  split_ifs at hg with nil
  exact ⟨zero, nil, below⟩

theorem expectedReply_granted {pair : Pair} (nowMs : UInt64) (hp : ttlMs ≠ 0)
    (hr : ¬ pair.instanceId.IsNil) (hb : issued pair earlier < 2 ^ 64 - 1) :
    ∃ lease, expectedReply earlier (.acquire pair ttlMs nowMs) = .acquired (.ok lease) := by
  refine ⟨⟨pair.instanceId, pair.stepId, tokenAfter (issued pair earlier) hb⟩, ?_⟩
  rw [expectedReply, if_neg hp, dif_pos hb, grant, if_neg hr]

theorem issued_le_append (first second : List Call) : issued pair first ≤ issued pair (first ++ second) := by
  simp only [issued, countP_append]
  omega

theorem issued_filter : issued pair (calls.filter fun call => call.pair = pair) = issued pair calls := by
  have hi : ∀ call, takesToken pair call = true → call.pair = pair := by
    intro call ht
    cases call with
    | acquire other ttlMs nowMs =>
      simp only [takesToken, Bool.and_eq_true, decide_eq_true_eq] at ht
      exact ht.1
    | release lease | checkStaleFence other token nowMs => cases ht
  rw [issued, issued, countP_filter]
  congr 1
  apply countP_congr
  intro call _
  constructor
  · intro both
    exact (Bool.and_eq_true _ _ ▸ both).1
  · intro ht
    simp [ht, hi call ht]

theorem expectedReply_filter (earlier : List Call) (call : Call) :
    expectedReply (earlier.filter fun other => other.pair = call.pair) call = expectedReply earlier call := by
  cases call with
  | acquire pair ttlMs nowMs =>
    have ho := issued_filter pair earlier
    have hc : (Call.acquire pair ttlMs nowMs).pair = pair := rfl
    rw [hc]
    simp only [expectedReply, ho]
  | release lease | checkStaleFence pair token nowMs => rfl

/-- Two acquisitions of one pair that are both granted, the second before the first one expires. -/
def Contended : Prop :=
  ∃ (before : List Call) (pair : Pair) (ttlMs nowMs : UInt64) (between : List Call) (laterTtlMs laterMs : UInt64)
    (after : List Call),
    calls = before ++ .acquire pair ttlMs nowMs :: (between ++ .acquire pair laterTtlMs laterMs :: after) ∧
      ttlMs ≠ 0 ∧ laterTtlMs ≠ 0 ∧ ¬ pair.instanceId.IsNil ∧
      issued pair (before ++ .acquire pair ttlMs nowMs :: between) < 2 ^ 64 - 1 ∧
      laterMs < saturatingAdd nowMs ttlMs

variable [JsonCodec]

def decodeLeaseEntry (bytes : Bytes) : Except LeaseStoreError LeaseEntry :=
  (JsonCodec.ofSlice bytes >>= LeaseEntry.fromJson).mapError .codec

variable (store : FjallLeaseStore)

def getCurrentLease (pair : Pair) : Except LeaseStoreError (Option LeaseEntry) := match store.leases[leaseKey pair]? with
  | some bytes => (decodeLeaseEntry bytes).map some
  | none => .ok none

def currentToken (pair : Pair) : Except LeaseStoreError UInt64 := match store.fences[fenceKey pair]? with
  | some bytes => (JsonCodec.ofSlice bytes >>= Serde.toU64).mapError fun failure =>
      .codec s!"failed to decode fence token: {failure}"
  | none => .ok 0

def allocateFenceToken (pair : Pair) : Except LeaseStoreError UInt64 × FjallLeaseStore :=
  match store.currentToken pair with
  | .error failure => (.error failure, store)
  | .ok current =>
    match checkedSucc current with
    | none => (.error (.fenceTokenExhausted pair.instanceId.text pair.stepId.value), store)
    | some next =>
      match JsonCodec.toVec (Json.u64 next) with
      | .error failure => (.error (.codec s!"failed to encode fence token: {failure}"), store)
      | .ok value => (.ok next, { store with fences := store.fences.insert (fenceKey pair) value })

def acquire (pair : Pair) (ttlMs nowMs : UInt64) : Except LeaseStoreError LeaseRecord × FjallLeaseStore :=
  if ttlMs = 0 then (.error .invalidArgument, store)
  else match store.getCurrentLease pair with
    | .error failure => (.error failure, store)
    | .ok current =>
      if current.any fun entry => !entry.isExpired nowMs then
        (.error (.leaseAlreadyHeld pair.instanceId.text pair.stepId.value), store)
      else match store.allocateFenceToken pair with
        | (.error failure, store) => (.error failure, store)
        | (.ok fenceToken, store) =>
          (LeaseEntry.new pair.instanceId.text pair.stepId.value fenceToken (saturatingAdd nowMs ttlMs) >>=
            LeaseEntry.toLeaseRecord, store)

def release (lease : LeaseRecord) : Except LeaseStoreError Unit × FjallLeaseStore :=
  match store.getCurrentLease lease.pair with
  | .error failure => (.error failure, store)
  | .ok none => (.error (.notFound lease.instanceId.text lease.stepId.value), store)
  | .ok (some entry) =>
    if entry.fenceToken ≠ lease.token.value then
      (.error (.staleFence (toString entry.fenceToken) (toString lease.token.value)), store)
    else (.ok (), { store with leases := store.leases.erase (leaseKey lease.pair) })

def checkStaleFence (pair : Pair) (token : FenceToken) (nowMs : UInt64) : Except LeaseStoreError Bool :=
  match store.getCurrentLease pair with
  | .error failure => .error failure
  | .ok none => .ok false
  | .ok (some entry) => if entry.isExpired nowMs then .ok true else .ok (entry.fenceToken != token.value)

def step : Call → Reply × FjallLeaseStore
  | .acquire pair ttlMs nowMs => ((store.acquire pair ttlMs nowMs).map .acquired id)
  | .release lease => ((store.release lease).map .released id)
  | .checkStaleFence pair token nowMs => (.checked (store.checkStaleFence pair token nowMs), store)

def empty : FjallLeaseStore := ⟨∅, ∅⟩

section

theorem currentToken_insert (pair : Pair) (next : UInt64) (other : Pair) : FjallLeaseStore.currentToken
      { store with fences := store.fences.insert (fenceKey pair) (JsonCodec.bytes (Json.u64 next)) } other =
    if pair = other then .ok next else store.currentToken other := by
  unfold currentToken
  rw [get_insert]
  by_cases same : pair = other
  · subst same
    obtain ⟨value, hp, he⟩ := JsonCodec.ofSlice_bytes (Json.u64 next)
    cases he.number_right
    simp only [↓reduceIte, hp]
    rfl
  · have hd : fenceKey pair ≠ fenceKey other := fun keys => same (fenceKey_injective keys)
    rw [if_neg hd, if_neg same]

/-- The store holds no lease, and for each pair the number of tokens issued. -/
structure Counts (earlier : List Call) (store : FjallLeaseStore) : Prop where
  noLease : store.leases = ∅
  tokens : ∀ pair, store.currentToken pair = .ok (UInt64.ofNat (issued pair earlier))

theorem counts_empty : Counts [] empty := ⟨rfl, fun _ => rfl⟩

theorem Counts.getCurrentLease {store : FjallLeaseStore} (hc : Counts earlier store) (pair : Pair) :
    store.getCurrentLease pair = .ok none := by
  rw [FjallLeaseStore.getCurrentLease, hc.noLease]
  rfl

theorem Counts.quiet {store : FjallLeaseStore} (hc : Counts earlier store) {call : Call}
    (quiet : ∀ pair, takesToken pair call = false) : Counts (earlier ++ [call]) store := by
  refine ⟨hc.noLease, fun pair => ?_⟩
  have same : issued pair (earlier ++ [call]) = issued pair earlier := by
    rw [issued_append_singleton, quiet pair]
    simp
  rw [same]
  exact hc.tokens pair

theorem Counts.allocate {store : FjallLeaseStore} (hc : Counts earlier store) (pair : Pair)
    (hb : issued pair earlier < 2 ^ 64 - 1) :
    ∃ after, store.allocateFenceToken pair = (.ok (tokenAfter (issued pair earlier) hb).value, after) ∧
      after.leases = ∅ ∧ ∀ other, after.currentToken other =
        if pair = other then .ok (tokenAfter (issued pair earlier) hb).value else store.currentToken other := by
  have hn : (UInt64.ofNat (issued pair earlier)).toNat = issued pair earlier :=
    UInt64.toNat_ofNat_of_lt' (show _ < 2 ^ 64 by omega)
  have next := checkedSucc_eq (show (UInt64.ofNat (issued pair earlier)).toNat < 2 ^ 64 - 1 by omega)
  rw [hn] at next
  simp only [allocateFenceToken, hc.tokens pair, next, JsonCodec.toVec_eq]
  exact ⟨_, rfl, hc.noLease, currentToken_insert store pair _⟩

theorem Counts.acquire_granted {store : FjallLeaseStore} (hc : Counts earlier store) (pair : Pair)
    (nowMs : UInt64) (hp : ttlMs ≠ 0) (hb : issued pair earlier < 2 ^ 64 - 1) :
    (store.acquire pair ttlMs nowMs).1 = grant pair (tokenAfter (issued pair earlier) hb) ∧
      Counts (earlier ++ [.acquire pair ttlMs nowMs]) (store.acquire pair ttlMs nowMs).2 := by
  obtain ⟨after, ha, hn, ht⟩ := hc.allocate pair hb
  have he := LeaseEntry.new_eq pair (tokenAfter (issued pair earlier) hb).value
    (saturatingAdd nowMs ttlMs) (tokenAfter (issued pair earlier) hb).nonzero
  simp only [FjallLeaseStore.acquire, if_neg hp, hc.getCurrentLease pair, Option.any_none,
    Bool.false_eq_true, ↓reduceIte, ha, he]
  refine ⟨toLeaseRecord_eq pair _ _, hn, fun other => ?_⟩
  rw [ht other, issued_append_singleton]
  by_cases same : pair = other
  · subst same
    rw [if_pos rfl, if_pos ⟨by simp [takesToken, hp], hb⟩]
    rfl
  · simp [takesToken, same, hc.tokens other]

theorem Counts.acquire_exhausted {store : FjallLeaseStore} (hc : Counts earlier store) (pair : Pair)
    (nowMs : UInt64) (hp : ttlMs ≠ 0) (he : ¬ issued pair earlier < 2 ^ 64 - 1) :
    store.acquire pair ttlMs nowMs = (.error (.fenceTokenExhausted pair.instanceId.text pair.stepId.value), store) := by
  have ho : issued pair earlier = 2 ^ 64 - 1 := by
    have most : issued pair earlier ≤ 2 ^ 64 - 1 := Nat.min_le_right _ _
    omega
  have hs : checkedSucc (UInt64.ofNat (issued pair earlier)) = none := by
    rw [ho]
    decide
  simp only [FjallLeaseStore.acquire, if_neg hp, hc.getCurrentLease pair, Option.any_none,
    Bool.false_eq_true, ↓reduceIte, allocateFenceToken, hc.tokens pair, hs]

theorem Counts.acquire {store : FjallLeaseStore} (hc : Counts earlier store) (pair : Pair) (ttlMs nowMs : UInt64) :
    Reply.acquired (store.acquire pair ttlMs nowMs).1 = expectedReply earlier (.acquire pair ttlMs nowMs) ∧
      Counts (earlier ++ [.acquire pair ttlMs nowMs]) (store.acquire pair ttlMs nowMs).2 := by
  by_cases zero : ttlMs = 0
  · have hr : store.acquire pair ttlMs nowMs = (.error .invalidArgument, store) := by
      rw [FjallLeaseStore.acquire, if_pos zero]
    rw [hr]
    exact ⟨by simp [expectedReply, zero], hc.quiet fun _ => by simp [takesToken, zero]⟩
  · by_cases hb : issued pair earlier < 2 ^ 64 - 1
    · obtain ⟨hg, ha⟩ := hc.acquire_granted pair nowMs zero hb
      exact ⟨by rw [hg, expectedReply, if_neg zero, dif_pos hb], ha⟩
    · rw [hc.acquire_exhausted pair nowMs zero hb]
      refine ⟨by rw [expectedReply, if_neg zero, dif_neg hb], hc.noLease, fun other => ?_⟩
      have same : issued other (earlier ++ [.acquire pair ttlMs nowMs]) = issued other earlier := by
        rw [issued_append_singleton, if_neg]
        intro hd
        obtain ⟨ht, room⟩ := hd
        simp only [takesToken, Bool.and_eq_true, decide_eq_true_eq] at ht
        rw [ht.1] at hb
        exact hb room
      rw [same]
      exact hc.tokens other

theorem Counts.step {store : FjallLeaseStore} (hc : Counts earlier store) (call : Call) :
    (store.step call).1 = expectedReply earlier call ∧ Counts (earlier ++ [call]) (store.step call).2 := by
  cases call with
  | acquire pair ttlMs nowMs => exact hc.acquire pair ttlMs nowMs
  | release lease =>
    have hm := hc.getCurrentLease lease.pair
    simp only [FjallLeaseStore.step, release, hm]
    exact ⟨rfl, hc.quiet fun _ => rfl⟩
  | checkStaleFence pair token nowMs =>
    have hm := hc.getCurrentLease pair
    simp only [FjallLeaseStore.step, checkStaleFence, hm]
    exact ⟨rfl, hc.quiet fun _ => rfl⟩

theorem counts_final : Counts calls (final step empty calls) :=
  final_invariant step Counts counts_empty (fun _ _ call hc => (hc.step call).2) calls

theorem trace_reply {calls : List Call} {before after : List (Event FjallLeaseStore Call Reply)}
    {here : Event FjallLeaseStore Call Reply} (run : trace step empty calls = before ++ here :: after) :
    here.reply = expectedReply (before.map Event.call) here.call := by
  obtain ⟨first, rest, _, he, hp, _⟩ := trace_split step run
  rw [he, trace_calls, hp]
  exact ((counts_final first).step here.call).1

theorem not_released {calls : List Call} {event : Event FjallLeaseStore Call Reply}
    (hh : event ∈ trace step empty calls) (call : event.call = .release lease) :
    event.reply ≠ .released (.ok ()) := by
  obtain ⟨before, after, run⟩ := append_of_mem hh
  rw [trace_reply run, call]
  simp [expectedReply]

theorem isolated : Isolated step empty calls := by
  intro pair
  induction calls using List.reverseRecOn with
  | nil => rfl
  | append_singleton calls call ih =>
    rw [trace_append_singleton, filter_append, map_append, ih, filter_append]
    by_cases hc : call.pair = pair
    · have kept : [call].filter (fun other => other.pair = pair) = [call] := by simp [hc]
      have hr := ((counts_final calls).step call).1
      have ha := ((counts_final (calls.filter fun other => other.pair = pair)).step call).1
      subst hc
      rw [kept, trace_append_singleton, map_append]
      congr 1
      simp only [event, filter_cons, decide_true, ↓reduceIte, filter_nil, map_cons, map_nil, hr, ha, expectedReply_filter]
    · simp [hc, event]

theorem mutuallyExclusive_of_not_contended {calls : List Call} (free : ¬ Contended calls) :
    MutuallyExclusive (trace step empty calls) := by
  intro before first between second after pair ttlMs nowMs laterTtlMs laterMs lease laterLease run hi
    ha hc hd
  right
  have hf := trace_reply run
  have hr : trace step empty calls = (before ++ first :: between) ++ second :: after := by
    rw [run, append_assoc, cons_append]
  have hs := trace_reply hr
  rw [hi, ha] at hf
  rw [hc, hd] at hs
  obtain ⟨hp, hg, _⟩ := expectedReply_acquired hf.symm
  obtain ⟨hl, _, hb⟩ := expectedReply_acquired hs.symm
  have made : calls = before.map Event.call ++ .acquire pair ttlMs nowMs ::
      (between.map Event.call ++ .acquire pair laterTtlMs laterMs :: after.map Event.call) := by
    rw [← trace_calls step empty calls, run]
    simp [hi, hc]
  by_contra he
  apply free
  refine ⟨_, pair, ttlMs, nowMs, _, laterTtlMs, laterMs, _, made, hp, hl, hg, ?_, UInt64.not_le.mp he⟩
  simpa [hi] using hb

theorem not_contended_of_mutuallyExclusive {calls : List Call}
    (he : MutuallyExclusive (trace step empty calls)) : ¬ Contended calls := by
  intro hc
  obtain ⟨before, pair, ttlMs, nowMs, between, laterTtlMs, laterMs, after, made, hp, hl, ha, below, hb⟩ := hc
  have hf : issued pair before < 2 ^ 64 - 1 := Nat.lt_of_le_of_lt (issued_le_append pair before _) below
  obtain ⟨lease, hg⟩ := expectedReply_granted nowMs hp ha hf
  obtain ⟨laterLease, hd⟩ := expectedReply_granted laterMs hl ha below
  have run := trace_append step empty before
    (.acquire pair ttlMs nowMs :: (between ++ .acquire pair laterTtlMs laterMs :: after))
  rw [← made, trace, trace_append, trace] at run
  have hi := (counts_final before).step (.acquire pair ttlMs nowMs)
  have hs := (counts_final (before ++ .acquire pair ttlMs nowMs :: between)).step
    (.acquire pair laterTtlMs laterMs)
  rw [hg] at hi
  rw [hd, final_append] at hs
  have held := he _ _ _ _ _ pair ttlMs nowMs laterTtlMs laterMs lease laterLease run rfl hi.1 rfl
    hs.1
  rcases held with hr | expired
  · obtain ⟨event, mem, call, hk⟩ := hr
    have hh : event ∈ trace step empty calls := by
      rw [run]
      simp [mem]
    exact not_released hh call hk
  · exact absurd hb (UInt64.not_lt.mpr expired)

/-- Mutual exclusion holds exactly in the runs without contention: no held lease refuses another. -/
theorem exclusive_iff_not_contended (calls : List Call) :
    MutuallyExclusive (trace step empty calls) ∧ Isolated step empty calls ↔ ¬ Contended calls := by
  constructor
  · intro both
    exact not_contended_of_mutuallyExclusive both.1
  · intro free
    exact ⟨mutuallyExclusive_of_not_contended free, isolated calls⟩

end

end FjallLeaseStore

section Sample

attribute [local instance] Ulid.Crockford.codec Json.Text.codec

/-- The second lease is granted while the first is neither released nor expired. -/
theorem FjallLeaseStore.second_acquire_granted :
    (trace step empty [.acquire samplePair 1000 0, .acquire samplePair 1000 1]).map Event.reply =
        [.acquired (.ok ⟨samplePair.instanceId, samplePair.stepId, ⟨1, by decide⟩⟩),
          .acquired (.ok ⟨samplePair.instanceId, samplePair.stepId, ⟨2, by decide⟩⟩)] ∧
      ¬ MutuallyExclusive (trace step empty [.acquire samplePair 1000 0, .acquire samplePair 1000 1]) := by
  refine ⟨by decide +kernel, fun he => ?_⟩
  refine not_contended_of_mutuallyExclusive he
    ⟨[], samplePair, 1000, 0, [], 1000, 1, [], rfl, by decide, by decide, by decide +kernel, ?_, by decide⟩
  decide +kernel

end Sample

end Veloxide.Lease
