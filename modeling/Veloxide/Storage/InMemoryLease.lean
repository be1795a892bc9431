import Veloxide.Storage.Lease

namespace Veloxide.Lease

open ByteCodec Unsigned OrderedStore Machine List

structure InMemoryLeaseStore where
  leases : Store String LeaseEntry
  fences : Store String UInt64

namespace InMemoryLeaseStore

def empty : InMemoryLeaseStore := ⟨∅, ∅⟩

section

variable [Ulid]

def leaseKey (pair : Pair) : String := pair.instanceId.text ++ "::" ++ pair.stepId.value

def fenceKey (pair : Pair) : String := pair.instanceId.text ++ "::" ++ pair.stepId.value ++ "::fence"

def lease (store : InMemoryLeaseStore) (pair : Pair) : Option LeaseEntry := store.leases[leaseKey pair]?

def fence (store : InMemoryLeaseStore) (pair : Pair) : UInt64 := store.fences[fenceKey pair]?.getD 0

def acquire (store : InMemoryLeaseStore) (pair : Pair) (ttlMs nowMs : UInt64) :
    Except LeaseStoreError LeaseRecord × InMemoryLeaseStore :=
  if ttlMs = 0 then (.error .invalidArgument, store)
  else if (store.lease pair).any fun entry => !entry.isExpired nowMs then
    (.error (.leaseAlreadyHeld pair.instanceId.text pair.stepId.value), store)
  else match checkedSucc (store.fence pair) with
    | none => (.error (.fenceTokenExhausted pair.instanceId.text pair.stepId.value), store)
    | some nextToken =>
      let fences := store.fences.insert (fenceKey pair) nextToken
      match LeaseEntry.new pair.instanceId.text pair.stepId.value nextToken (saturatingAdd nowMs ttlMs) with
      | .error failure => (.error failure, { store with fences })
      | .ok entry => (entry.toLeaseRecord, { leases := store.leases.insert (leaseKey pair) entry, fences })

def release (store : InMemoryLeaseStore) (lease : LeaseRecord) : Except LeaseStoreError Unit × InMemoryLeaseStore :=
  match store.lease lease.pair with
  | none => (.error (.notFound lease.instanceId.text lease.stepId.value), store)
  | some entry =>
    if entry.fenceToken ≠ lease.token.value then
      (.error (.staleFence (toString entry.fenceToken) (toString lease.token.value)), store)
    else (.ok (), { store with leases := store.leases.erase (leaseKey lease.pair) })

def checkStaleFence (store : InMemoryLeaseStore) (pair : Pair) (token : FenceToken) (nowMs : UInt64) :
    Except LeaseStoreError Bool :=
  match store.lease pair with
  | some entry => if entry.isExpired nowMs then .ok true else .ok (entry.fenceToken != token.value)
  | none => .ok false

def step (store : InMemoryLeaseStore) : Call → Reply × InMemoryLeaseStore
  | .acquire pair ttlMs nowMs => ((store.acquire pair ttlMs nowMs).map .acquired id)
  | .release lease => ((store.release lease).map .released id)
  | .checkStaleFence pair token nowMs => (.checked (store.checkStaleFence pair token nowMs), store)

end

section

variable [Ulid] {right : Pair}

theorem leaseKey_injective {left : Pair} (same : leaseKey left = leaseKey right) : left = right := by
  have hb := congrArg utf8 same
  simp only [leaseKey, utf8_append, append_assoc] at hb
  obtain ⟨ids, rest⟩ := append_inj hb (by rw [left.instanceId.length_text, right.instanceId.length_text])
  have hs := append_cancel_left rest
  cases left
  cases right
  cases InstanceId.ext (utf8_injective ids)
  cases Text.ext (utf8_injective hs)
  rfl

theorem fenceKey_injective {left : Pair} (same : fenceKey left = fenceKey right) : left = right := by
  have hb := congrArg utf8 same
  rw [fenceKey, fenceKey, utf8_append, utf8_append] at hb
  exact leaseKey_injective (utf8_injective (append_cancel_right hb))

theorem lease_insert (store : InMemoryLeaseStore) (fences : Store String UInt64) (pair other : Pair)
    (entry : LeaseEntry) : (⟨store.leases.insert (leaseKey pair) entry, fences⟩ : InMemoryLeaseStore).lease other =
      if pair = other then some entry else store.lease other := by
  rw [lease, get_insert, lease]
  exact if_congr ⟨leaseKey_injective, congrArg leaseKey⟩ rfl rfl

theorem lease_erase (store : InMemoryLeaseStore) (pair other : Pair) :
    ({ store with leases := store.leases.erase (leaseKey pair) } : InMemoryLeaseStore).lease other =
      if pair = other then none else store.lease other := by
  rw [lease, get_erase, lease]
  exact if_congr ⟨leaseKey_injective, congrArg leaseKey⟩ rfl rfl

theorem fence_insert (store : InMemoryLeaseStore) (leases : Store String LeaseEntry) (pair other : Pair)
    (token : UInt64) : (⟨leases, store.fences.insert (fenceKey pair) token⟩ : InMemoryLeaseStore).fence other =
      if pair = other then token else store.fence other := by
  rw [fence, get_insert, fence, apply_ite (Option.getD · 0)]
  exact if_congr ⟨fenceKey_injective, congrArg fenceKey⟩ rfl rfl

end

section

variable [Ulid]

theorem acquire_cases (store : InMemoryLeaseStore) (pair : Pair) (ttlMs nowMs : UInt64) :
    (∃ err, store.acquire pair ttlMs nowMs = (.error err, store)) ∨
      ∃ token : FenceToken, store.fence pair < token.value ∧ store.acquire pair ttlMs nowMs =
        (grant pair token, ⟨store.leases.insert (leaseKey pair)
            ⟨pair.instanceId.text, pair.stepId.value, token.value, saturatingAdd nowMs ttlMs⟩,
          store.fences.insert (fenceKey pair) token.value⟩) := by
  rw [acquire]
  split_ifs with zero held
  · exact .inl ⟨_, rfl⟩
  · exact .inl ⟨_, rfl⟩
  · cases next : checkedSucc (store.fence pair) with
    | none => exact .inl ⟨_, rfl⟩
    | some token =>
      right
      have ha := checkedSucc_gt next
      have hn : token ≠ 0 := by
        intro zero
        rw [zero] at ha
        exact UInt64.not_lt.mpr UInt64.zero_le ha
      have he := LeaseEntry.new_eq pair token (saturatingAdd nowMs ttlMs) hn
      refine ⟨⟨token, hn⟩, ha, ?_⟩
      simp only [he]
      rw [toLeaseRecord_eq pair ⟨token, hn⟩]

theorem release_cases (store : InMemoryLeaseStore) (lease : LeaseRecord) :
    (∃ err, store.release lease = (.error err, store)) ∨
      ∃ entry, store.lease lease.pair = some entry ∧ entry.fenceToken = lease.token.value ∧
        store.release lease = (.ok (), { store with leases := store.leases.erase (leaseKey lease.pair) }) := by
  rw [release]
  cases held : store.lease lease.pair with
  | none => exact .inl ⟨_, rfl⟩
  | some entry =>
    by_cases ht : entry.fenceToken = lease.token.value
    · exact .inr ⟨entry, rfl, ht, if_neg (not_not.mpr ht)⟩
    · exact .inl ⟨_, if_pos ht⟩

def granted (pair : Pair) (event : Event InMemoryLeaseStore Call Reply) : Option LeaseRecord :=
  match event.call, event.reply with
  | .acquire other _ _, .acquired (.ok lease) => if other = pair then some lease else none
  | _, _ => none

def lastGrant (pair : Pair) (history : List (Event InMemoryLeaseStore Call Reply)) : Option LeaseRecord :=
  history.reverse.findSome? (granted pair)

def Released (pair : Pair) (history : List (Event InMemoryLeaseStore Call Reply)) : Prop :=
  ∃ (upTo : List (Event InMemoryLeaseStore Call Reply)) (release : Event InMemoryLeaseStore Call Reply)
    (since : List (Event InMemoryLeaseStore Call Reply)) (lease : LeaseRecord),
    history = upTo ++ release :: since ∧ lastGrant pair upTo = some lease ∧
      release.call = .release lease ∧ release.reply = .released (.ok ()) ∧ lastGrant pair since = none

theorem lastGrant_append_singleton (pair : Pair) (history : List (Event InMemoryLeaseStore Call Reply))
    (event : Event InMemoryLeaseStore Call Reply) :
    lastGrant pair (history ++ [event]) = (granted pair event).or (lastGrant pair history) := by
  cases hg : granted pair event <;> simp [lastGrant, hg]

variable {history : List (Event InMemoryLeaseStore Call Reply)}

theorem lastGrant_eq_none {pair : Pair} :
    lastGrant pair history = none ↔ ∀ event ∈ history, granted pair event = none := by
  simp [lastGrant]

/-- The fence of a pair bounds the granted tokens, and the lease that is held is the last one. -/
structure Fenced (pair : Pair) (history : List (Event InMemoryLeaseStore Call Reply))
    (store : InMemoryLeaseStore) : Prop where
  bounded : ∀ event ∈ history, ∀ lease, granted pair event = some lease → lease.token.value ≤ store.fence pair
  held : ∀ entry, store.lease pair = some entry → entry.fenceToken = store.fence pair ∧
    ∀ lease, lastGrant pair history = some lease → lease.pair = pair ∧ lease.token.value = store.fence pair
  vacant : store.lease pair = none → lastGrant pair history = none ∨ Released pair history
  proper : pair.instanceId.IsNil → lastGrant pair history = none

variable {after : InMemoryLeaseStore}

theorem Fenced.quiet {pair : Pair} {store : InMemoryLeaseStore} (hf : Fenced pair history store)
    {event : Event InMemoryLeaseStore Call Reply} (hl : after.lease pair = store.lease pair)
    (ha : after.fence pair = store.fence pair) (quiet : granted pair event = none) :
    Fenced pair (history ++ [event]) after := by
  have last : lastGrant pair (history ++ [event]) = lastGrant pair history := by
    rw [lastGrant_append_singleton, quiet, Option.none_or]
  refine ⟨?_, ?_, ?_, ?_⟩
  · intro other mem record hg
    rw [ha]
    rcases mem_append.mp mem with he | here
    · exact hf.bounded other he record hg
    · rw [mem_singleton.mp here, quiet] at hg
      contradiction
  · rw [hl, ha, last]
    exact hf.held
  · intro free
    rw [last]
    rcases hf.vacant (hl.symm.trans free) with hn | released
    · exact .inl hn
    · right
      obtain ⟨upTo, release, since, record, hs, hb, call, hr, none⟩ := released
      refine ⟨upTo, release, since ++ [event], record, by rw [hs]; simp, hb, call, hr, ?_⟩
      rw [lastGrant_append_singleton, quiet, Option.none_or, none]
  · rw [last]
    exact hf.proper

theorem granted_acquire (pair : Pair) (store after : InMemoryLeaseStore) (ttlMs nowMs : UInt64)
    (result : Except LeaseStoreError LeaseRecord) :
    granted pair ⟨store, .acquire pair ttlMs nowMs, .acquired result, after⟩ = result.toOption := by
  cases result with
  | error err => rfl
  | ok lease => exact if_pos rfl

theorem Fenced.acquired {pair : Pair} {store : InMemoryLeaseStore} (hf : Fenced pair history store)
    {entry : LeaseEntry} {token : FenceToken} {ttlMs nowMs : UInt64} (ha : store.fence pair < token.value)
    (held : after.lease pair = some entry) (hs : entry.fenceToken = token.value)
    (hb : after.fence pair = token.value) :
    Fenced pair (history ++ [⟨store, .acquire pair ttlMs nowMs, .acquired (grant pair token), after⟩]) after := by
  have last := lastGrant_append_singleton pair history
    ⟨store, .acquire pair ttlMs nowMs, .acquired (grant pair token), after⟩
  rw [granted_acquire] at last
  by_cases nil : pair.instanceId.IsNil
  · -- The nil id is never granted, although its acquisition advances the fence.
    have hr : (grant pair token).toOption = none := by
      rw [grant, if_pos nil]
      rfl
    have hn : lastGrant pair
        (history ++ [⟨store, .acquire pair ttlMs nowMs, .acquired (grant pair token), after⟩]) = none := by
      rw [last, hr, Option.none_or]
      exact hf.proper nil
    refine ⟨?_, ?_, fun _ => .inl hn, fun _ => hn⟩
    · intro event mem lease hg
      rw [lastGrant_eq_none.mp hn event mem] at hg
      contradiction
    · intro other ho
      rw [held] at ho
      cases ho
      rw [hn]
      exact ⟨hs.trans hb.symm, fun lease hi => nomatch hi⟩
  · have hc : (grant pair token).toOption = some ⟨pair.instanceId, pair.stepId, token⟩ := by
      rw [grant, if_neg nil]
      rfl
    rw [hc, Option.some_or] at last
    refine ⟨?_, ?_, ?_, fun hi => absurd hi nil⟩
    · intro event mem lease hg
      rw [hb]
      rcases mem_append.mp mem with he | here
      · exact UInt64.le_of_lt (UInt64.lt_of_le_of_lt (hf.bounded event he lease hg) ha)
      · rw [mem_singleton.mp here, granted_acquire, hc] at hg
        cases hg
        exact UInt64.le_refl _
    · intro other ho
      rw [held] at ho
      cases ho
      refine ⟨hs.trans hb.symm, fun lease hg => ?_⟩
      rw [last] at hg
      cases hg
      exact ⟨rfl, hb.symm⟩
    · intro free
      rw [held] at free
      contradiction

theorem Fenced.released {store : InMemoryLeaseStore} {lease : LeaseRecord} (hf : Fenced lease.pair history store)
    {entry : LeaseEntry} (held : store.lease lease.pair = some entry)
    (ho : entry.fenceToken = lease.token.value) (hr : after.lease lease.pair = none)
    (ha : after.fence lease.pair = store.fence lease.pair) :
    Fenced lease.pair (history ++ [⟨store, .release lease, .released (.ok ()), after⟩]) after := by
  have hq : granted lease.pair ⟨store, .release lease, .released (.ok ()), after⟩ = none := rfl
  have last := lastGrant_append_singleton lease.pair history ⟨store, .release lease, .released (.ok ()), after⟩
  rw [hq, Option.none_or] at last
  obtain ⟨hc, hg⟩ := hf.held entry held
  refine ⟨?_, ?_, ?_, ?_⟩
  · intro event mem record hb
    rw [ha]
    rcases mem_append.mp mem with he | here
    · exact hf.bounded event he record hb
    · rw [mem_singleton.mp here, hq] at hb
      contradiction
  · intro other hd
    rw [hr] at hd
    contradiction
  · intro _
    cases hb : lastGrant lease.pair history with
    | none => exact .inl (last.trans hb)
    | some record =>
      right
      obtain ⟨pair, ht⟩ := hg record hb
      have same : record = lease := LeaseRecord.ext_pair pair (ht.trans (hc.symm.trans ho))
      rw [same] at hb
      exact ⟨history, _, [], lease, rfl, hb, rfl, rfl, rfl⟩
  · rw [last]
    exact hf.proper

theorem Fenced.step {pair : Pair} {store : InMemoryLeaseStore} (hf : Fenced pair history store) (call : Call) :
    Fenced pair (history ++ [event InMemoryLeaseStore.step store call]) (store.step call).2 := by
  cases call with
  | acquire other ttlMs nowMs =>
    rcases acquire_cases store other ttlMs nowMs with ⟨err, he⟩ | ⟨token, hb, ha⟩
    · simp only [event, InMemoryLeaseStore.step, he, Prod.map]
      exact hf.quiet rfl rfl rfl
    · simp only [event, InMemoryLeaseStore.step, ha, Prod.map, id]
      by_cases same : other = pair
      · subst same
        apply hf.acquired hb
        · exact (lease_insert _ _ _ _ _).trans (if_pos rfl)
        · rfl
        · exact (fence_insert _ _ _ _ _).trans (if_pos rfl)
      · apply hf.quiet
        · exact (lease_insert _ _ _ _ _).trans (if_neg same)
        · exact (fence_insert _ _ _ _ _).trans (if_neg same)
        · cases grant other token <;> simp [granted, same]
  | release lease =>
    rcases release_cases store lease with ⟨err, he⟩ | ⟨entry, held, token, hr⟩
    · simp only [event, InMemoryLeaseStore.step, he, Prod.map]
      exact hf.quiet rfl rfl rfl
    · simp only [event, InMemoryLeaseStore.step, hr, Prod.map, id]
      by_cases same : lease.pair = pair
      · subst same
        exact hf.released held token ((lease_erase _ _ _).trans (if_pos rfl)) rfl
      · exact hf.quiet ((lease_erase _ _ _).trans (if_neg same)) rfl rfl
  | checkStaleFence other token nowMs => exact hf.quiet rfl rfl rfl

theorem fenced_run (pair : Pair) (calls : List Call) : Fenced pair (trace step empty calls) (final step empty calls) :=
  history_invariant step (fun _ _ => True) (Fenced pair) empty
    ⟨nofun, nofun, fun _ => .inl rfl, fun _ => rfl⟩
    (fun _ _ call hf _ => hf.step call) calls (Guarded.trivial step empty calls)

/-- A token that passes the check is the newest, unless the last lease was released and none is held. -/
theorem fresh_token_bounds_grants {calls : List Call} {before after : List (Event InMemoryLeaseStore Call Reply)}
    {check : Event InMemoryLeaseStore Call Reply} {pair : Pair} {token : FenceToken} {nowMs : UInt64}
    (run : trace step empty calls = before ++ check :: after)
    (call : check.call = .checkStaleFence pair token nowMs) (fresh : check.reply = .checked (.ok false)) :
    (∀ event ∈ before, ∀ lease, granted pair event = some lease → lease.token.value ≤ token.value) ∨
      Released pair before := by
  obtain ⟨first, rest, _, he, hp, _⟩ := trace_split step run
  have hf := fenced_run pair first
  rw [← he] at hf
  rw [hp, call] at fresh
  have ha : (final step empty first).checkStaleFence pair token nowMs = .ok false := Reply.checked.inj fresh
  rw [checkStaleFence] at ha
  cases held : (final step empty first).lease pair with
  | none =>
    rcases hf.vacant held with hn | released
    · left
      intro event mem lease hg
      rw [lastGrant_eq_none.mp hn event mem] at hg
      contradiction
    · exact .inr released
  | some entry =>
    left
    simp only [held] at ha
    split_ifs at ha with expired
    · cases ha
    have same : entry.fenceToken = token.value := by simpa using ha
    have hc := (hf.held entry held).1
    rw [← same, hc]
    exact hf.bounded

end

end InMemoryLeaseStore

section Sample

attribute [local instance] Ulid.Crockford.codec

namespace InMemoryLeaseStore

def sampleLease (token : FenceToken) : LeaseRecord := ⟨samplePair.instanceId, samplePair.stepId, token⟩

def supersededRun : List Call := [.acquire samplePair 10 0, .acquire samplePair 10 20]

theorem fresh_token_bounds_grants_superseded :
    (∀ event ∈ trace step empty supersededRun, ∀ lease, granted samplePair event = some lease → lease.token.value ≤ 2) ∨
      Released samplePair (trace step empty supersededRun) :=
  fresh_token_bounds_grants
    (trace_append_singleton step empty supersededRun (.checkStaleFence samplePair ⟨2, by decide⟩ 21)) rfl
    (by decide +kernel)

theorem superseded_token_passes_after_release : (trace step empty (supersededRun ++
        [.release (sampleLease ⟨2, by decide⟩), .checkStaleFence samplePair ⟨1, by decide⟩ 21])).map Event.reply =
    [.acquired (.ok (sampleLease ⟨1, by decide⟩)), .acquired (.ok (sampleLease ⟨2, by decide⟩)),
      .released (.ok ()), .checked (.ok false)] := by
  decide +kernel

end InMemoryLeaseStore

end Sample

end Veloxide.Lease
