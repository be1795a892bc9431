import Veloxide.Library.Execution
import Veloxide.Library.Keyspace

namespace Veloxide.Worker

open OrderedStore Machine List Function

abbrev LockId := String

abbrev OwnerId := String

inductive LockMode
  | shared
  | exclusive

inductive LockStatus
  | held
  | pending
  | expired

structure LockEntry where
  lockId : LockId
  owner : OwnerId
  mode : LockMode
  status : LockStatus
  acquiredAt : Int
  expiresAt : Int
  holdToken : String

structure LockRelease where
  lockId : LockId
  owner : OwnerId
  holdToken : String

inductive LockStorageError
  | lockNotFound (lockId : LockId)
  | notLockOwner (lockId : LockId) (expected got : OwnerId)
  | invalidHoldToken (lockId : LockId) (holdToken : String)
  | duplicateLock (lockId : LockId)
  | incompatibleMode
  | storage (reason : String)
  | serializationFailed (reason : String)
  | deserializationFailed (reason : String)
  | invalidArgument (reason : String)

structure InMemoryLockStorage where
  locks : Store LockId (List LockEntry)

namespace InMemoryLockStorage

def new : InMemoryLockStorage := ⟨∅⟩

variable (storage : InMemoryLockStorage)

def entries (lockId : LockId) : List LockEntry := storage.locks[lockId]?.getD []

def checkCompatibility (newOwner : OwnerId) (newMode : LockMode) : List LockEntry → Except LockStorageError Unit
  | [] => .ok ()
  | entry :: existing =>
    if entry.owner = newOwner then .error (.duplicateLock entry.lockId)
    else match entry.mode, newMode with
      | .exclusive, _ => .error (.notLockOwner entry.lockId entry.owner newOwner)
      | .shared, .exclusive => .error .incompatibleMode
      | .shared, .shared => checkCompatibility newOwner newMode existing

variable (entry : LockEntry)

def acquire : Except LockStorageError Unit × InMemoryLockStorage := let entries := storage.entries entry.lockId
  match checkCompatibility entry.owner entry.mode entries with
  | .error failure => (.error failure, ⟨storage.locks.insert entry.lockId entries⟩)
  | .ok () => (.ok (), ⟨storage.locks.insert entry.lockId (entries ++ [entry])⟩)

def release (storage : InMemoryLockStorage) (release : LockRelease) :
    Except LockStorageError Unit × InMemoryLockStorage :=
  match storage.locks[release.lockId]? with
  | none => (.error (.lockNotFound release.lockId), storage)
  | some entries =>
    match entries.findIdx? fun entry => entry.owner = release.owner ∧ entry.holdToken = release.holdToken with
    | none =>
      if entries.any fun entry => entry.owner = release.owner then
        (.error (.invalidHoldToken release.lockId release.holdToken), storage)
      else
        let expected := (entries.head?.map LockEntry.owner).getD "unknown"
        (.error (.notLockOwner release.lockId expected release.owner), storage)
    | some position =>
      let entries := entries.eraseIdx position
      if entries.isEmpty then (.ok (), ⟨storage.locks.erase release.lockId⟩)
      else (.ok (), ⟨storage.locks.insert release.lockId entries⟩)

variable (now : Int)

def retainLive (entries : List LockEntry) : List LockEntry := entries.filter fun entry => now < entry.expiresAt

def cleanupExpired : Except LockStorageError Nat × InMemoryLockStorage :=
  let removed := storage.locks.toList.map fun held => held.2.length - (retainLive now held.2).length
  let locks := storage.locks.map fun _ entries => retainLive now entries
  (.ok removed.sum, ⟨locks.filter fun _ entries => !entries.isEmpty⟩)

inductive Call
  | acquire (entry : LockEntry)
  | release (release : LockRelease)
  | cleanupExpired (now : Int)

inductive Reply
  | acquired (result : Except LockStorageError Unit)
  | released (result : Except LockStorageError Unit)
  | cleaned (result : Except LockStorageError Nat)

def step : Call → Reply × InMemoryLockStorage
  | .acquire entry => (storage.acquire entry).map .acquired id
  | .release request => (storage.release request).map .released id
  | .cleanupExpired now => (storage.cleanupExpired now).map .cleaned id

def Call.lockId : Call → Option LockId
  | .acquire entry => some entry.lockId
  | .release request => some request.lockId
  | .cleanupExpired _ => none

def Reply.isErr : Reply → Bool
  | .acquired result => !result.isOk
  | .released result => !result.isOk
  | .cleaned result => !result.isOk

section

variable (lockId : LockId)

theorem entries_insert (held : List LockEntry) : (InMemoryLockStorage.mk (storage.locks.insert lockId held)).entries =
    update storage.entries lockId held := by
  funext other
  by_cases same : lockId = other
  · subst same
    rw [entries, get_insert, if_pos rfl, update_self]
    rfl
  · rw [entries, get_insert, if_neg same, update_of_ne (Ne.symm same)]
    rfl

theorem entries_erase :
    (InMemoryLockStorage.mk (storage.locks.erase lockId)).entries = update storage.entries lockId [] := by
  funext other
  by_cases same : lockId = other
  · subst same
    rw [entries, get_erase, if_pos rfl, update_self]
    rfl
  · rw [entries, get_erase, if_neg same, update_of_ne (Ne.symm same)]
    rfl

theorem entries_cleanupExpired :
    (storage.cleanupExpired now).2.entries lockId = retainLive now (storage.entries lockId) := by
  rw [cleanupExpired, entries, entries, get_filter, Std.ExtTreeMap.getElem?_map]
  cases storage.locks[lockId]? with
  | none => rfl
  | some held =>
    cases live : retainLive now held with
    | nil | cons entry rest =>
      rw [Option.map_some, Option.getD_some, live]
      rfl

end

inductive Change (entries : LockId → List LockEntry) : Call → Reply → (LockId → List LockEntry) → Prop
  | refused {call : Call} {reply : Reply} (failed : reply.isErr = true) : Change entries call reply entries
  | acquired (entry : LockEntry)
      (compatible : checkCompatibility entry.owner entry.mode (entries entry.lockId) = .ok ()) :
      Change entries (.acquire entry) (.acquired (.ok ()))
        (update entries entry.lockId (entries entry.lockId ++ [entry]))
  | released (release : LockRelease) (position : Nat) (entry : LockEntry)
      (found : (entries release.lockId)[position]? = some entry) (owner : entry.owner = release.owner)
      (token : entry.holdToken = release.holdToken) :
      Change entries (.release release) (.released (.ok ()))
        (update entries release.lockId ((entries release.lockId).eraseIdx position))
  | cleaned (now : Int) (removed : Nat) :
      Change entries (.cleanupExpired now) (.cleaned (.ok removed)) fun lockId => retainLive now (entries lockId)

theorem acquire_change :
    Change storage.entries (.acquire entry) (.acquired (storage.acquire entry).1) (storage.acquire entry).2.entries := by
  rw [acquire]
  cases hc : checkCompatibility entry.owner entry.mode (storage.entries entry.lockId) with
  | error err =>
    simp only [entries_insert, update_eq_self]
    exact .refused rfl
  | ok =>
    simp only [entries_insert]
    exact .acquired entry hc

theorem release_change (release : LockRelease) :
    Change storage.entries (.release release) (.released (storage.release release).1)
      (storage.release release).2.entries := by
  rw [InMemoryLockStorage.release]
  cases held : storage.locks[release.lockId]? with
  | none => exact .refused rfl
  | some list =>
    have same : storage.entries release.lockId = list := by rw [entries, held, Option.getD_some]
    cases hf : list.findIdx? fun entry => entry.owner = release.owner ∧ entry.holdToken = release.holdToken with
    | none =>
      simp only [hf]
      split_ifs with known
      · exact .refused rfl
      · exact .refused rfl
    | some pos =>
      obtain ⟨hi, hn, _⟩ := findIdx?_eq_some_iff_getElem.mp hf
      rw [decide_eq_true_eq] at hn
      have entry : (storage.entries release.lockId)[pos]? = some list[pos] := by
        rw [same, getElem?_eq_getElem hi]
      have hc := Change.released release pos _ entry hn.1 hn.2
      rw [same] at hc
      simp only [hf]
      split_ifs with last
      · rw [List.isEmpty_iff.mp last] at hc
        rw [entries_erase]
        exact hc
      · rw [entries_insert]
        exact hc

theorem step_change (call : Call) : Change storage.entries call (step storage call).1 (step storage call).2.entries := by
  cases call with
  | acquire entry => exact acquire_change storage entry
  | release release => exact release_change storage release
  | cleanupExpired now =>
    have entries : (storage.cleanupExpired now).2.entries = fun lockId => retainLive now (storage.entries lockId) :=
      funext (entries_cleanupExpired storage now)
    show Change storage.entries _ (.cleaned (.ok _)) (storage.cleanupExpired now).2.entries
    rw [entries]
    exact .cleaned now _

section

/-- The entries of a lock: a single exclusive one or shared ones, of distinct owners. -/
structure Compatible (lockId : LockId) (entries : List LockEntry) : Prop where
  filed : ∀ entry ∈ entries, entry.lockId = lockId
  modes : (∃ entry, entries = [entry] ∧ entry.mode = .exclusive) ∨ ∀ entry ∈ entries, entry.mode = .shared
  owners : entries.Pairwise fun first second => first.owner ≠ second.owner

variable {lockId : LockId} {held : List LockEntry}

theorem Compatible.nil : Compatible lockId [] := ⟨by simp, .inr (by simp), .nil⟩

theorem Compatible.sublist (hc : Compatible lockId held) {fewer : List LockEntry}
    (sublist : fewer.Sublist held) : Compatible lockId fewer := by
  refine ⟨fun entry mem => hc.filed entry (sublist.subset mem), ?_, hc.owners.sublist sublist⟩
  rcases hc.modes with ⟨entry, rfl, mode⟩ | shared
  · rcases sublist_singleton.mp sublist with rfl | rfl
    · exact .inr (by simp)
    · exact .inl ⟨entry, rfl, mode⟩
  · exact .inr fun entry mem => shared entry (sublist.subset mem)

theorem checkCompatibility_ok {newOwner : OwnerId} {newMode : LockMode}
    (hc : checkCompatibility newOwner newMode held = .ok ()) :
    (∀ entry ∈ held, entry.owner ≠ newOwner ∧ entry.mode = .shared) ∧ (held = [] ∨ newMode = .shared) := by
  induction held with
  | nil => exact ⟨by simp, .inl rfl⟩
  | cons entry held ih =>
    unfold checkCompatibility at hc
    split_ifs at hc with duplicate
    cases mode : entry.mode with
    | exclusive =>
      rw [mode] at hc
      cases hc
    | shared =>
      rw [mode] at hc
      cases newMode with
      | exclusive => cases hc
      | shared =>
        exact ⟨forall_mem_cons.mpr ⟨⟨duplicate, mode⟩, (ih hc).1⟩, .inr rfl⟩

theorem Compatible.append (hc : Compatible lockId held) {entry : LockEntry} (hf : entry.lockId = lockId)
    (hh : checkCompatibility entry.owner entry.mode held = .ok ()) : Compatible lockId (held ++ [entry]) := by
  obtain ⟨ho, mode⟩ := checkCompatibility_ok hh
  refine ⟨forall_mem_append.mpr ⟨hc.filed, by simpa using hf⟩, ?_, ?_⟩
  · cases kind : entry.mode with
    | exclusive =>
      have he : held = [] := mode.resolve_right (by simp [kind])
      exact .inl ⟨entry, by rw [he, nil_append], kind⟩
    | shared => exact .inr (forall_mem_append.mpr ⟨fun other mem => (ho other mem).2, by simpa using kind⟩)
  · refine pairwise_append.mpr ⟨hc.owners, pairwise_singleton _ _, ?_⟩
    intro other mem last only
    rw [mem_singleton.mp only]
    exact (ho other mem).1

variable {entries after : LockId → List LockEntry} {reply : Reply} {call : Call}

theorem Change.compatible (hh : Change entries call reply after)
    (compatible : ∀ lockId, Compatible lockId (entries lockId)) : ∀ lockId, Compatible lockId (after lockId) := by
  cases hh with
  | refused => exact compatible
  | acquired entry hc =>
    exact forall_update_iff entries (Compatible · ·) |>.mpr
      ⟨(compatible entry.lockId).append rfl hc, fun lockId _ => compatible lockId⟩
  | released release pos =>
    exact forall_update_iff entries (Compatible · ·) |>.mpr
      ⟨(compatible release.lockId).sublist (eraseIdx_sublist _ _), fun lockId _ => compatible lockId⟩
  | cleaned now => exact fun lockId => (compatible lockId).sublist filter_sublist

theorem Change.removed (hc : Change entries call reply after) {entry : LockEntry}
    (hb : entry ∈ entries lockId) (gone : entry ∉ after lockId) :
    call = .release ⟨lockId, entry.owner, entry.holdToken⟩ ∨
      ∃ now, call = .cleanupExpired now ∧ entry.expiresAt ≤ now := by
  cases hc with
  | refused => exact absurd hb gone
  | acquired added =>
    refine absurd ?_ gone
    by_cases same : lockId = added.lockId
    · subst same
      rw [update_self]
      exact mem_append_left _ hb
    · rwa [update_of_ne same]
  | released release position named hf ho ht =>
    by_cases same : lockId = release.lockId
    · left
      subst same
      rw [update_self, mem_eraseIdx_iff_getElem?] at gone
      obtain ⟨index, here⟩ := mem_iff_getElem?.mp hb
      have ha : index = position := by
        by_contra he
        exact gone ⟨index, he, here⟩
      rw [ha, hf] at here
      cases here
      rw [ho, ht]
    · rw [update_of_ne same] at gone
      exact absurd hb gone
  | cleaned now =>
    refine .inr ⟨now, rfl, Int.not_lt.mp fun live => gone ?_⟩
    exact mem_filter.mpr ⟨hb, decide_eq_true live⟩

theorem Change.elsewhere (hc : Change entries call reply after) {target : LockId}
    (ha : call.lockId = some target) (ho : lockId ≠ target) : after lockId = entries lockId := by
  cases hc with
  | refused => rfl
  | acquired | released =>
    cases ha
    exact update_of_ne ho _ _
  | cleaned => cases ha

theorem Change.failed (hc : Change entries call reply after) (failed : reply.isErr = true) : after = entries := by
  cases hc with
  | refused => rfl
  | acquired | released | cleaned => cases failed

theorem reached_compatible (calls : List Call) (lockId : LockId) :
    Compatible lockId ((final step new calls).entries lockId) := by
  refine final_invariant step (fun _ storage => ∀ lockId, Compatible lockId (storage.entries lockId)) ?_ ?_ calls
    lockId
  · intro lockId
    rw [new, entries]
    simpa using Compatible.nil
  · intro _ storage call hc
    exact (step_change storage call).compatible hc

theorem conflicting_holders_excluded (calls : List Call) :
    (∀ lockId, Compatible lockId ((final step new calls).entries lockId)) ∧ ∀ event ∈ trace step new calls,
        (∀ lockId, ∀ entry ∈ event.before.entries lockId, entry ∉ event.after.entries lockId →
          event.call = .release ⟨lockId, entry.owner, entry.holdToken⟩ ∨
            ∃ now, event.call = .cleanupExpired now ∧ entry.expiresAt ≤ now) ∧
        (event.reply.isErr = true → event.after.entries = event.before.entries) ∧
        ∀ target lockId, event.call.lockId = some target → lockId ≠ target →
          event.after.entries lockId = event.before.entries lockId := by
  refine ⟨reached_compatible calls, fun event mem => ?_⟩
  have hc := step_change event.before event.call
  rw [event_of_mem_trace step mem]
  exact ⟨fun _ _ before gone => hc.removed before gone, hc.failed, fun _ _ => hc.elsewhere⟩

end

end InMemoryLockStorage

end Veloxide.Worker
