import Veloxide.Library.Keyspace
import Veloxide.Replay.EventSourcing

namespace Veloxide.Replay.InMemorySnapshotStore

open OrderedStore Machine Function

abbrev Snapshots := Store String Snapshot

variable (snapshots : Snapshots)

def saveSnapshot (snapshot : Snapshot) : Snapshots := snapshots.insert snapshot.projectionId snapshot

def loadLatestSnapshot (projectionId : String) : Option Snapshot := snapshots[projectionId]?

def deleteSnapshot (projectionId : String) (_sequence : UInt64) : Snapshots := snapshots.erase projectionId

inductive Call
  | save (snapshot : Snapshot)
  | delete (projectionId : String) (sequence : UInt64)

/-- What was saved and not deleted, by projection and sequence number. -/
abbrev Kept := String → UInt64 → Option Snapshot

def Kept.change (kept : Kept) (projectionId : String) (sequence : UInt64) (snapshot : Option Snapshot) : Kept :=
  update kept projectionId (update (kept projectionId) sequence snapshot)

/-- The store, and beside it what it should know. -/
structure State where
  snapshots : Snapshots
  kept : Kept

def State.new : State := ⟨∅, fun _ _ => none⟩

def step (state : State) : Call → Unit × State
  | .save snapshot =>
    ((), ⟨saveSnapshot state.snapshots snapshot,
      state.kept.change snapshot.projectionId snapshot.sequence (some snapshot)⟩)
  | .delete projectionId sequence =>
    ((), ⟨deleteSnapshot state.snapshots projectionId sequence, state.kept.change projectionId sequence none⟩)

def Latest (kept : UInt64 → Option Snapshot) : Option Snapshot → Prop
  | none => ∀ sequence, kept sequence = none
  | some snapshot => kept snapshot.sequence = some snapshot ∧
      ∀ sequence, (kept sequence).isSome → sequence ≤ snapshot.sequence

def Fresh (state : State) : Prop :=
  ∀ projectionId, Latest (state.kept projectionId) (loadLatestSnapshot state.snapshots projectionId)

/-- A snapshot is not older than the one it replaces, and the one that is deleted is the only one there is. -/
def InOrder (state : State) : Call → Prop
  | .save snapshot => ∀ held ∈ state.snapshots[snapshot.projectionId]?, held.sequence ≤ snapshot.sequence
  | .delete projectionId sequence => ∀ other, (state.kept projectionId other).isSome → other = sequence

variable {state : State}

theorem fresh_change_iff {snapshots : Snapshots} {proj : String} {seq : UInt64}
    {snap : Option Snapshot} (hf : Fresh state)
    (ho : ∀ other, other ≠ proj → snapshots[other]? = state.snapshots[other]?) :
    Fresh ⟨snapshots, state.kept.change proj seq snap⟩ ↔
      Latest (update (state.kept proj) seq snap) snapshots[proj]? := by
  constructor
  · intro all
    have here := all proj
    simp only [Kept.change, update_self] at here
    exact here
  · intro here other
    by_cases same : other = proj
    · simp only [same, Kept.change, update_self]
      exact here
    · simp only [Kept.change, update_of_ne same, loadLatestSnapshot, ho other same]
      exact hf other

theorem latest_save_iff {kept : UInt64 → Option Snapshot} {held : Option Snapshot} (hl : Latest kept held)
    (snap : Snapshot) : Latest (update kept snap.sequence (some snap)) (some snap) ↔
      ∀ other ∈ held, other.sequence ≤ snap.sequence := by
  constructor
  · rintro ⟨_, hh⟩ other rfl
    apply hh
    by_cases same : other.sequence = snap.sequence
    · rw [same, update_self]
      rfl
    · rw [update_of_ne same, hl.1]
      rfl
  · intro ha
    refine ⟨update_self _ _ _, fun seq hf => ?_⟩
    by_cases same : seq = snap.sequence
    · exact UInt64.le_of_eq same
    · rw [update_of_ne same] at hf
      cases held with
      | none =>
        rw [hl seq] at hf
        cases hf
      | some other => exact UInt64.le_trans (hl.2 seq hf) (ha other rfl)

theorem latest_delete_iff (kept : UInt64 → Option Snapshot) (sequence : UInt64) :
    Latest (update kept sequence none) none ↔ ∀ other, (kept other).isSome → other = sequence := by
  constructor
  · intro gone other kept
    by_contra hd
    have none := gone other
    rw [update_of_ne hd] at none
    rw [none] at kept
    cases kept
  · intro only other
    by_cases same : other = sequence
    · rw [same, update_self]
    · rw [update_of_ne same, ← Option.not_isSome_iff_eq_none]
      exact fun kept => same (only other kept)

theorem step_fresh_iff (hf : Fresh state) (call : Call) : Fresh (step state call).2 ↔ InOrder state call := by
  cases call with
  | save snap =>
    have ho : ∀ other, other ≠ snap.projectionId →
        (saveSnapshot state.snapshots snap)[other]? = state.snapshots[other]? :=
      fun other hd => get_insert_of_ne _ hd.symm snap
    apply (fresh_change_iff hf ho).trans
    rw [saveSnapshot, get_insert, if_pos rfl]
    exact latest_save_iff (hf snap.projectionId) snap
  | delete proj seq =>
    have ho : ∀ other, other ≠ proj → (deleteSnapshot state.snapshots proj seq)[other]? = state.snapshots[other]? := by
      intro other hd
      rw [deleteSnapshot, get_erase, if_neg hd.symm]
    apply (fresh_change_iff hf ho).trans
    rw [deleteSnapshot, get_erase, if_pos rfl]
    exact latest_delete_iff (state.kept proj) seq

theorem fresh_new : Fresh .new := by
  intro proj seq
  rfl

/-- A save replaces the snapshot whatever the numbers, and a delete removes it whatever its number. -/
theorem latest_snapshot_loaded_iff (calls : List Call) :
    (∀ earlier, earlier <+: calls → Fresh (final step .new earlier)) ↔ Guarded step InOrder .new calls :=
  Guarded.iff_forall_prefix step InOrder (fun _ _ => True) Fresh (fun _ call hf _ => step_fresh_iff hf call)
    fresh_new (Guarded.trivial step _ calls)

section Sample

def sampleSnapshot (sequence : UInt64) : Snapshot := ⟨"orders", 1, [], sequence, 0, 0⟩

/-- The older snapshot is saved last, and is the one that is loaded. -/
theorem older_snapshot_loaded :
    ((loadLatestSnapshot (final step .new [.save (sampleSnapshot 9), .save (sampleSnapshot 5)]).snapshots
      "orders").map Snapshot.sequence) = some 5 ∧
    ((final step .new [.save (sampleSnapshot 9), .save (sampleSnapshot 5)]).kept "orders" 9).isSome := by
  decide +kernel

end Sample

end Veloxide.Replay.InMemorySnapshotStore
