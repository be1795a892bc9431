import Veloxide.Library.Execution
import Veloxide.Types.Workflow

namespace Veloxide.CommandHistory

open List Machine

abbrev CommandId := String

inductive HistoryEntryStatus
  | committed
  | undone
  | redone
  | failed
deriving DecidableEq

structure WorkflowSnapshot where
  nodes : List DagNode
  edges : List Edge
  checksum : UInt32

structure HistoryEntry where
  commandId : CommandId
  snapshotBefore : Option WorkflowSnapshot
  snapshotAfter : Option WorkflowSnapshot
  status : HistoryEntryStatus

inductive CommandHistoryError
  | snapshotNotFound (snapshotId : String)
  | entryNotFound (commandId : String)
  | checksumMismatch (expected actual : UInt32)
deriving DecidableEq

/-- The default hasher of the standard library, over the sorted names of the nodes and the edges. -/
class SnapshotHash where
  computeChecksum : List DagNode → List Edge → UInt32

open SnapshotHash

/-- The stacks have their last command first. -/
structure History where
  entries : List HistoryEntry
  undoStack : List CommandId
  redoStack : List CommandId
  capacity : Nat

namespace History

def ids (hist : History) : List CommandId := hist.entries.map HistoryEntry.commandId

def new (capacity : Nat) : History := ⟨[], [], [], capacity⟩

/-- Both ways to record a command, which evict the oldest committed entry of a full history. -/
def record (hist : History) (entry : HistoryEntry) : History where
  entries := (if hist.capacity ≤ hist.entries.length then
    hist.entries.eraseP fun entry => entry.status = .committed else hist.entries) ++ [entry]
  undoStack := entry.commandId :: hist.undoStack
  redoStack := []
  capacity := hist.capacity

def saveUndoPoint (hist : History) (commandId : CommandId) (snapshotBefore : WorkflowSnapshot) : CommandId × History :=
  (commandId, hist.record ⟨commandId, some snapshotBefore, some snapshotBefore, .committed⟩)

def applyCommand (hist : History) (commandId : CommandId) (before after : WorkflowSnapshot) : CommandId × History :=
  (commandId, hist.record ⟨commandId, some before, some after, .committed⟩)

def setStatus (commandId : CommandId) (status : HistoryEntryStatus) : List HistoryEntry → List HistoryEntry
  | [] => []
  | entry :: entries =>
    if entry.commandId = commandId then { entry with status } :: entries
    else entry :: setStatus commandId status entries

section

variable {commandId : CommandId} {status : HistoryEntryStatus} {entries : List HistoryEntry}

theorem map_setStatus : (setStatus commandId status entries).map HistoryEntry.commandId =
    entries.map HistoryEntry.commandId := by
  induction entries with
  | nil => rfl
  | cons entry entries ih =>
    rw [setStatus]
    split_ifs
    · rfl
    · rw [map_cons, map_cons, ih]

theorem mem_setStatus {entry : HistoryEntry} (hd : (entries.map HistoryEntry.commandId).Nodup)
    (mem : entry ∈ setStatus commandId status entries) :
    (entry ∈ entries ∧ entry.commandId ≠ commandId) ∨ ∃ old ∈ entries, entry = { old with status } := by
  induction entries with
  | nil => cases mem
  | cons first entries ih =>
    rw [map_cons, nodup_cons] at hd
    rw [setStatus] at mem
    split_ifs at mem with same
    · grind
    · grind

end

section

variable [SnapshotHash]

def undo (hist : History) : Except CommandHistoryError Bool × History := match hist.undoStack with
  | [] => (.ok false, hist)
  | commandId :: undoStack =>
    match hist.entries.find? fun entry => entry.commandId = commandId with
    | none => (.error (.entryNotFound commandId), { hist with undoStack })
    | some entry =>
      match entry.snapshotBefore with
      | none => (.error (.snapshotNotFound ("entry " ++ commandId)), { hist with undoStack })
      | some snapshot =>
        if computeChecksum snapshot.nodes snapshot.edges ≠ snapshot.checksum then
          (.error (.checksumMismatch snapshot.checksum (computeChecksum snapshot.nodes snapshot.edges)),
            { hist with undoStack })
        else (.ok true, { hist with
          entries := setStatus commandId .undone hist.entries
          undoStack
          redoStack := commandId :: hist.redoStack })

def redo (hist : History) : Except CommandHistoryError Bool × History := match hist.redoStack with
  | [] => (.ok false, hist)
  | commandId :: redoStack => (.ok true, { hist with
      entries := setStatus commandId .redone hist.entries
      undoStack := commandId :: hist.undoStack
      redoStack })

inductive Call
  | saveUndoPoint (commandId : CommandId) (snapshotBefore : WorkflowSnapshot)
  | applyCommand (commandId : CommandId) (before after : WorkflowSnapshot)
  | undo
  | redo

inductive Reply
  | recorded (commandId : CommandId)
  | moved (result : Except CommandHistoryError Bool)

def step (hist : History) : Call → Reply × History
  | .saveUndoPoint commandId snapshot => (hist.saveUndoPoint commandId snapshot).map .recorded id
  | .applyCommand commandId before after => (hist.applyCommand commandId before after).map .recorded id
  | .undo => (hist.undo).map .moved id
  | .redo => hist.redo.map .moved id

def Intact (snapshot : WorkflowSnapshot) : Prop := computeChecksum snapshot.nodes snapshot.edges = snapshot.checksum

/-- Snapshots are intact, and a generated id is not that of an entry. -/
def Allowed (hist : History) : Call → Prop
  | .saveUndoPoint commandId before | .applyCommand commandId before _ =>
    Intact before ∧ commandId ∉ hist.ids
  | .undo | .redo => True

def HasRoom (hist : History) : Call → Prop
  | .saveUndoPoint .. | .applyCommand .. => hist.entries.length < hist.capacity
  | .undo | .redo => True

structure Complete (hist : History) : Prop where
  bounded : hist.entries.length ≤ hist.capacity
  listed : ∀ commandId ∈ hist.undoStack ++ hist.redoStack, commandId ∈ hist.ids

/-- What the history is for. -/
structure Sound (hist : History) : Prop extends Complete hist where
  undoes : (hist.undo).1 = .ok (hist.undoStack ≠ [])
  redoes : hist.redo.1 = .ok (hist.redoStack ≠ [])
  restores : hist.undoStack ≠ [] → (hist.undo).2.redo.2.undoStack = hist.undoStack ∧
    (hist.undo).2.redo.2.redoStack = hist.redoStack

structure Invariant (hist : History) : Prop extends Complete hist where
  distinct : (hist.ids).Nodup
  intact : ∀ entry ∈ hist.entries, ∃ snapshot, entry.snapshotBefore = some snapshot ∧ Intact snapshot
  committed : ∀ entry ∈ hist.entries, entry.status = .committed → entry.commandId ∈ hist.undoStack

variable {hist : History}

variable {commandId : CommandId} {undoStack : List CommandId}

theorem undo_cons (hi : Invariant hist) (hu : hist.undoStack = commandId :: undoStack) :
    hist.undo = (.ok true, { hist with
      entries := setStatus commandId .undone hist.entries
      undoStack
      redoStack := commandId :: hist.redoStack }) := by
  obtain ⟨entry, mem, same⟩ := mem_map.mp (hi.listed commandId (by simp [hu]))
  rw [undo, hu]
  cases found : hist.entries.find? fun entry => entry.commandId = commandId with
  | none => simpa [same] using find?_eq_none.mp found entry mem
  | some other =>
    obtain ⟨snapshot, taken, intact⟩ := hi.intact other (mem_of_find?_eq_some found)
    have same : computeChecksum snapshot.nodes snapshot.edges = snapshot.checksum := intact
    simp [found, taken, same]

/-- A command moves from one stack to the other and its entry gets another status. -/
theorem Invariant.move (hi : Invariant hist) {status : HistoryEntryStatus} (hs : status ≠ .committed)
    {redoStack : List CommandId}
    (kept : ∀ other ∈ undoStack ++ redoStack, other ∈ hist.undoStack ++ hist.redoStack)
    (stays : ∀ other ∈ hist.undoStack, other ≠ commandId → other ∈ undoStack) :
    Invariant { hist with entries := setStatus commandId status hist.entries, undoStack, redoStack } where
  bounded := by
    have := congrArg length (@map_setStatus commandId status hist.entries)
    simp only [length_map] at this
    exact this ▸ hi.bounded
  listed other mem := by
    rw [ids, map_setStatus]
    exact hi.listed other (kept other mem)
  distinct := by
    rw [ids, map_setStatus]
    exact hi.distinct
  intact entry mem := by
    rcases mem_setStatus hi.distinct mem with ⟨mem, _⟩ | ⟨old, held, rfl⟩
    · exact hi.intact entry mem
    · exact hi.intact old held
  committed entry mem same := by
    rcases mem_setStatus hi.distinct mem with ⟨mem, other⟩ | ⟨old, _, rfl⟩
    · exact stays _ (hi.committed entry mem same) other
    · exact absurd same hs

theorem Invariant.undo (hi : Invariant hist) : Invariant (hist.undo).2 := by
  cases hu : hist.undoStack with
  | nil =>
    rw [History.undo, hu]
    exact hi
  | cons commandId undoStack =>
    rw [undo_cons hi hu]
    refine hi.move (by decide) (fun other mem => ?_) (fun other mem hn => ?_)
    · simp only [hu, mem_append, mem_cons] at mem ⊢
      tauto
    · rw [hu] at mem
      exact (mem_cons.mp mem).resolve_left hn

theorem Invariant.redo (hi : Invariant hist) : Invariant hist.redo.2 := by
  rw [History.redo]
  split
  · exact hi
  · rename_i commandId redoStack hr
    refine hi.move (by decide) (fun other mem => ?_) (fun other mem _ => mem_cons_of_mem _ mem)
    simp only [hr, mem_append, mem_cons] at mem ⊢
    tauto

theorem Invariant.sound (hi : Invariant hist) : Sound hist where
  toComplete := hi.toComplete
  undoes := by
    cases hu : hist.undoStack with
    | nil => rw [History.undo, hu]; rfl
    | cons commandId undoStack => rw [undo_cons hi hu]; rfl
  redoes := by
    rw [History.redo]
    split <;> simp [*]
  restores nonempty := by
    cases hu : hist.undoStack with
    | nil => exact absurd hu nonempty
    | cons commandId undoStack =>
      rw [undo_cons hi hu]
      exact ⟨rfl, rfl⟩

variable {entry : HistoryEntry} {snapshot : WorkflowSnapshot}

theorem Invariant.record (hi : Invariant hist) (hr : hist.entries.length < hist.capacity)
    (fresh : entry.commandId ∉ hist.ids) (hs : entry.snapshotBefore = some snapshot)
    (hc : Intact snapshot) : Invariant (hist.record entry) := by
  rw [History.record, if_neg (Nat.not_le.mpr hr)]
  have ids : (hist.entries ++ [entry]).map HistoryEntry.commandId = hist.ids.concat entry.commandId := by
    simp [History.ids]
  refine ⟨⟨?_, ?_⟩, ?_, ?_, ?_⟩
  · simpa using hr
  · intro other mem
    rw [append_nil] at mem
    rw [History.ids, ids, concat_eq_append, mem_append, mem_singleton]
    exact (mem_cons.mp mem).symm.imp_left fun mem => hi.listed other (mem_append_left _ mem)
  · rw [History.ids, ids]
    exact hi.distinct.concat fresh
  · intro other mem
    rcases mem_append.mp mem with mem | mem
    · exact hi.intact other mem
    · rw [mem_singleton.mp mem]
      exact ⟨snapshot, hs, hc⟩
  · intro other mem same
    rcases mem_append.mp mem with mem | mem
    · exact mem_cons_of_mem _ (hi.committed other mem same)
    · rw [mem_singleton.mp mem]
      exact mem_cons_self

/-- A full history forgets a command that can still be undone, or has nothing to forget. -/
theorem Invariant.room_of_sound (hi : Invariant hist) (fresh : entry.commandId ∉ hist.ids)
    (hs : Sound (hist.record entry)) : hist.entries.length < hist.capacity := by
  by_contra full
  have hf : hist.capacity ≤ hist.entries.length := Nat.not_lt.mp full
  have bounded := hs.bounded
  have listed := hs.listed
  rw [History.record, if_pos hf] at bounded listed
  rcases exists_or_eq_self_of_eraseP (fun entry : HistoryEntry => entry.status = .committed) hist.entries with
    same | ⟨old, first, rest, _, status, split, erased⟩
  · rw [same] at bounded
    simp at bounded
    omega
  · rw [erased] at listed
    have mem : old ∈ hist.entries := by simp [split]
    have held := hi.committed old mem (by simpa using status)
    have ha := listed old.commandId (by simp [held])
    have distinct := hi.distinct
    rw [ids, split, map_append, map_cons, nodup_middle, nodup_cons, ← map_append] at distinct
    rw [ids, map_append, mem_append] at ha
    rcases ha with ha | same
    · exact distinct.1 ha
    · exact fresh (mem_map.mpr ⟨old, mem, mem_singleton.mp same⟩)

theorem step_sound_iff (hi : Invariant hist) (call : Call) (ha : Allowed hist call) :
    (Sound (step hist call).2 ↔ HasRoom hist call) ∧ (HasRoom hist call → Invariant (step hist call).2) := by
  cases call with
  | saveUndoPoint commandId before | applyCommand commandId before after =>
    exact ⟨⟨hi.room_of_sound ha.2, fun room => (hi.record room ha.2 rfl ha.1).sound⟩,
      fun room => hi.record room ha.2 rfl ha.1⟩
  | undo => exact ⟨iff_of_true hi.undo.sound trivial, fun _ => hi.undo⟩
  | redo => exact ⟨iff_of_true hi.redo.sound trivial, fun _ => hi.redo⟩

/-- A full history evicts an entry whose command is still on the undo stack, or grows beyond its capacity. -/
theorem history_sound_iff_room (capacity : Nat) (calls : List Call) (allowed : Guarded step Allowed (new capacity) calls) :
    (∀ event ∈ trace step (new capacity) calls, Sound event.after) ↔
      ∀ event ∈ trace step (new capacity) calls, HasRoom event.before event.call := by
  have start : Invariant (new capacity) := ⟨⟨Nat.zero_le _, by simp [new]⟩, nodup_nil, by simp [new], by simp [new]⟩
  exact forall_trace_iff step Allowed Invariant (fun event => Sound event.after)
    (fun event => HasRoom event.before event.call) (fun _ call hi ha => step_sound_iff hi call ha) start allowed

end

section Sample

@[reducible] def sampleHash : SnapshotHash := ⟨fun _ _ => 0⟩

attribute [local instance] sampleHash

def samplePoint (commandId : CommandId) : Call := .saveUndoPoint commandId ⟨[], [], 0⟩

theorem history_sound_iff_room_two : Guarded step Allowed (new 2) [samplePoint "a", .undo, samplePoint "b"] ∧
    ∀ event ∈ trace step (new 2) [samplePoint "a", .undo, samplePoint "b"], Sound event.after := by
  have ha : Guarded step Allowed (new 2) [samplePoint "a", .undo, samplePoint "b"] :=
    ⟨⟨rfl, by decide⟩, trivial, ⟨rfl, by decide⟩, trivial⟩
  refine ⟨ha, (history_sound_iff_room 2 _ ha).mpr ?_⟩
  simp only [trace, forall_mem_cons]
  exact ⟨Nat.zero_lt_two, trivial, Nat.one_lt_two, fun _ h => (by cases h)⟩

/-- The second of two commands evicts the first, whose undo then finds no entry. -/
theorem undo_finds_no_entry :
    ((final step (new 1) [samplePoint "a", samplePoint "b", .undo]).undo).1 = .error (.entryNotFound "a") := by
  decide

end Sample

end History

end Veloxide.CommandHistory
