import Veloxide.Library.Bytes
import Veloxide.Library.Execution
import Veloxide.Library.Interruptible

namespace Veloxide.WorkspaceSwap

open Machine

mutual

/-- `other` is what is neither a file nor a directory, such as a symbolic link. -/
inductive Entry
  | file (contents : ByteCodec.Bytes)
  | dir (entries : Directory)
  | other

inductive Directory
  | empty
  | entry (name : String) (first : Entry) (rest : Directory)

end

mutual

def copyEntry : Entry → Option Entry
  | .file contents => some (.file contents)
  | .dir entries => some (.dir (copyDirRecursive entries))
  | .other => none

def copyDirRecursive : Directory → Directory
  | .empty => .empty
  | .entry name first rest =>
    match copyEntry first with
    | some copied => .entry name copied (copyDirRecursive rest)
    | none => copyDirRecursive rest

end

inductive SwapPhase
  | initial
  | staging
  | staged
  | swapping
  | complete

inductive SwapStatus
  | noPriorSwap
  | incomplete (phase : SwapPhase)
  | complete

inductive RecoveryOutcome
  | nothingToRecover
  | alreadyComplete
  | rolledBack

inductive Place
  | workspace
  | shadow
  | backup

inductive SwapError
  | workspaceNotFound
  | shadowExists
  | invalidJournal
  | renameFailed (source target : Place)

/-- The directories and the journal, and beside the disk what the workspace and the finished copy held. -/
structure Disk where
  workspace : Option Directory
  shadow : Option Directory
  backup : Option Directory
  journal : Option SwapPhase
  before : Directory
  staged : Option Directory

variable (phase : SwapPhase) (part data : Directory)

namespace Disk

def new : Disk := ⟨some data, none, none, none, data, none⟩

abbrev Program := Interruptible Disk SwapError

open Interruptible

def checkStatus : Program SwapStatus := do
  let journal ← read Disk.journal
  match journal with
  | none => pure .noPriorSwap
  | some .initial => fail .invalidJournal
  | some .complete => pure .complete
  | some phase => pure (.incomplete phase)

def syncDir : Program Unit := atomic .ok

def writeJournalAt : Program Unit := do
  atomic fun disk => .ok { disk with journal := some phase }
  syncDir

def beginStaging : Program Unit := do
  atomic fun disk => .ok { disk with
    journal := some .staging, before := disk.workspace.getD .empty, staged := none }
  syncDir

def createShadow : Program Unit := atomic fun disk => .ok { disk with shadow := some .empty }

def copyToShadow : Program Unit := torn
    (fun disk => { disk with
      shadow := disk.workspace.map copyDirRecursive, staged := disk.workspace.map copyDirRecursive })
    fun disk => { disk with shadow := some part }

def stage : Program SwapPhase := do
  let workspace ← read Disk.workspace
  match workspace with
  | none => fail .workspaceNotFound
  | some _ =>
    let shadow ← read Disk.shadow
    match shadow with
    | some _ => fail .shadowExists
    | none =>
      beginStaging
      createShadow
      copyToShadow part
      syncDir
      syncDir
      writeJournalAt .staged
      pure .staged

def removeIfPresent (present : Disk → Bool) (removed : Disk → Disk) : Program Unit := do
  let found ← read present
  if found then atomic fun disk => .ok (removed disk) else pure ()

def removeBackup : Program Unit := removeIfPresent (·.backup.isSome) fun disk => { disk with backup := none }

def removeShadow : Program Unit := removeIfPresent (·.shadow.isSome) fun disk => { disk with shadow := none }

def cleanupJournal : Program Unit := removeIfPresent (·.journal.isSome) fun disk => { disk with journal := none }

def renameWorkspaceToBackup : Program Unit := atomic fun disk =>
  match disk.workspace, disk.backup with
  | some data, none => .ok { disk with workspace := none, backup := some data }
  | _, _ => .error (.renameFailed .workspace .backup)

def renameShadowToWorkspace : Program Unit := atomic fun disk =>
  match disk.shadow, disk.workspace with
  | some data, none => .ok { disk with shadow := none, workspace := some data }
  | _, _ => .error (.renameFailed .shadow .workspace)

def renameBackupToWorkspace : Program Unit := atomic fun disk =>
  match disk.backup, disk.workspace with
  | some data, none => .ok { disk with backup := none, workspace := some data }
  | _, _ => .error (.renameFailed .backup .workspace)

def swap : Program Unit := do
  writeJournalAt .swapping
  removeBackup
  renameWorkspaceToBackup
  syncDir
  renameShadowToWorkspace
  syncDir
  writeJournalAt .complete
  removeBackup
  cleanupJournal

def commit : Program Unit := do
  let status ← checkStatus
  match status with
  | .noPriorSwap => pure ()
  | .complete => pure ()
  | .incomplete _ => swap

def restoreBackup : Program Unit := do
  let disk ← read id
  if disk.backup.isSome && disk.workspace.isNone then
    renameBackupToWorkspace
    syncDir
  else if disk.backup.isSome && disk.workspace.isSome then
    atomic fun disk => .ok { disk with backup := none }
  else pure ()

def rollBack : Program RecoveryOutcome := match phase with
  | .staging | .staged => do
    removeShadow
    cleanupJournal
    pure .rolledBack
  | .swapping => do
    restoreBackup
    removeShadow
    cleanupJournal
    pure .rolledBack
  | _ => pure .nothingToRecover

def recover : Program RecoveryOutcome := do
  let status ← checkStatus
  match status with
  | .noPriorSwap => pure .nothingToRecover
  | .complete => do
    cleanupJournal
    pure .alreadyComplete
  | .incomplete phase => rollBack phase

def write (disk : Disk) (change : Directory → Directory) : Disk := match disk.shadow with
  | none => disk
  | some data => { disk with
      shadow := some (change data), staged := disk.staged.map fun _ => change data }

end Disk

inductive Call
  | stage (steps : Nat) (part : Directory)
  | write (change : Directory → Directory)
  | commit (steps : Nat)
  | recover (steps : Nat)

/-- A call that was cut short, by a crash or by an operation that failed, has no result here. -/
inductive Reply
  | staged (result : Option (Except SwapError SwapPhase))
  | written
  | committed (result : Option (Except SwapError Unit))
  | recovered (result : Option (Except SwapError RecoveryOutcome))

open Interruptible in
def step (disk : Disk) : Call → Reply × Disk
  | .stage steps part =>
    let outcome := (Disk.stage part).run steps disk
    (.staged (result outcome), outcome.2)
  | .write change => (.written, disk.write change)
  | .commit steps =>
    let outcome := Disk.commit.run steps disk
    (.committed (result outcome), outcome.2)
  | .recover steps =>
    let outcome := Disk.recover.run steps disk
    (.recovered (result outcome), outcome.2)

abbrev Event := Machine.Event Disk Call Reply

/-- A commit is started only with the workspace in place, and never with a shadow whose copy was not finished. -/
def Orderly (disk : Disk) : Call → Prop
  | .commit _ => disk.workspace.isSome ∧ (disk.shadow.isSome → disk.staged.isSome)
  | _ => True

namespace Disk

open Interruptible

def Whole (disk : Disk) (data : Directory) : Prop :=
  data = disk.before ∨ disk.shadow = none ∧ disk.staged = some data

/-- Where the workspace is missing, the journal says so and the backup has it. -/
structure Safe (disk : Disk) : Prop where
  placed : ∀ data, disk.workspace = some data → disk.Whole data
  missing : disk.workspace = none → disk.journal = some .swapping ∧
    ∃ data, disk.backup = some data ∧ disk.Whole data
  shadowed : ∀ data staged, disk.shadow = some data → disk.staged = some staged → staged = data

def Placed (disk : Disk) : Prop := disk.Safe ∧ disk.workspace.isSome

def Finished (disk : Disk) : Prop := disk.shadow.isSome → disk.staged.isSome

section

variable {disk : Disk}

theorem Safe.placed_of_journal (safe : disk.Safe) (ho : disk.journal ≠ some .swapping) : disk.Placed := by
  refine ⟨safe, ?_⟩
  cases hf : disk.workspace with
  | none => exact absurd (safe.missing hf).1 ho
  | some data => rfl

theorem Placed.journal (hp : disk.Placed) (journal : Option SwapPhase) : Placed { disk with journal } := by
  refine ⟨⟨hp.1.placed, fun hm => ?_, hp.1.shadowed⟩, hp.2⟩
  have ht := hp.2
  rw [show disk.workspace = none from hm] at ht
  cases ht

theorem Placed.backup (hp : disk.Placed) (backup : Option Directory) : Placed { disk with backup } := by
  refine ⟨⟨hp.1.placed, fun hm => ?_, hp.1.shadowed⟩, hp.2⟩
  have ht := hp.2
  rw [show disk.workspace = none from hm] at ht
  cases ht

theorem Whole.dropShadow {data : Directory} (hw : disk.Whole data) : Whole { disk with shadow := none } data :=
  hw.imp_right fun hs => ⟨rfl, hs.2⟩

theorem Placed.dropShadow (hp : disk.Placed) : Placed { disk with shadow := none } := by
  refine ⟨⟨fun data hf => (hp.1.placed data hf).dropShadow, fun hm => ?_, ?_⟩, hp.2⟩
  · have ht := hp.2
    rw [show disk.workspace = none from hm] at ht
    cases ht
  · intro data staged hi
    cases hi

theorem Safe.write (safe : disk.Safe) (change : Directory → Directory) : (disk.write change).Safe := by
  unfold Disk.write
  cases hf : disk.shadow with
  | none => exact safe
  | some data =>
    have kept {other : Directory} (hw : disk.Whole other) (staged : Option Directory) :
        Whole { disk with shadow := some (change data), staged } other := by
      rcases hw with same | ⟨ha, _⟩
      · exact .inl same
      · cases hf.symm.trans ha
    refine ⟨fun other ht => kept (safe.placed other ht) _, fun hm => ?_, ?_⟩
    · obtain ⟨hj, other, hb, hw⟩ := safe.missing hm
      exact ⟨hj, other, hb, kept hw _⟩
    · intro other staged shadow hc
      obtain ⟨_, _, rfl⟩ := Option.map_eq_some_iff.mp hc
      exact Option.some.inj shadow

end

section

variable {pre : Disk → Prop}

theorem syncDir_keeps (safe : ∀ disk, pre disk → disk.Safe) : Triple pre syncDir (fun _ => pre) Safe := by
  refine Triple.atomic safe fun disk after hh same => ?_
  cases same
  exact hh

theorem removeIfPresent_keeps {present : Disk → Bool} {removed : Disk → Disk} (safe : ∀ disk, pre disk → disk.Safe)
    (kept : ∀ disk, pre disk → pre (removed disk)) :
    Triple pre (removeIfPresent present removed) (fun _ => pre) Safe := by
  refine Triple.bind Triple.read fun found => ?_
  split_ifs
  · refine Triple.atomic (fun disk hh => safe disk hh.1) fun disk after hh same => ?_
    cases same
    exact kept disk hh.1
  · exact Triple.pure fun disk hh => hh.1

theorem writeJournalAt_spec (kept : ∀ disk, pre disk → disk.Placed) : Triple pre (writeJournalAt phase)
    (fun _ disk => ∃ past, pre past ∧ disk = { past with journal := some phase }) Safe := by
  refine Triple.bind (Triple.atomic (fun disk hh => (kept disk hh).1) ?_) fun _ => syncDir_keeps ?_
  · intro disk after hh same
    cases same
    exact ⟨disk, hh, rfl⟩
  · rintro disk ⟨past, hh, rfl⟩
    exact ((kept past hh).journal _).1

theorem checkStatus_spec (safe : ∀ disk, pre disk → disk.Safe) :
    Triple pre checkStatus (fun status disk => pre disk ∧ match status with
      | .noPriorSwap => disk.journal = none | .complete => disk.journal = some .complete
      | .incomplete phase => disk.journal = some phase) Safe := by
  refine Triple.bind Triple.read fun journal => ?_
  rcases journal with _ | phase
  · exact Triple.pure fun disk hh => hh
  · cases phase with
    | initial => exact Triple.fail fun disk hh => safe disk hh.1
    | staging | staged | swapping | complete => exact Triple.pure fun disk hh => hh

end

section

theorem writeJournalAt_placed : Triple Placed (writeJournalAt phase) (fun _ => Placed) Safe := by
  refine (writeJournalAt_spec phase fun _ hh => hh).weaken (fun _ hh => hh) ?_
  rintro _ disk ⟨past, hh, rfl⟩
  exact hh.journal _

def Staging (disk : Disk) : Prop := disk.workspace = some disk.before ∧ disk.staged = none

theorem Staging.placed {disk : Disk} (hs : disk.Staging) : disk.Placed := by
  refine ⟨⟨fun data ht => .inl ?_, fun hm => ?_, fun data staged _ hi => ?_⟩, ?_⟩
  · exact Option.some.inj (ht.symm.trans hs.1)
  · cases hm.symm.trans hs.1
  · cases hi.symm.trans hs.2
  · rw [hs.1]
    rfl

theorem beginStaging_spec : Triple Placed beginStaging (fun _ => Staging) Safe := by
  refine Triple.bind (Triple.atomic (fun disk hh => hh.1) ?_) fun _ =>
    syncDir_keeps fun disk hs => hs.placed.1
  intro disk after hh same
  cases same
  obtain ⟨data, ht⟩ := Option.isSome_iff_exists.mp hh.2
  exact ⟨by simp [ht], rfl⟩

theorem createShadow_spec : Triple Staging createShadow (fun _ => Staging) Safe := by
  refine Triple.atomic (fun disk hs => hs.placed.1) fun disk after hs same => ?_
  cases same
  exact hs

theorem copyToShadow_spec : Triple Staging (copyToShadow part) (fun _ => Placed) Safe := by
  refine Triple.torn (fun disk hs => ?_) fun disk hs => ?_
  · exact (Staging.placed (show Staging { disk with shadow := some part } from hs)).1
  · refine ⟨⟨fun data ht => .inl ?_, fun hm => ?_, fun data staged shadow hc => ?_⟩, ?_⟩
    · exact Option.some.inj (ht.symm.trans hs.1)
    · cases (show disk.workspace = none from hm).symm.trans hs.1
    · exact Option.some.inj (hc.symm.trans shadow)
    · exact hs.placed.2

theorem stage_spec : Triple Safe (stage part) (fun _ => Placed) Safe := by
  refine Triple.bind Triple.read fun workspace => ?_
  cases workspace with
  | none => exact Triple.fail fun disk hh => hh.1
  | some data =>
    refine Triple.bind Triple.read fun shadow => ?_
    cases shadow with
    | some found => exact Triple.fail fun disk hh => hh.1.1
    | none =>
      refine Triple.bind (beginStaging_spec.weaken ?_ fun _ _ hh => hh) fun _ => ?_
      · rintro disk ⟨⟨safe, ht⟩, _⟩
        exact ⟨safe, by rw [ht]; rfl⟩
      refine Triple.bind createShadow_spec fun _ => ?_
      refine Triple.bind (copyToShadow_spec part) fun _ => ?_
      refine Triple.bind (syncDir_keeps fun _ hh => hh.1) fun _ => ?_
      refine Triple.bind (syncDir_keeps fun _ hh => hh.1) fun _ => ?_
      exact Triple.bind (writeJournalAt_placed .staged) fun _ => Triple.pure fun _ hh => hh

theorem cleanupJournal_spec : Triple Placed cleanupJournal (fun _ => Placed) Safe :=
  removeIfPresent_keeps (fun _ hh => hh.1) fun _ hh => hh.journal none

theorem removeShadow_spec : Triple Placed removeShadow (fun _ => Placed) Safe :=
  removeIfPresent_keeps (fun _ hh => hh.1) fun _ hh => hh.dropShadow

/-- The workspace can be moved away: the journal says that a swap is going on. -/
structure Swapping (disk : Disk) : Prop where
  placed : disk.Placed
  finished : disk.Finished
  journal : disk.journal = some .swapping

theorem writeSwapping_spec : Triple (fun disk => disk.Placed ∧ disk.Finished) (writeJournalAt .swapping)
    (fun _ => Swapping) Safe := by
  refine (writeJournalAt_spec .swapping fun _ hh => hh.1).weaken (fun _ hh => hh) ?_
  rintro _ disk ⟨past, hh, rfl⟩
  exact ⟨hh.1.journal _, hh.2, rfl⟩

theorem renameWorkspaceToBackup_spec : Triple Swapping renameWorkspaceToBackup
    (fun _ disk => disk.Safe ∧ disk.Finished) Safe := by
  refine Triple.atomic (fun disk hh => hh.placed.1) fun disk after hh hr => ?_
  split at hr
  · rename_i data ht _
    cases hr
    refine ⟨⟨fun _ hi => (by cases hi), fun _ => ?_, hh.placed.1.shadowed⟩, hh.finished⟩
    exact ⟨hh.journal, data, rfl, hh.placed.1.placed data ht⟩
  · cases hr

theorem renameShadowToWorkspace_spec : Triple (fun disk => disk.Safe ∧ disk.Finished) renameShadowToWorkspace
    (fun _ => Placed) Safe := by
  refine Triple.atomic (fun disk hh => hh.1) fun disk after hh hr => ?_
  split at hr
  · rename_i data hs _
    cases hr
    obtain ⟨staged, hc⟩ := Option.isSome_iff_exists.mp (hh.2 (by rw [hs]; rfl))
    refine ⟨⟨fun other ht => .inr ⟨rfl, ?_⟩, fun hi => (by cases hi), fun _ _ hi => ?_⟩, rfl⟩
    · cases ht
      rw [← hh.1.shadowed _ _ hs hc]
      exact hc
    · cases hi
  · cases hr

theorem swap_spec : Triple (fun disk => disk.Placed ∧ disk.Finished) swap (fun _ => Placed) Safe := by
  refine Triple.bind writeSwapping_spec fun _ => ?_
  refine Triple.bind (removeIfPresent_keeps (fun _ hh => hh.placed.1) ?_) fun _ => ?_
  · exact fun disk hh => ⟨hh.placed.backup none, hh.finished, hh.journal⟩
  refine Triple.bind renameWorkspaceToBackup_spec fun _ => ?_
  refine Triple.bind (syncDir_keeps fun _ hh => hh.1) fun _ => ?_
  refine Triple.bind renameShadowToWorkspace_spec fun _ => ?_
  refine Triple.bind (syncDir_keeps fun _ hh => hh.1) fun _ => ?_
  refine Triple.bind (writeJournalAt_placed .complete) fun _ => ?_
  refine Triple.bind (removeIfPresent_keeps (fun _ hh => hh.1) fun _ hh => hh.backup none) fun _ => ?_
  exact cleanupJournal_spec

theorem commit_spec : Triple (fun disk => disk.Placed ∧ disk.Finished) commit (fun _ => Placed) Safe := by
  refine Triple.bind (checkStatus_spec fun _ hh => hh.1.1) fun status => ?_
  cases status with
  | noPriorSwap | complete => exact Triple.pure fun _ hh => hh.1.1
  | incomplete phase => exact swap_spec.weaken (fun _ hh => hh.1) fun _ _ hh => hh

theorem restoreBackup_spec : Triple Safe restoreBackup (fun _ => Placed) Safe := by
  refine Triple.bind Triple.read fun found => ?_
  split_ifs with lost both
  · refine Triple.bind (Triple.atomic (fun _ hh => hh.1) ?_) fun _ => syncDir_keeps fun _ hh => hh.1
    intro disk after hh hr
    split at hr
    · rename_i data hb hm
      cases hr
      obtain ⟨_, other, same, hw⟩ := hh.1.missing hm
      cases hb.symm.trans same
      refine ⟨⟨fun other ht => ?_, fun hi => (by cases hi), hh.1.shadowed⟩, rfl⟩
      cases ht
      exact hw
    · cases hr
  · refine Triple.atomic (fun _ hh => hh.1) fun disk after hh same => ?_
    cases same
    obtain ⟨safe, rfl⟩ := hh
    exact Placed.backup ⟨safe, (Bool.and_eq_true_iff.mp both).2⟩ none
  · refine Triple.pure ?_
    rintro disk ⟨safe, rfl⟩
    refine ⟨safe, ?_⟩
    cases ht : disk.workspace with
    | some data => rfl
    | none =>
      obtain ⟨_, data, hb, _⟩ := safe.missing ht
      simp [ht, hb] at lost

theorem rollBack_spec :
    Triple (fun disk => disk.Safe ∧ disk.journal = some phase) (rollBack phase) (fun _ => Placed) Safe := by
  have staged (ho : phase ≠ .swapping) (disk : Disk) (hh : disk.Safe ∧ disk.journal = some phase) :
      disk.Placed := hh.1.placed_of_journal (by rw [hh.2]; simpa using ho)
  have hc : Triple Placed (do removeShadow; cleanupJournal; pure .rolledBack : Program RecoveryOutcome)
      (fun _ => Placed) Safe :=
    Triple.bind removeShadow_spec fun _ => Triple.bind cleanupJournal_spec fun _ => Triple.pure fun _ hh => hh
  cases phase with
  | initial | complete => exact Triple.pure (staged (by simp))
  | staging | staged => exact hc.weaken (staged (by simp)) fun _ _ hh => hh
  | swapping => exact Triple.bind (restoreBackup_spec.weaken (fun _ hh => hh.1) fun _ _ hh => hh) fun _ => hc

theorem recover_spec : Triple Safe recover (fun _ => Placed) Safe := by
  refine Triple.bind (checkStatus_spec fun _ hh => hh) fun status => ?_
  cases status with
  | noPriorSwap => exact Triple.pure fun _ hh => hh.1.placed_of_journal (by simp [hh.2])
  | complete =>
    refine Triple.bind (cleanupJournal_spec.weaken (fun _ hh => ?_) fun _ _ hh => hh) fun _ =>
      Triple.pure fun _ hh => hh
    exact hh.1.placed_of_journal (by simp [hh.2])
  | incomplete phase => exact (rollBack_spec phase).weaken (fun _ hh => hh) fun _ _ hh => hh

end

end Disk

section

open Disk

theorem safe_new : (new data).Safe := by
  refine ⟨fun other ht => .inl (Option.some.inj ht).symm, fun hi => (by cases hi), ?_⟩
  intro other staged hi
  cases hi

variable {disk : Disk}

theorem step_safe (safe : disk.Safe) {call : Call} (ho : Orderly disk call) : (step disk call).2.Safe := by
  cases call with
  | stage steps part => exact (stage_spec part).final steps safe (fun _ _ hp => hp.1) fun _ hh => hh
  | write change => exact safe.write change
  | commit steps =>
    exact commit_spec.final steps ⟨⟨safe, ho.1⟩, ho.2⟩ (fun _ _ hp => hp.1) fun _ hh => hh
  | recover steps => exact recover_spec.final steps safe (fun _ _ hp => hp.1) fun _ hh => hh

/-- After the recovery the workspace has its content from before the swap, or all that was staged. -/
def Recovers (event : Event) : Prop := ∀ outcome, event.reply = .recovered (some (.ok outcome)) →
    ∃ data, event.after.workspace = some data ∧ (data = event.after.before ∨ event.after.staged = some data)

theorem step_recovers (safe : disk.Safe) (call : Call) : Recovers (event step disk call) := by
  intro out hr
  cases call with
  | stage steps part | write change | commit steps => cases hr
  | recover steps =>
    obtain ⟨ha, ht⟩ := recover_spec.finished safe (Reply.recovered.inj hr)
    obtain ⟨data, ht⟩ := Option.isSome_iff_exists.mp ht
    exact ⟨data, ht, (ha.placed data ht).imp_right And.right⟩

/-- Each recovery leaves a whole workspace, if no commit starts without a workspace or finished copy. -/
theorem recovery_keeps_workspace (data : Directory) (calls : List Call)
    (orderly : Guarded step Orderly (new data) calls) :
    ∀ event ∈ trace step (new data) calls, Recovers event := by
  have hi := history_invariant step Orderly
    (fun history disk => disk.Safe ∧ ∀ event ∈ history, Recovers event) (new data) ⟨safe_new data, by simp⟩
    (fun history disk call he orderly => ?_) calls orderly
  · exact hi.2
  · refine ⟨step_safe he.1 orderly, List.forall_mem_append.mpr ⟨he.2, ?_⟩⟩
    exact List.forall_mem_singleton.mpr (step_recovers he.1 call)

end

section Sample

open Disk

def sampleContent : Directory := .entry "settings" (.file [1]) .empty

def sampleCalls : List Call :=
  [.stage 10 .empty, .write fun data => .entry "added" (.file []) data, .commit 3, .recover 10]

theorem recovery_keeps_workspace_sample : Guarded step Orderly (new sampleContent) sampleCalls ∧
    (∀ event ∈ trace step (new sampleContent) sampleCalls, Recovers event) ∧
    (final step (new sampleContent) sampleCalls).workspace = some sampleContent := by
  have ho : Guarded step Orderly (new sampleContent) sampleCalls :=
    ⟨trivial, trivial, ⟨rfl, fun _ => rfl⟩, trivial, trivial⟩
  exact ⟨ho, recovery_keeps_workspace sampleContent sampleCalls ho, rfl⟩

def unfinishedCalls : List Call := [.stage 3 .empty, .commit 20]

def repeatedCalls : List Call := [.stage 10 .empty, .commit 3, .commit 20]

/-- Either run is followed by a recovery that succeeds. In the first the workspace is empty, in the second gone. -/
theorem workspace_lost : (step (final step (new sampleContent) unfinishedCalls) (.recover 20)).1 =
      .recovered (some (.ok .nothingToRecover)) ∧
    (step (final step (new sampleContent) unfinishedCalls) (.recover 20)).2.workspace = some .empty ∧
    ¬ Recovers (event step (final step (new sampleContent) unfinishedCalls) (.recover 20)) ∧
    (step (final step (new sampleContent) repeatedCalls) (.recover 20)).1 = .recovered (some (.ok .rolledBack)) ∧
    (step (final step (new sampleContent) repeatedCalls) (.recover 20)).2.workspace = none ∧
    ¬ Recovers (event step (final step (new sampleContent) repeatedCalls) (.recover 20)) := by
  refine ⟨rfl, rfl, fun hr => ?_, rfl, rfl, fun hr => ?_⟩
  · obtain ⟨data, ht, same | staged⟩ := hr .nothingToRecover rfl
    · cases ht
      cases same
    · cases staged
  · obtain ⟨data, ht, _⟩ := hr .rolledBack rfl
    cases ht

end Sample

end Veloxide.WorkspaceSwap
