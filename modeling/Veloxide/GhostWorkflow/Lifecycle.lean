import Veloxide.Library.Keyspace
import Veloxide.Types.Workflow

namespace Veloxide.GhostWorkflow

open OrderedStore Unsigned List

inductive RegistrationStatus
  | active
  | deactivated
  | quarantined
  | deleted
deriving DecidableEq

inductive GhostWorkflowError
  | invalidTransition (workflow : String) (current next : RegistrationStatus)
  | reaperNotDeactivated (workflow : String) (status : RegistrationStatus)
deriving DecidableEq

structure WorkflowReaped where
  workflow : WorkflowName
  versionHash : BinaryHash
deriving DecidableEq

structure WorkflowRegistration where
  name : WorkflowName
  versionHash : BinaryHash
  status : RegistrationStatus
  registeredAt : TimestampMs
  deactivatedAt : Option TimestampMs
  runningInstanceCount : UInt64

variable (reg : WorkflowRegistration)

namespace WorkflowRegistration

def new (name : WorkflowName) (versionHash : BinaryHash) (registeredAt : TimestampMs) : WorkflowRegistration :=
  ⟨name, versionHash, .active, registeredAt, none, 0⟩

def incrementInstances : WorkflowRegistration :=
  { reg with runningInstanceCount := saturatingAdd reg.runningInstanceCount 1 }

def decrementInstances : WorkflowRegistration :=
  { reg with runningInstanceCount := saturatingSub reg.runningInstanceCount 1 }

def isReapable : Bool := reg.status = .deactivated && reg.runningInstanceCount = 0

def transitionToDeleted : Except GhostWorkflowError WorkflowReaped × WorkflowRegistration :=
  match reg.status with
  | .deactivated =>
    if reg.runningInstanceCount = 0 then
      (.ok ⟨reg.name, reg.versionHash⟩, { reg with status := .deleted })
    else (.error (.reaperNotDeactivated reg.name.value .deactivated), reg)
  | current => (.error (.invalidTransition reg.name.value current .deleted), reg)

def reaped : WorkflowReaped := ⟨reg.name, reg.versionHash⟩

def swept : WorkflowRegistration :=
  if reg.isReapable then { reg with status := .deleted } else reg

theorem isReapable_iff {reg : WorkflowRegistration} : reg.isReapable = true ↔
    reg.status = .deactivated ∧ reg.runningInstanceCount = 0 := by
  rw [isReapable, Bool.and_eq_true, decide_eq_true_eq, decide_eq_true_eq]

theorem transitionToDeleted_of_isReapable {reg : WorkflowRegistration}
    (hr : reg.isReapable = true) :
    reg.transitionToDeleted = (.ok reg.reaped, reg.swept) := by
  obtain ⟨hd, zero⟩ := isReapable_iff.mp hr
  rw [swept, if_pos hr, transitionToDeleted, hd]
  exact if_pos zero

@[simp] theorem name_swept : reg.swept.name = reg.name := by
  rw [swept]
  split
  · rfl
  · rfl

@[simp] theorem runningInstanceCount_swept :
    reg.swept.runningInstanceCount = reg.runningInstanceCount := by
  rw [swept]
  split
  · rfl
  · rfl

theorem ne_deleted_of_swept {reg : WorkflowRegistration} (ha : reg.swept.status ≠ .deleted) :
    reg.status ≠ .deleted := by
  rw [swept] at ha
  split at ha
  · contradiction
  · exact ha

end WorkflowRegistration

abbrev GhostLifecycle := Store String WorkflowRegistration

namespace GhostLifecycle

variable (lifecycle : GhostLifecycle)

def register (reg : WorkflowRegistration) : GhostLifecycle :=
  lifecycle.insert reg.name.value reg

def deactivate (name : WorkflowName) (deactivatedAt : TimestampMs) : Except GhostWorkflowError Unit × GhostLifecycle :=
  match lifecycle[name.value]? with
  | none => (.error (.invalidTransition name.value .deleted .deactivated), lifecycle)
  | some reg =>
    match reg.status with
    | .active | .quarantined =>
      (.ok (), lifecycle.insert name.value
        { reg with status := .deactivated, deactivatedAt := some deactivatedAt })
    | current => (.error (.invalidTransition name.value current .deactivated), lifecycle)

def instanceStarted (name : WorkflowName) : GhostLifecycle :=
  lifecycle.modify name.value WorkflowRegistration.incrementInstances

def instanceCompleted (name : WorkflowName) : GhostLifecycle :=
  lifecycle.modify name.value WorkflowRegistration.decrementInstances

variable (hash : HashOrder (String × WorkflowRegistration))

def candidates (lifecycle : GhostLifecycle) : List String :=
  ((hash.iterate lifecycle.toList).filter fun entry => entry.2.isReapable).map Prod.fst

def reapName (progress : List WorkflowReaped × GhostLifecycle) (name : String) : List WorkflowReaped × GhostLifecycle :=
  match progress.2[name]? with
  | none => progress
  | some reg =>
    match reg.transitionToDeleted with
    | (.ok event, reg) => (progress.1 ++ [event], progress.2.insert name reg)
    | (.error _, reg) => (progress.1, progress.2.insert name reg)

def reap (lifecycle : GhostLifecycle) : List WorkflowReaped × GhostLifecycle :=
  (lifecycle.candidates hash).foldl reapName ([], lifecycle)

end GhostLifecycle

section

variable {lifecycle : GhostLifecycle}

namespace GhostLifecycle

variable (hash : HashOrder (String × WorkflowRegistration))

theorem mem_candidates (name : String) : name ∈ lifecycle.candidates hash ↔
    ∃ reg, lifecycle[name]? = some reg ∧ reg.isReapable = true := by
  simp only [candidates, mem_map, mem_filter, (hash.perm _).mem_iff, Prod.exists, mem_entries]
  constructor
  · rintro ⟨_, reg, ⟨held, hr⟩, rfl⟩
    exact ⟨reg, held, hr⟩
  · rintro ⟨reg, held, hr⟩
    exact ⟨name, reg, ⟨held, hr⟩, rfl⟩

theorem nodup_candidates : (lifecycle.candidates hash).Nodup := by
  have keys : ((hash.iterate lifecycle.toList).map Prod.fst).Nodup :=
    ((hash.perm _).map Prod.fst).nodup_iff.mpr (nodup_keys lifecycle)
  exact keys.sublist (filter_sublist.map Prod.fst)

variable {progress : List WorkflowReaped × GhostLifecycle} {name : String}

theorem reapName_eq {reg : WorkflowRegistration}
    (held : progress.2[name]? = some reg) (hr : reg.isReapable = true) :
    reapName progress name = (progress.1 ++ [reg.reaped], progress.2.insert name reg.swept) := by
  rw [reapName, held]
  simp only [WorkflowRegistration.transitionToDeleted_of_isReapable hr]

structure Swept (lifecycle : GhostLifecycle) (names : List String)
    (progress : List WorkflowReaped × GhostLifecycle) : Prop where
  mem_events : ∀ event, event ∈ progress.1 ↔
    ∃ name ∈ names, ∃ reg, lifecycle[name]? = some reg ∧ event = reg.reaped
  entries : ∀ name, progress.2[name]? =
    if name ∈ names then lifecycle[name]?.map WorkflowRegistration.swept else lifecycle[name]?

variable {names : List String}

theorem Swept.next (hs : Swept lifecycle names progress) (hf : name ∉ names)
    {reg : WorkflowRegistration} (held : lifecycle[name]? = some reg)
    (hr : reg.isReapable = true) : Swept lifecycle (names ++ [name]) (reapName progress name) := by
  have ht : progress.2[name]? = some reg := by rw [hs.entries, if_neg hf, held]
  rw [reapName_eq ht hr]
  constructor
  · intro event
    rw [mem_append, mem_singleton, hs.mem_events]
    simp only [mem_append, mem_singleton, or_and_right, exists_or, exists_eq_left, held,
      Option.some.injEq, exists_eq_left']
  · intro other
    rw [get_insert]
    simp only [mem_append, mem_singleton]
    by_cases same : name = other
    · rw [if_pos same, if_pos (.inr same.symm), ← same, held]
      rfl
    · rw [if_neg same, hs.entries other]
      simp only [Ne.symm same, or_false]

theorem swept_foldl (hd : names.Nodup)
    (hr : ∀ name ∈ names, ∃ reg, lifecycle[name]? = some reg ∧ reg.isReapable = true) :
    Swept lifecycle names (names.foldl reapName ([], lifecycle)) := by
  induction names using List.reverseRecOn with
  | nil => exact ⟨by simp, by simp⟩
  | append_singleton names name ih =>
    rw [nodup_append] at hd
    have hf : name ∉ names := fun mem => hd.2.2 name mem name mem_cons_self rfl
    obtain ⟨reg, held, hi⟩ := hr name (by simp)
    rw [foldl_append]
    exact (ih hd.1 fun other mem => hr other (mem_append_left _ mem)).next hf held hi

variable (hash : HashOrder (String × WorkflowRegistration))

theorem reap_swept : Swept lifecycle (lifecycle.candidates hash) (lifecycle.reap hash) :=
  swept_foldl (nodup_candidates hash) fun name mem => (mem_candidates hash name).mp mem

theorem mem_reap (event : WorkflowReaped) :
    event ∈ (lifecycle.reap hash).1 ↔ ∃ (name : String) (reg : WorkflowRegistration),
      lifecycle[name]? = some reg ∧ reg.isReapable = true ∧ event = reg.reaped := by
  rw [(reap_swept hash).mem_events]
  constructor
  · rintro ⟨name, mem, reg, held, rfl⟩
    obtain ⟨found, same, hr⟩ := (mem_candidates hash name).mp mem
    cases held.symm.trans same
    exact ⟨name, reg, held, hr, rfl⟩
  · rintro ⟨name, reg, held, hr, rfl⟩
    exact ⟨name, (mem_candidates hash name).mpr ⟨reg, held, hr⟩, reg, held, rfl⟩

theorem get_reap (name : String) : (lifecycle.reap hash).2[name]? = lifecycle[name]?.map WorkflowRegistration.swept := by
  rw [(reap_swept hash).entries]
  split_ifs with mem
  · rfl
  · cases held : lifecycle[name]? with
    | none => rfl
    | some reg =>
      have kept : ¬ reg.isReapable = true :=
        fun hr => mem ((mem_candidates hash name).mpr ⟨reg, held, hr⟩)
      rw [Option.map_some, WorkflowRegistration.swept, if_neg kept]

end GhostLifecycle

end

end Veloxide.GhostWorkflow
