import Veloxide.GhostWorkflow.Store
import Veloxide.Library.Execution
import Veloxide.Library.JsonText

namespace Veloxide.GhostWorkflow

open ByteCodec OrderedStore Unsigned Machine List

/-- Where the loop of `spawn_reaper` is; an event is read, and its binary removed, before the deletion. -/
inductive Reaper
  | idle
  | sweeping (events : List WorkflowReaped)
  | removing (event : WorkflowReaped) (rest : List WorkflowReaped)

def Reaper.pending : Reaper → List WorkflowReaped
  | idle => []
  | sweeping events => events
  | removing event rest => event :: rest

def Reaper.Awaits (reaper : Reaper) (name : String) : Prop := ∃ event ∈ reaper.pending, event.workflow.value = name

/-- The shared lifecycle and store with the reaper, and the true number of running instances by name. -/
structure System where
  lifecycle : GhostLifecycle
  store : GhostLifecycleStore
  reaper : Reaper
  running : String → Nat

/-- A call on the lifecycle, a registration put into the store, or the next step of the reaper. -/
inductive Call
  | register (reg : WorkflowRegistration)
  | deactivate (name : WorkflowName) (deactivatedAt : TimestampMs)
  | instanceStarted (name : WorkflowName)
  | instanceCompleted (name : WorkflowName)
  | put (reg : WorkflowRegistration) (failure : Option String)
  | reaper (failure : Option String)

inductive Reply
  | done
  | refused (error : GhostWorkflowError)
  | reaped (events : List WorkflowReaped)
  | deleted (name : WorkflowName)
deriving DecidableEq

namespace System

section

variable [JsonCodec] (hash : HashOrder (String × WorkflowRegistration))

def reaperStep (system : System) (failure : Option String) : Reply × System :=
  match system.reaper with
  | .idle =>
    (.reaped (system.lifecycle.reap hash).1,
      { system with lifecycle := (system.lifecycle.reap hash).2
                    reaper := .sweeping (system.lifecycle.reap hash).1 })
  | .sweeping [] => (.done, { system with reaper := .idle })
  | .sweeping (event :: rest) =>
    match system.store.get failure event.workflow with
    | .ok _ => (.done, { system with reaper := .removing event rest })
    | .error _ => (.done, { system with reaper := .sweeping rest })
  | .removing event rest =>
    match system.store.delete failure event.workflow with
    | (.ok (), store) => (.deleted event.workflow, { system with store := store, reaper := .sweeping rest })
    | (.error _, store) => (.done, { system with store := store, reaper := .sweeping rest })

def step (system : System) : Call → Reply × System
  | .register reg => (.done, { system with lifecycle := system.lifecycle.register reg })
  | .deactivate name deactivatedAt =>
    match system.lifecycle.deactivate name deactivatedAt with
    | (.ok (), lifecycle) => (.done, { system with lifecycle := lifecycle })
    | (.error failure, lifecycle) => (.refused failure, { system with lifecycle := lifecycle })
  | .instanceStarted name =>
    (.done, { system with
      lifecycle := system.lifecycle.instanceStarted name
      running := fun other => if other = name.value then system.running other + 1 else system.running other })
  | .instanceCompleted name =>
    (.done, { system with
      lifecycle := system.lifecycle.instanceCompleted name
      running := fun other => if other = name.value then system.running other - 1 else system.running other })
  | .put reg failure => (.done, { system with store := (system.store.put failure reg).2 })
  | .reaper failure => system.reaperStep hash failure

end

def start (store : GhostLifecycleStore) : System := ⟨∅, store, .idle, fun _ => 0⟩

def Legal (system : System) : Call → Prop
  | .instanceCompleted name => 0 < system.running name.value
  | _ => True

/-- A report names workflows without running instances, and a deletion in the store one that is not active. -/
def Sound (system : System) : Reply → Prop
  | .reaped reports => ∀ report ∈ reports, system.running report.workflow.value = 0
  | .deleted name => ∀ reg ∈ system.lifecycle[name.value]?, reg.status ≠ .active
  | _ => True

instance (system : System) (reply : Reply) : Decidable (system.Sound reply) :=
  match reply with
  | .reaped reports => inferInstanceAs (Decidable (∀ report ∈ reports, system.running report.workflow.value = 0))
  | .deleted name =>
    inferInstanceAs (Decidable (∀ reg ∈ system.lifecycle[name.value]?, reg.status ≠ .active))
  | .done => inferInstanceAs (Decidable True)
  | .refused _ => inferInstanceAs (Decidable True)

/-- A new registration counts what runs and is not active while the old one is about to be deleted. -/
def Careful (system : System) : Call → Prop
  | .register reg =>
    (reg.status ≠ .deleted →
        system.running reg.name.value ≤ reg.runningInstanceCount.toNat) ∧
      (reg.status = .active → ¬ system.reaper.Awaits reg.name.value)
  | .instanceStarted name => ∀ reg, system.lifecycle[name.value]? = some reg →
      reg.status ≠ .deleted →
      system.running name.value < (saturatingAdd reg.runningInstanceCount 1).toNat
  | _ => True

/-- A registration that is not deleted counts at least what runs, and is not active before its deletion. -/
structure Covered (running : String → Nat) (reaper : Reaper) (name : String) (reg : WorkflowRegistration) :
    Prop where
  named : reg.name.value = name
  counted : reg.status ≠ .deleted → running name ≤ reg.runningInstanceCount.toNat
  inactive : reaper.Awaits name → reg.status ≠ .active

def Mirrors (system : System) : Prop :=
  ∀ (name : String) (reg : WorkflowRegistration), system.lifecycle[name]? = some reg →
    Covered system.running system.reaper name reg

variable {system : System}

theorem Mirrors.start (store : GhostLifecycleStore) : (System.start store).Mirrors := by
  intro name reg held
  simp [System.start] at held

theorem Mirrors.register (hm : system.Mirrors) {reg : WorkflowRegistration}
    (hc : system.Careful (.register reg)) :
    Mirrors { system with lifecycle := system.lifecycle.register reg } :=
  forall_insert hm ⟨rfl, hc.1, fun ha hb => hc.2 hb ha⟩

theorem Mirrors.deactivate (hm : system.Mirrors) (name : WorkflowName) (deactivatedAt : TimestampMs) :
    Mirrors { system with lifecycle := (system.lifecycle.deactivate name deactivatedAt).2 } := by
  rw [GhostLifecycle.deactivate]
  split
  · exact hm
  · rename_i reg held
    have hb := hm name.value reg held
    have hf (hl : reg.status ≠ .deleted) : Covered system.running system.reaper name.value
        { reg with status := .deactivated, deactivatedAt := some deactivatedAt } :=
      ⟨hb.named, fun _ => hb.counted hl, fun _ ha => (by cases ha)⟩
    split
    · exact forall_insert hm (hf (by simp [*]))
    · exact forall_insert hm (hf (by simp [*]))
    · exact hm

theorem Mirrors.instanceStarted (hm : system.Mirrors) {name : WorkflowName}
    (hc : system.Careful (.instanceStarted name)) : Mirrors { system with
      lifecycle := system.lifecycle.instanceStarted name
      running := fun other => if other = name.value then system.running other + 1 else system.running other } := by
  intro other reg held
  dsimp only [GhostLifecycle.instanceStarted] at held
  rw [get_modify] at held
  split_ifs at held with same
  · obtain ⟨old, ht, rfl⟩ := Option.map_eq_some_iff.mp held
    subst same
    have hb := hm name.value old ht
    refine ⟨hb.named, fun ha => ?_, hb.inactive⟩
    simp only [if_true]
    exact hc old ht ha
  · have hb := hm other reg held
    refine ⟨hb.named, ?_, hb.inactive⟩
    simp only [Ne.symm same, if_false]
    exact hb.counted

theorem Mirrors.instanceCompleted (hm : system.Mirrors) (name : WorkflowName) : Mirrors { system with
    lifecycle := system.lifecycle.instanceCompleted name
    running := fun other => if other = name.value then system.running other - 1 else system.running other } := by
  intro other reg held
  dsimp only [GhostLifecycle.instanceCompleted] at held
  rw [get_modify] at held
  split_ifs at held with same
  · obtain ⟨old, ht, rfl⟩ := Option.map_eq_some_iff.mp held
    subst same
    have hb := hm name.value old ht
    refine ⟨hb.named, fun ha => ?_, hb.inactive⟩
    have hc := hb.counted ha
    simp only [if_true, WorkflowRegistration.decrementInstances, toNat_saturatingSub, UInt64.toNat_one]
    omega
  · have hb := hm other reg held
    refine ⟨hb.named, ?_, hb.inactive⟩
    simp only [Ne.symm same, if_false]
    exact hb.counted

theorem Mirrors.forget (hm : system.Mirrors) {store : GhostLifecycleStore} {reaper : Reaper}
    (hf : ∀ event ∈ reaper.pending, event ∈ system.reaper.pending) :
    Mirrors { system with store := store, reaper := reaper } := by
  intro name reg held
  have hb := hm name reg held
  refine ⟨hb.named, hb.counted, ?_⟩
  rintro ⟨event, mem, same⟩
  exact hb.inactive ⟨event, hf event mem, same⟩

section

variable (hash : HashOrder (String × WorkflowRegistration))

theorem Mirrors.reap (hm : system.Mirrors) : Mirrors { system with
      lifecycle := (system.lifecycle.reap hash).2
      reaper := .sweeping (system.lifecycle.reap hash).1 } := by
  intro name reg held
  dsimp only at held
  rw [GhostLifecycle.get_reap] at held
  obtain ⟨old, ht, rfl⟩ := Option.map_eq_some_iff.mp held
  have hb := hm name old ht
  refine ⟨?_, ?_, ?_⟩
  · rw [WorkflowRegistration.name_swept]
    exact hb.named
  · rw [WorkflowRegistration.runningInstanceCount_swept]
    exact fun hl => hb.counted (WorkflowRegistration.ne_deleted_of_swept hl)
  · rintro ⟨event, mem, same⟩
    obtain ⟨key, found, hf, hr, rfl⟩ := (GhostLifecycle.mem_reap hash event).mp mem
    have hk : key = name := (hm key found hf).named.symm.trans same
    subst hk
    cases ht.symm.trans hf
    rw [WorkflowRegistration.swept, if_pos hr]
    exact fun ha => (by cases ha)

theorem Mirrors.reported (hm : system.Mirrors) :
    ∀ report ∈ (system.lifecycle.reap hash).1, system.running report.workflow.value = 0 := by
  intro report mem
  obtain ⟨name, reg, held, hr, rfl⟩ := (GhostLifecycle.mem_reap hash report).mp mem
  have hb := hm name reg held
  obtain ⟨hd, zero⟩ := WorkflowRegistration.isReapable_iff.mp hr
  have hc := hb.counted (by rw [hd]; decide)
  rw [zero, UInt64.toNat_zero, ← hb.named] at hc
  exact Nat.le_zero.mp hc

end

section

variable [JsonCodec] (hash : HashOrder (String × WorkflowRegistration))

theorem Mirrors.reaperStep (hm : system.Mirrors) (err : Option String) :
    system.Sound (system.reaperStep hash err).1 ∧ (system.reaperStep hash err).2.Mirrors := by
  rw [System.reaperStep]
  split
  · exact ⟨hm.reported hash, hm.reap hash⟩
  · exact ⟨trivial, hm.forget (by simp [Reaper.pending])⟩
  · rename_i event rest hp
    split
    · exact ⟨trivial, hm.forget fun other mem => (by rw [hp]; exact mem)⟩
    · exact ⟨trivial, hm.forget fun other mem => (by rw [hp]; exact mem_cons_of_mem event mem)⟩
  · rename_i event rest hp
    have hf : ∀ other ∈ (Reaper.sweeping rest).pending, other ∈ system.reaper.pending := by
      rw [hp]
      exact fun other mem => mem_cons_of_mem event mem
    split
    · refine ⟨?_, hm.forget hf⟩
      intro reg held
      exact (hm _ reg held).inactive ⟨event, by rw [hp]; exact mem_cons_self, rfl⟩
    · exact ⟨trivial, hm.forget hf⟩

theorem Mirrors.step (hm : system.Mirrors) {call : Call} (hc : system.Careful call) :
    system.Sound (system.step hash call).1 ∧ (system.step hash call).2.Mirrors := by
  cases call with
  | register reg => exact ⟨trivial, hm.register hc⟩
  | deactivate name deactivatedAt =>
    have kept := hm.deactivate name deactivatedAt
    rw [System.step]
    split
    · rename_i lifecycle ha
      rw [ha] at kept
      exact ⟨trivial, kept⟩
    · rename_i failure lifecycle ha
      rw [ha] at kept
      exact ⟨trivial, kept⟩
  | instanceStarted name => exact ⟨trivial, hm.instanceStarted hc⟩
  | instanceCompleted name => exact ⟨trivial, hm.instanceCompleted name⟩
  | put reg failure => exact ⟨trivial, hm.forget fun _ mem => mem⟩
  | reaper failure => exact hm.reaperStep hash failure

theorem careful_sound (hm : system.Mirrors) {calls : List Call} (hc : Guarded (step hash) Careful system calls) :
    ∀ event ∈ trace (step hash) system calls, event.before.Sound event.reply := by
  induction calls generalizing system with
  | nil => simp [trace]
  | cons call calls ih =>
    obtain ⟨hs, kept⟩ := hm.step hash hc.1
    exact forall_mem_cons.mpr ⟨hs, ih kept hc.2⟩

end

end System

def Call.Quiet : Call → Prop
  | .register _ => False
  | .instanceStarted _ => False
  | _ => True

namespace System

section

variable [JsonCodec] (hash : HashOrder (String × WorkflowRegistration)) {system : System}

def CanFail (system : System) : Prop :=
  ∃ calls : List Call, (∀ call ∈ calls, call.Quiet) ∧ Guarded (step hash) Legal system calls ∧
    ∃ event ∈ trace (step hash) system calls, ¬ event.before.Sound event.reply

theorem CanFail.of_step (call : Call) (hq : call.Quiet) (hl : system.Legal call)
    (hb : CanFail hash (system.step hash call).2) : CanFail hash system := by
  obtain ⟨calls, ha, hc, event, mem, hu⟩ := hb
  exact ⟨call :: calls, forall_mem_cons.mpr ⟨hq, ha⟩, ⟨hl, hc⟩, event,
    mem_cons_of_mem _ mem, hu⟩

theorem CanFail.of_reply (call : Call) (hq : call.Quiet) (hl : system.Legal call)
    (hu : ¬ system.Sound (system.step hash call).1) : CanFail hash system :=
  ⟨[call], forall_mem_singleton.mpr hq, ⟨hl, trivial⟩, event (step hash) system call,
    mem_cons_self, hu⟩

def remaining : Reaper → Nat
  | .idle => 0
  | .sweeping events => 2 * events.length + 1
  | .removing _ rest => 2 * rest.length + 2

theorem reaperStep_busy (busy : system.reaper ≠ .idle) (err : Option String) :
    (system.reaperStep hash err).2.lifecycle = system.lifecycle ∧
      (system.reaperStep hash err).2.running = system.running ∧
      remaining (system.reaperStep hash err).2.reaper < remaining system.reaper := by
  rw [reaperStep]
  split
  · contradiction
  · rename_i hp
    rw [hp]
    exact ⟨rfl, rfl, by simp [remaining]⟩
  · rename_i event rest hp
    rw [hp]
    split
    · exact ⟨rfl, rfl, by simp only [remaining, length_cons]; omega⟩
    · exact ⟨rfl, rfl, by simp only [remaining, length_cons]; omega⟩
  · rename_i event rest hp
    rw [hp]
    split
    · exact ⟨rfl, rfl, by simp only [remaining]; omega⟩
    · exact ⟨rfl, rfl, by simp only [remaining]; omega⟩

theorem CanFail.of_idle (holds : GhostLifecycle → (String → Nat) → Prop)
    (hf : ∀ idle : System, idle.reaper = .idle → holds idle.lifecycle idle.running → CanFail hash idle)
    (here : holds system.lifecycle system.running) : CanFail hash system := by
  induction count : remaining system.reaper using Nat.strong_induction_on generalizing system with
  | _ count ih =>
    by_cases busy : system.reaper = .idle
    · exact hf system busy here
    · obtain ⟨hs, ha, he⟩ := reaperStep_busy hash busy none
      refine CanFail.of_step hash (.reaper none) trivial trivial ?_
      exact ih _ (count ▸ he) (by rwa [System.step, hs, ha]) rfl

variable {name : WorkflowName}

theorem CanFail.of_deactivated (idle : system.reaper = .idle) {reg : WorkflowRegistration}
    (held : system.lifecycle[name.value]? = some reg)
    (hn : reg.name.value = name.value) (hd : reg.status = .deactivated)
    (hu : reg.runningInstanceCount.toNat < system.running name.value) : CanFail hash system := by
  induction counted : reg.runningInstanceCount.toNat generalizing system reg with
  | zero =>
    have hr : reg.isReapable = true := WorkflowRegistration.isReapable_iff.mpr ⟨hd, UInt64.toNat_inj.mp counted⟩
    have he := (GhostLifecycle.mem_reap hash reg.reaped).mpr
      ⟨name.value, reg, held, hr, rfl⟩
    refine CanFail.of_reply hash (.reaper none) trivial trivial ?_
    rw [System.step, reaperStep, idle]
    intro hs
    have none : system.running reg.name.value = 0 := hs reg.reaped he
    rw [hn] at none
    omega
  | succ count ih =>
    refine CanFail.of_step hash (.instanceCompleted name) trivial (Nat.zero_lt_of_lt hu) ?_
    have hf : reg.decrementInstances.runningInstanceCount.toNat = count := by
      simp only [WorkflowRegistration.decrementInstances, toNat_saturatingSub, UInt64.toNat_one]
      omega
    refine @ih _ idle reg.decrementInstances ?_ hn hd ?_ hf
    · simp only [System.step, GhostLifecycle.instanceCompleted, get_modify, if_true, held, Option.map_some]
    · rw [hf]
      simp only [System.step, if_true]
      omega

theorem CanFail.of_uncounted {reg : WorkflowRegistration}
    (held : system.lifecycle[name.value]? = some reg) (hn : reg.name.value = name.value) (ha : reg.status ≠ .deleted)
    (hu : reg.runningInstanceCount.toNat < system.running name.value) : CanFail hash system := by
  refine CanFail.of_idle hash (fun lifecycle running => lifecycle[name.value]? = some reg ∧
    reg.runningInstanceCount.toNat < running name.value) ?_ ⟨held, hu⟩
  rintro idle hp ⟨held, hu⟩
  have hd (hc : idle.lifecycle.deactivate name 0 = (.ok (), idle.lifecycle.insert name.value
      { reg with status := .deactivated, deactivatedAt := some 0 })) : CanFail hash idle := by
    refine CanFail.of_step hash (.deactivate name 0) trivial trivial ?_
    simp only [System.step, hc]
    exact CanFail.of_deactivated hash hp Std.ExtTreeMap.getElem?_insert_self hn rfl hu
  cases status : reg.status with
  | active | quarantined =>
    apply hd
    simp only [GhostLifecycle.deactivate, held, status]
  | deactivated => exact CanFail.of_deactivated hash hp held hn status hu
  | deleted => contradiction

theorem CanFail.of_awaited {reg stored : WorkflowRegistration}
    (held : system.lifecycle[name.value]? = some reg) (hc : reg.status = .active)
    (ha : system.reaper.Awaits name.value) (read : system.store.get none name = .ok stored) :
    CanFail hash system := by
  induction count : remaining system.reaper using Nat.strong_induction_on generalizing system with
  | _ count ih =>
    obtain ⟨event, mem, same⟩ := ha
    have hl (busy : system.reaper ≠ .idle)
        (hb : event ∈ (system.reaperStep hash none).2.reaper.pending)
        (kept : (system.reaperStep hash none).2.store[name.value]? = system.store[name.value]?) :
        CanFail hash system := by
      obtain ⟨hs, _, hf⟩ := reaperStep_busy hash busy none
      refine CanFail.of_step hash (.reaper none) trivial trivial ?_
      exact ih _ (count ▸ hf) (by rwa [System.step, hs]) ⟨event, hb, same⟩
        (GhostLifecycleStore.get_of_eq rfl kept read) rfl
    cases hp : system.reaper with
    | idle =>
      rw [hp] at mem
      cases mem
    | sweeping events =>
      rw [hp] at mem
      cases events with
      | nil => cases mem
      | cons head rest =>
        apply hl (by simp [hp])
        · rw [reaperStep, hp]
          simp only
          split
          · exact mem
          · rename_i failure hr
            rcases mem_cons.mp mem with rfl | inside
            · rw [GhostLifecycleStore.get_of_eq same rfl read] at hr
              cases hr
            · exact inside
        · rw [reaperStep, hp]
          simp only
          split
          · rfl
          · rfl
    | removing head rest =>
      rw [hp] at mem
      by_cases hi : head.workflow.value = name.value
      · refine CanFail.of_reply hash (.reaper none) trivial trivial ?_
        obtain ⟨bytes, ht⟩ := GhostLifecycleStore.exists_of_get read
        simp only [System.step, reaperStep, hp, GhostLifecycleStore.delete, hi, ht]
        intro ho
        exact ho reg (by rw [hi]; exact held) hc
      · have hu := GhostLifecycleStore.get_delete_of_ne system.store none hi
        apply hl (by simp [hp])
        · have inside : event ∈ rest := by
            rcases mem_cons.mp mem with rfl | inside
            · exact absurd same hi
            · exact inside
          rw [reaperStep, hp]
          simp only
          split
          · exact inside
          · exact inside
        · rw [reaperStep, hp]
          simp only
          split
          · rename_i store hn
            rwa [hn] at hu
          · rename_i failure store hn
            rwa [hn] at hu

theorem CanFail.of_register {reg : WorkflowRegistration} (hc : ¬ system.Careful (.register reg)) :
    CanFail hash (system.step hash (.register reg)).2 := by
  have held : (system.step hash (.register reg)).2.lifecycle[reg.name.value]? =
    some reg := Std.ExtTreeMap.getElem?_insert_self
  rcases not_and_or.mp hc with hu | awaited
  · obtain ⟨hl, more⟩ := Classical.not_imp.mp hu
    exact CanFail.of_uncounted hash held rfl hl (Nat.lt_of_not_le more)
  · obtain ⟨ha, hw⟩ := Classical.not_imp.mp awaited
    refine CanFail.of_step hash (.put reg none) trivial trivial ?_
    exact CanFail.of_awaited hash held ha (Classical.not_not.mp hw)
      (GhostLifecycleStore.get_put system.store reg)

theorem CanFail.of_instanceStarted (hm : system.Mirrors) (hc : ¬ system.Careful (.instanceStarted name)) :
    CanFail hash (system.step hash (.instanceStarted name)).2 := by
  simp only [Careful, not_forall, Nat.not_lt] at hc
  obtain ⟨reg, held, ha, full⟩ := hc
  have ho : (system.step hash (.instanceStarted name)).2.lifecycle[name.value]? =
      some reg.incrementInstances := by
    simp only [System.step, GhostLifecycle.instanceStarted, get_modify, if_true, held, Option.map_some]
  refine CanFail.of_uncounted hash ho (hm _ _ held).named ha ?_
  simp only [System.step, if_true]
  exact Nat.lt_succ_of_le full

theorem CanFail.of_careless (hm : system.Mirrors) {call : Call} (hc : ¬ system.Careful call) :
    CanFail hash (system.step hash call).2 := by
  cases call with
  | register reg => exact CanFail.of_register hash hc
  | instanceStarted name => exact CanFail.of_instanceStarted hash hm hc
  | deactivate | instanceCompleted | put | reaper => exact absurd trivial hc

omit [JsonCodec] in
theorem careful_of_quiet {call : Call} (hq : call.Quiet) : system.Careful call := by
  cases call with
  | register | instanceStarted => cases hq
  | deactivate | instanceCompleted | put | reaper => exact trivial

variable {calls : List Call}

theorem guarded_of_quiet (hq : ∀ call ∈ calls, call.Quiet) : Guarded (step hash) Careful system calls := by
  induction calls generalizing system with
  | nil => exact trivial
  | cons call calls ih =>
    exact ⟨careful_of_quiet (hq call mem_cons_self),
      ih fun other mem => hq other (mem_cons_of_mem call mem)⟩

def StaysSound (system : System) (calls : List Call) : Prop :=
  ∀ rest : List Call, (∀ call ∈ rest, call.Quiet) →
    Guarded (step hash) Legal (final (step hash) system calls) rest →
    ∀ event ∈ trace (step hash) system (calls ++ rest), event.before.Sound event.reply

theorem StaysSound.of_careful (hm : system.Mirrors) (hc : Guarded (step hash) Careful system calls) :
    StaysSound hash system calls := by
  intro rest hq _
  apply careful_sound hash hm
  rw [Guarded.append_iff]
  exact ⟨hc, guarded_of_quiet hash hq⟩

theorem careful_of_staysSound (hm : system.Mirrors) (hs : ∀ first, first <+: calls → StaysSound hash system first) :
    Guarded (step hash) Careful system calls := by
  induction calls generalizing system with
  | nil => exact trivial
  | cons call calls ih =>
    have ha : system.Careful call := by
      by_contra hc
      obtain ⟨rest, hq, hl, event, mem, hu⟩ := CanFail.of_careless hash hm hc
      exact hu (hs [call] ⟨calls, rfl⟩ rest hq hl event (mem_cons_of_mem _ mem))
    refine ⟨ha, ih (hm.step hash ha).2 ?_⟩
    rintro first ⟨later, rfl⟩ rest hq hl event mem
    exact hs (call :: first) ⟨later, rfl⟩ rest hq hl event (mem_cons_of_mem _ mem)

/-- The reaper is safe in exactly the careful runs; after another one, quiet calls lead it astray. -/
theorem reaped_safely_iff (store : GhostLifecycleStore) (calls : List Call) :
    (∀ first, first <+: calls → StaysSound hash (start store) first) ↔
      Guarded (step hash) Careful (start store) calls := by
  constructor
  · exact careful_of_staysSound hash (Mirrors.start store)
  · rintro hc first ⟨rest, rfl⟩
    rw [Guarded.append_iff] at hc
    exact .of_careful hash (Mirrors.start store) hc.1

end

section Sample

attribute [local instance] Json.Text.codec

def sampleRegistration : WorkflowRegistration :=
  .new ⟨"billing", by decide +kernel⟩ ⟨"00ff00ff", by decide +kernel⟩ 1000

def registeredAgain : List Call :=
  [.register sampleRegistration, .instanceStarted sampleRegistration.name, .register sampleRegistration,
    .deactivate sampleRegistration.name 2000, .reaper none]

def registeredBetween : List Call :=
  [.register sampleRegistration, .put sampleRegistration none, .deactivate sampleRegistration.name 2000,
    .reaper none, .register sampleRegistration, .reaper none, .reaper none]

theorem reaped_unsafely : (∃ event ∈ trace (step (HashOrder.unchanged _)) (start ∅) registeredAgain,
      event.reply = .reaped [sampleRegistration.reaped] ∧ ¬ event.before.Sound event.reply) ∧
    ∃ event ∈ trace (step (HashOrder.unchanged _)) (start ∅) registeredBetween,
      event.reply = .deleted sampleRegistration.name ∧ ¬ event.before.Sound event.reply := by
  decide +kernel

end Sample

end System

end Veloxide.GhostWorkflow
