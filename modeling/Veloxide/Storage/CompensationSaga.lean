import Veloxide.Library.Execution
import Veloxide.Library.Kahn
import Veloxide.Types.Workflow

namespace Veloxide.CompensationSaga

open List Except

inductive SagaCompensationStatus
  | registered
  | pending
  | inProgress
  | succeeded
  | failed
  | ambiguous
  | timedOut
deriving DecidableEq

structure CompensationEntry where
  effectId : String
  compensationEffectId : Option String
  policy : CompensationPolicy
  status : SagaCompensationStatus
  registeredAt : UInt64
  startedAt : Option UInt64
  completedAt : Option UInt64
  timeoutMs : Option UInt64
  dependencies : List String

inductive CompensationError
  | alreadyRegistered (effectId : String)
  | notFound (effectId : String)
  | terminalState (effectId : String) (status : SagaCompensationStatus)
  | policyViolation (effectId : String) (policy : CompensationPolicy)
  | cycleDetected (effectIds : List String)
deriving DecidableEq

variable (entry : CompensationEntry)

namespace CompensationEntry

def new (effectId : String) (policy : CompensationPolicy) (dependencies : List String) (now : UInt64) :
    CompensationEntry :=
  ⟨effectId, none, policy, .registered, now, none, none, none, dependencies⟩

def isTerminal : Bool := match entry.status with
  | .succeeded => true
  | .failed => true
  | .timedOut => true
  | _ => false

def moved (newStatus : SagaCompensationStatus) (now : UInt64) : CompensationEntry := { entry with
    status := newStatus
    startedAt := if newStatus = .inProgress then some now else entry.startedAt
    completedAt := if newStatus = .succeeded ∨ newStatus = .failed then some now else entry.completedAt }

end CompensationEntry

/-- The registered effects, each once in the order of registration. -/
structure CompensationManifest where
  entries : AList fun _ : String => CompensationEntry
  registrationOrder : List String
  version : UInt64
  distinct : registrationOrder.Nodup
  listed : ∀ effectId, effectId ∈ registrationOrder ↔ effectId ∈ entries

namespace CompensationManifest

section

def empty : CompensationManifest := ⟨∅, [], 0, nodup_nil, by simp⟩

variable (plan : CompensationManifest) (effectId : String)

def get : Option CompensationEntry := plan.entries.lookup effectId

variable (now : UInt64)

def register (policy : CompensationPolicy) (dependencies : List String) (now : UInt64) :
    Except CompensationError CompensationManifest :=
  if present : effectId ∈ plan.entries then .error (.alreadyRegistered effectId)
  else .ok {
    entries := plan.entries.insert effectId (.new effectId policy dependencies now)
    registrationOrder := plan.registrationOrder ++ [effectId]
    version := plan.version + 1
    distinct := by
      simpa using plan.distinct.concat (mt (plan.listed effectId).mp present)
    listed := by simp [plan.listed, or_comm] }

def replace (entry : CompensationEntry) (present : effectId ∈ plan.entries) : CompensationManifest where
  entries := plan.entries.insert effectId entry
  registrationOrder := plan.registrationOrder
  version := plan.version + 1
  distinct := plan.distinct
  listed other := by
    rw [plan.listed, AList.mem_insert]
    exact ⟨.inr, fun mem => mem.elim (fun same => same ▸ present) id⟩

def transitionTo (newStatus : SagaCompensationStatus) (now : UInt64) : Except CompensationError CompensationManifest :=
  match found : plan.get effectId with
  | none => .error (.notFound effectId)
  | some entry =>
    if entry.isTerminal then .error (.terminalState effectId entry.status)
    else .ok (plan.replace effectId (entry.moved newStatus now)
      (AList.lookup_isSome.mp (by rw [get] at found; rw [found]; rfl)))

def isPending : Bool := (plan.get effectId).any fun entry => entry.status = .pending

def canExecute : Bool := match plan.get effectId with
  | none => false
  | some entry => entry.status = .pending &&
      entry.dependencies.all fun dep => ((plan.get dep).map CompensationEntry.isTerminal).getD true

def pendingEffects : List String := plan.registrationOrder.filter plan.isPending

def dependenciesOf : List String := ((plan.get effectId).map CompensationEntry.dependencies).getD []

def dependents : List String := plan.pendingEffects.flatMap fun other =>
    ((plan.dependenciesOf other).filter (· = effectId)).map fun _ => other

def emitEffect (emitted : List String) (effectId : String) : List String :=
  if (plan.dependents effectId).all (· ∈ emitted) then emitted ++ [effectId] else emitted

def getReverseDependencyOrder : Except CompensationError (List String) := if plan.pendingEffects = [] then .ok []
  else
    let result := plan.pendingEffects.reverse.foldl plan.emitEffect []
    if result.length ≠ plan.pendingEffects.length then
      .error (.cycleDetected (plan.pendingEffects.filter (· ∉ result)))
    else .ok result

def queuePending : Except CompensationError CompensationManifest := match plan.get effectId with
  | none => .error (.notFound effectId)
  | some entry =>
    if entry.policy = .none then .error (.policyViolation effectId entry.policy)
    else plan.transitionTo effectId .pending now

def startCompensation : Except CompensationError CompensationManifest := if !plan.canExecute effectId then
    .error (.policyViolation effectId (((plan.get effectId).map CompensationEntry.policy).getD .none))
  else plan.transitionTo effectId .inProgress now

def succeed : Except CompensationError CompensationManifest := plan.transitionTo effectId .succeeded now

variable (clock : String → UInt64 × UInt64)

def executeOne (effectId : String) : Except CompensationError CompensationManifest := do
  let started ← plan.startCompensation effectId (clock effectId).1
  started.succeed effectId (clock effectId).2

def executeAll (order : List String) : Except CompensationError CompensationManifest :=
  order.foldlM (fun plan effectId => plan.executeOne clock effectId) plan

def isTerminal (effectId : String) : Bool := (plan.get effectId).any CompensationEntry.isTerminal

end

section

variable {plan after : CompensationManifest} {effectId : String} {now : UInt64}

theorem get_replace (hp : effectId ∈ plan.entries) (other : String) :
    (plan.replace effectId entry hp).get other = if other = effectId then some entry else plan.get other := by
  rw [get, replace]
  split_ifs with same
  · subst same
    exact AList.lookup_insert _
  · exact AList.lookup_insert_ne same

variable {newStatus : SagaCompensationStatus}

theorem transitionTo_eq_ok : plan.transitionTo effectId newStatus now = .ok after →
    ∃ entry, plan.get effectId = some entry ∧ entry.isTerminal = false ∧ ∀ other, after.get other =
        if other = effectId then some (entry.moved newStatus now) else plan.get other := by
  intro hm
  rw [transitionTo] at hm
  split at hm
  · cases hm
  · rename_i entry hf
    split_ifs at hm with terminal
    cases hm
    exact ⟨entry, hf, Bool.eq_false_of_not_eq_true terminal, get_replace _ _⟩

theorem exists_transitionTo {entry : CompensationEntry}
    (hf : plan.get effectId = some entry) (ha : entry.isTerminal = false) :
    ∃ after, plan.transitionTo effectId newStatus now = .ok after := by
  rw [transitionTo]
  split
  · rename_i hb
    rw [hf] at hb
    cases hb
  · rename_i other hp
    rw [hf] at hp
    cases hp
    rw [ha]
    exact ⟨_, rfl⟩

theorem canExecute_iff : plan.canExecute effectId = true ↔ plan.isPending effectId = true ∧
    ∀ dep ∈ plan.dependenciesOf effectId, ∀ entry, plan.get dep = some entry → entry.isTerminal = true := by
  have hs : ∀ dep, ((plan.get dep).map CompensationEntry.isTerminal).getD true = true ↔
      ∀ entry, plan.get dep = some entry → entry.isTerminal = true := by
    intro dep
    cases plan.get dep with
    | none | some entry => simp
  rw [canExecute, isPending, dependenciesOf]
  cases plan.get effectId with
  | none => simp
  | some entry => simp [hs]

theorem isPending_iff : plan.isPending effectId = true ↔
    ∃ entry, plan.get effectId = some entry ∧ entry.status = .pending := by
  rw [isPending]
  cases plan.get effectId with
  | none | some entry => simp

theorem isTerminal_iff : plan.isTerminal effectId = true ↔
    ∃ entry, plan.get effectId = some entry ∧ entry.isTerminal = true := by
  rw [isTerminal]
  cases plan.get effectId with
  | none | some entry => simp

theorem executeOne_eq_ok {clock : String → UInt64 × UInt64} (he : plan.executeOne clock effectId = .ok after) :
    plan.canExecute effectId = true ∧ after.isTerminal effectId = true ∧
      ∀ other, other ≠ effectId → after.get other = plan.get other := by
  obtain ⟨started, ht, hs⟩ := bind_eq_ok.mp he
  rw [startCompensation] at ht
  split_ifs at ht with able
  obtain ⟨_, _, _, ha⟩ := transitionTo_eq_ok ht
  obtain ⟨running, _, _, hf⟩ := transitionTo_eq_ok hs
  refine ⟨by simpa using able, ?_, fun other hd => ?_⟩
  · rw [isTerminal, hf, if_pos rfl]
    rfl
  · rw [hf, if_neg hd, ha, if_neg hd]

theorem exists_executeOne (clock : String → UInt64 × UInt64) (able : plan.canExecute effectId = true) :
    ∃ after, plan.executeOne clock effectId = .ok after := by
  obtain ⟨entry, hf, hp⟩ := isPending_iff.mp (canExecute_iff.mp able).1
  have ha : entry.isTerminal = false := by rw [CompensationEntry.isTerminal, hp]
  obtain ⟨started, ht⟩ : ∃ started, plan.startCompensation effectId (clock effectId).1 = .ok started := by
    rw [startCompensation, able]
    exact exists_transitionTo hf ha
  obtain ⟨_, _, _, hb⟩ := transitionTo_eq_ok (by rwa [startCompensation, able] at ht)
  have hr := hb effectId
  rw [if_pos rfl] at hr
  obtain ⟨after, hs⟩ : ∃ after, started.succeed effectId (clock effectId).2 = .ok after := exists_transitionTo hr rfl
  exact ⟨after, bind_eq_ok.mpr ⟨started, ht, hs⟩⟩

end

variable {middle : CompensationManifest}

section

variable {plan : CompensationManifest}

/-- The listed effects are terminal, and no other entry has changed. -/
structure Executed (done : List String) (before after : CompensationManifest) : Prop where
  terminal : ∀ effectId ∈ done, after.isTerminal effectId = true
  same : ∀ effectId, effectId ∉ done → after.get effectId = before.get effectId

variable {clock : String → UInt64 × UInt64} {after : CompensationManifest}

theorem Executed.step {done : List String} {effectId : String} (he : Executed done plan middle)
    (step : middle.executeOne clock effectId = .ok after) : Executed (done ++ [effectId]) plan after := by
  obtain ⟨_, ht, same⟩ := executeOne_eq_ok step
  refine ⟨fun other mem => ?_, fun other ho => ?_⟩
  · by_cases hq : other = effectId
    · rw [hq]
      exact ht
    · have old : other ∈ done := by simpa [hq] using mem
      rw [isTerminal, same other hq]
      exact he.terminal other old
  · simp only [mem_append, mem_singleton, not_or] at ho
    rw [same other ho.2, he.same other ho.1]

theorem executed_of_executeAll {order : List String} (ran : plan.executeAll clock order = .ok after) :
    Executed order plan after := by
  refine Machine.accepted_invariant (fun order after => Executed order plan after) ?_ ?_ order after ran
  · exact ⟨nofun, fun _ _ => rfl⟩
  · exact fun _ _ _ _ he step => he.step step

end

section

variable {plan : CompensationManifest} {effectId : String}

theorem mem_dependents {other : String} : other ∈ plan.dependents effectId ↔
    other ∈ plan.pendingEffects ∧ effectId ∈ plan.dependenciesOf other := by
  simp [dependents]

theorem mem_pendingEffects : effectId ∈ plan.pendingEffects ↔ plan.isPending effectId = true := by
  rw [pendingEffects, mem_filter, and_iff_right_iff_imp]
  intro hp
  obtain ⟨entry, hf, _⟩ := isPending_iff.mp hp
  rw [plan.listed, ← AList.lookup_isSome, ← get, hf]
  rfl

theorem foldl_emitEffect (effects : List String) : (effects.foldl plan.emitEffect []).Sublist effects ∧
    Kahn.Sorted plan.dependents (effects.foldl plan.emitEffect []) := by
  induction effects using List.reverseRecOn with
  | nil => exact ⟨List.Sublist.refl [], fun before node after hs => by simp at hs⟩
  | append_singleton effects last ih =>
    rw [foldl_append, foldl_cons, foldl_nil, emitEffect]
    split_ifs with ready
    · refine ⟨ih.1.append_right [last], ih.2.append_singleton fun other mem => ?_⟩
      simpa using all_eq_true.mp ready other mem
    · exact ⟨ih.1.trans (sublist_append_left effects [last]), ih.2⟩

theorem getReverseDependencyOrder_eq_ok {order : List String}
    (returned : plan.getReverseDependencyOrder = .ok order) :
    order = plan.pendingEffects.reverse ∧ Kahn.Sorted plan.dependents order := by
  simp only [getReverseDependencyOrder] at returned
  split_ifs at returned with empty complete
  · cases returned
    rw [empty]
    exact ⟨rfl, fun before node after hp => by simp at hp⟩
  · cases returned
    obtain ⟨hs, ho⟩ : _ ∧ Kahn.Sorted plan.dependents _ := foldl_emitEffect plan.pendingEffects.reverse
    have full := (not_not.mp complete).trans length_reverse.symm
    exact ⟨hs.eq_of_length full, ho⟩

theorem foldl_emitEffect_of_sorted {effects : List String} (hs : Kahn.Sorted plan.dependents effects) :
    effects.foldl plan.emitEffect [] = effects := by
  induction effects using List.reverseRecOn with
  | nil => rfl
  | append_singleton effects last ih =>
    have hr : (plan.dependents last).all (· ∈ effects) = true :=
      all_eq_true.mpr fun other mem => decide_eq_true (hs effects last [] rfl other mem)
    rw [foldl_append, foldl_cons, foldl_nil, ih hs.of_append, emitEffect, if_pos hr]

theorem getReverseDependencyOrder_of_sorted (hs : Kahn.Sorted plan.dependents plan.pendingEffects.reverse) :
    plan.getReverseDependencyOrder = .ok plan.pendingEffects.reverse := by
  simp only [getReverseDependencyOrder]
  split_ifs with empty incomplete
  · rw [empty]
    rfl
  · rw [foldl_emitEffect_of_sorted hs, length_reverse] at incomplete
    exact absurd rfl incomplete
  · rw [foldl_emitEffect_of_sorted hs]

theorem nodup_pendingEffects : plan.pendingEffects.Nodup := plan.distinct.filter _

def DependenciesSettled (plan : CompensationManifest) : Prop :=
  ∀ effectId, plan.isPending effectId = true → ∀ dep ∈ plan.dependenciesOf effectId,
    ∀ entry, plan.get dep = some entry → entry.isTerminal = true

variable {clock : String → UInt64 × UInt64} {order : List String} {after : CompensationManifest}

theorem canExecute_of_executeAll {before rest : List String}
    (ran : plan.executeAll clock (before ++ effectId :: rest) = .ok after) :
    ∃ middle, plan.executeAll clock before = .ok middle ∧ middle.canExecute effectId = true := by
  rw [executeAll, foldlM_append] at ran
  obtain ⟨middle, hr, ran⟩ := bind_eq_ok.mp ran
  rw [foldlM_cons] at ran
  obtain ⟨next, step, _⟩ := bind_eq_ok.mp ran
  exact ⟨middle, hr, (executeOne_eq_ok step).1⟩

theorem exists_executeAll_from (hs : plan.DependenciesSettled) (done rest : List String)
    (he : Executed done plan middle) (hi : (done ++ rest).Nodup)
    (hp : ∀ effectId ∈ done ++ rest, plan.isPending effectId = true) :
    ∃ after, middle.executeAll clock rest = .ok after := by
  induction rest generalizing done middle with
  | nil => exact ⟨middle, rfl⟩
  | cons effectId rest ih =>
    have hf : effectId ∉ done := fun hb =>
      (nodup_append.mp hi).2.2 effectId hb effectId mem_cons_self rfl
    have same := he.same effectId hf
    have able : middle.canExecute effectId = true := by
      rw [canExecute_iff, isPending, dependenciesOf, same]
      refine ⟨hp effectId (by simp), fun dep hd entry ho => ?_⟩
      by_cases hb : dep ∈ done
      · obtain ⟨_, hr, ht⟩ := isTerminal_iff.mp (he.terminal dep hb)
        rw [ho] at hr
        cases hr
        exact ht
      · rw [he.same dep hb] at ho
        exact hs effectId (hp effectId (by simp)) dep hd entry ho
    obtain ⟨next, step⟩ := exists_executeOne clock able
    have ha : Executed (done ++ [effectId]) plan next := he.step step
    obtain ⟨after, ran⟩ := ih (done ++ [effectId]) ha (by simpa using hi) (by simpa using hp)
    refine ⟨after, ?_⟩
    rw [executeAll, foldlM_cons]
    exact bind_eq_ok.mpr ⟨next, step, ran⟩

variable (returned : plan.getReverseDependencyOrder = .ok order)

include returned

theorem dependenciesSettled_of_executeAll (ran : plan.executeAll clock order = .ok after) :
    plan.DependenciesSettled := by
  obtain ⟨same, hs⟩ := getReverseDependencyOrder_eq_ok returned
  have hi : order.Nodup := by
    rw [same]
    exact nodup_reverse.mpr nodup_pendingEffects
  intro effectId hp dep ha entry hf
  have mem : effectId ∈ order := by
    rw [same, mem_reverse, mem_pendingEffects]
    exact hp
  obtain ⟨before, rest, hb⟩ := append_of_mem mem
  rw [hb] at ran hi
  obtain ⟨middle, hr, able⟩ := canExecute_of_executeAll ran
  have he := executed_of_executeAll hr
  have hc : effectId ∉ before := fun past =>
    (nodup_append.mp hi).2.2 effectId past effectId mem_cons_self rfl
  have ho : dep ∉ before := by
    intro past
    obtain ⟨first, second, rfl⟩ := append_of_mem past
    rw [append_assoc, cons_append] at hb
    have hg := hs first dep _ hb effectId (mem_dependents.mpr ⟨mem_pendingEffects.mpr hp, ha⟩)
    exact hc (mem_append_left _ hg)
  have hd : middle.dependenciesOf effectId = plan.dependenciesOf effectId := by
    rw [dependenciesOf, he.same effectId hc, ← dependenciesOf]
  rw [← hd] at ha
  rw [← he.same dep ho] at hf
  exact (canExecute_iff.mp able).2 dep ha entry hf

theorem exists_executeAll (clock : String → UInt64 × UInt64) (hs : plan.DependenciesSettled) :
    ∃ after, plan.executeAll clock order = .ok after := by
  obtain ⟨same, _⟩ := getReverseDependencyOrder_eq_ok returned
  apply exists_executeAll_from hs [] order ⟨nofun, fun _ _ => rfl⟩
  · rw [same]
    exact nodup_reverse.mpr nodup_pendingEffects
  · intro effectId mem
    rw [nil_append, same, mem_reverse] at mem
    exact mem_pendingEffects.mp mem

end

def PendingDepends (plan : CompensationManifest) (effectId dep : String) : Prop :=
  plan.isPending effectId = true ∧ plan.isPending dep = true ∧ dep ∈ plan.dependenciesOf effectId

variable {plan : CompensationManifest}

theorem acyclic_of_returned {order : List String}
    (returned : plan.getReverseDependencyOrder = .ok order) : Digraph.Acyclic plan.PendingDepends := by
  obtain ⟨same, hs⟩ := getReverseDependencyOrder_eq_ok returned
  have hr : Digraph.Acyclic (Function.swap plan.PendingDepends) := by
    apply Digraph.acyclic_of_acc
    intro dep effectId hd
    have mem : dep ∈ order := by
      rw [same, mem_reverse, mem_pendingEffects]
      exact hd.2.1
    refine Subrelation.accessible (fun {first second} hj => ?_) (Kahn.acc_of_sorted hs dep mem)
    exact mem_dependents.mpr ⟨mem_pendingEffects.mpr hj.1, hj.2.2⟩
  exact hr.swap

def DependenciesFirst (plan : CompensationManifest) : Prop :=
  Kahn.Sorted (fun effectId => (plan.dependenciesOf effectId).filter plan.isPending) plan.pendingEffects

theorem returned_iff : (∃ order, plan.getReverseDependencyOrder = .ok order) ↔ plan.DependenciesFirst := by
  constructor
  · rintro ⟨order, returned⟩
    obtain ⟨same, hs⟩ := getReverseDependencyOrder_eq_ok returned
    subst same
    rw [DependenciesFirst, ← reverse_reverse plan.pendingEffects]
    refine hs.reverse (nodup_reverse.mpr nodup_pendingEffects) fun effectId hl dep mem => ?_
    obtain ⟨hd, hp⟩ := mem_filter.mp mem
    have hr := mem_pendingEffects.mpr hp
    exact ⟨mem_reverse.mpr hr, mem_dependents.mpr ⟨mem_reverse.mp hl, hd⟩⟩
  · intro hf
    refine ⟨_, getReverseDependencyOrder_of_sorted (hf.reverse nodup_pendingEffects ?_)⟩
    intro dep hl effectId mem
    obtain ⟨hr, hd⟩ := mem_dependents.mp mem
    exact ⟨hr, mem_filter.mpr ⟨hd, mem_pendingEffects.mp hl⟩⟩

theorem cycleDetected_iff : (∃ eids, plan.getReverseDependencyOrder = .error (.cycleDetected eids)) ↔
    ¬ ∃ order, plan.getReverseDependencyOrder = .ok order := by
  simp only [getReverseDependencyOrder]
  split_ifs with empty incomplete
  · simp
  · simp
  · simp

theorem cycle_verdict_iff (plan : CompensationManifest) :
    (((∃ effectIds, plan.getReverseDependencyOrder = .error (.cycleDetected effectIds)) ↔
          ¬ Digraph.Acyclic plan.PendingDepends) ∧
        (Digraph.Acyclic plan.PendingDepends → ∃ order, plan.getReverseDependencyOrder = .ok order ∧
          order.Perm plan.pendingEffects ∧ ∀ before dep after, order = before ++ dep :: after →
            ∀ effectId, plan.PendingDepends effectId dep → effectId ∈ before)) ↔
      (Digraph.Acyclic plan.PendingDepends → plan.DependenciesFirst) := by
  constructor
  · intro hv ha
    obtain ⟨order, returned, _⟩ := hv.2 ha
    exact returned_iff.mp ⟨order, returned⟩
  · intro hf
    refine ⟨?_, fun ha => ?_⟩
    · rw [cycleDetected_iff, not_iff_not]
      exact ⟨fun ⟨_, returned⟩ => acyclic_of_returned returned, fun ha => returned_iff.mpr (hf ha)⟩
    · obtain ⟨order, returned⟩ := returned_iff.mpr (hf ha)
      obtain ⟨same, hs⟩ := getReverseDependencyOrder_eq_ok returned
      refine ⟨order, returned, by rw [same]; exact reverse_perm _, ?_⟩
      intro before dep after hp effectId hd
      exact hs before dep after hp effectId
        (mem_dependents.mpr ⟨mem_pendingEffects.mpr hd.1, hd.2.2⟩)

theorem runs_own_order_iff (plan : CompensationManifest) (clock : String → UInt64 × UInt64)
    (order : List String) (returned : plan.getReverseDependencyOrder = .ok order) :
    ((∃ after, plan.executeAll clock order = .ok after ∧
        ∀ effectId ∈ order, after.isTerminal effectId = true) ↔ plan.DependenciesSettled) ∧
      ((∃ after, plan.executeAll clock order = .ok after ∧
          ∀ effectId entry, after.get effectId = some entry → entry.isTerminal = true) ↔
        plan.DependenciesSettled ∧ ∀ effectId entry, plan.get effectId = some entry →
          entry.status ≠ .pending → entry.isTerminal = true) := by
  obtain ⟨same, _⟩ := getReverseDependencyOrder_eq_ok returned
  have hc : ∀ effectId entry, plan.get effectId = some entry → (effectId ∈ order ↔ entry.status = .pending) := by
    intro effectId entry hf
    rw [same, mem_reverse, mem_pendingEffects, isPending, hf]
    simp
  refine ⟨⟨fun hf => ?_, fun hs => ?_⟩, fun hf => ?_, fun hs => ?_⟩
  · obtain ⟨after, ran, _⟩ := hf
    exact dependenciesSettled_of_executeAll returned ran
  · obtain ⟨after, ran⟩ := exists_executeAll returned clock hs
    exact ⟨after, ran, (executed_of_executeAll ran).terminal⟩
  · obtain ⟨after, ran, ht⟩ := hf
    refine ⟨dependenciesSettled_of_executeAll returned ran, fun effectId entry hf idle => ?_⟩
    have ho := mt (hc effectId entry hf).mp idle
    rw [← (executed_of_executeAll ran).same effectId ho] at hf
    exact ht effectId entry hf
  · obtain ⟨after, ran⟩ := exists_executeAll returned clock hs.1
    refine ⟨after, ran, fun effectId entry hf => ?_⟩
    have he := executed_of_executeAll ran
    by_cases mem : effectId ∈ order
    · obtain ⟨_, hp, ht⟩ := isTerminal_iff.mp (he.terminal effectId mem)
      rw [hf] at hp
      cases hp
      exact ht
    · rw [he.same effectId mem] at hf
      exact hs.2 effectId entry hf (mt (hc effectId entry hf).mpr mem)

section Sample

def sampleManifest (status : SagaCompensationStatus) : CompensationManifest := (do
    let first ← empty.register "charge" .automatic [] 1
    let second ← first.register "ship" .automatic ["charge"] 2
    let third ← second.transitionTo "charge" status 3
    third.queuePending "ship" 4).toOption.getD empty

def sampleClock (_ : String) : UInt64 × UInt64 := (5, 6)

/-- The dependent comes first in the order, and is refused because its dependency is not terminal. -/
theorem own_order_refused : Digraph.Acyclic (sampleManifest .pending).PendingDepends ∧
    (sampleManifest .pending).getReverseDependencyOrder = .ok ["ship", "charge"] ∧
    (sampleManifest .pending).executeAll sampleClock ["ship", "charge"] =
      .error (.policyViolation "ship" .automatic) := by
  have returned : (sampleManifest .pending).getReverseDependencyOrder = .ok ["ship", "charge"] := by decide +kernel
  exact ⟨acyclic_of_returned returned, returned, rfl⟩

theorem runs_own_order_iff_settled : (sampleManifest .succeeded).getReverseDependencyOrder = .ok ["ship"] ∧
    (∃ after, (sampleManifest .succeeded).executeAll sampleClock ["ship"] = .ok after ∧
      ∀ effectId ∈ ["ship"], after.isTerminal effectId = true) ∧
    (sampleManifest .succeeded).DependenciesSettled := by
  have returned : (sampleManifest .succeeded).getReverseDependencyOrder = .ok ["ship"] := by decide +kernel
  have ran : ∃ after, (sampleManifest .succeeded).executeAll sampleClock ["ship"] = .ok after ∧
      ∀ effectId ∈ ["ship"], after.isTerminal effectId = true :=
    ⟨_, rfl, fun effectId mem => by rw [mem_singleton.mp mem]; rfl⟩
  exact ⟨returned, ran, (runs_own_order_iff _ sampleClock _ returned).1.mp ran⟩

def crossedManifest : CompensationManifest := (do
    let first ← empty.register "ship" .automatic ["charge"] 1
    let second ← first.register "charge" .automatic [] 2
    let third ← second.queuePending "ship" 3
    third.queuePending "charge" 4).toOption.getD empty

/-- The dependency is met first in the pass, before its dependent, and is reported as a cycle. -/
theorem false_cycle : Digraph.Acyclic crossedManifest.PendingDepends ∧
    crossedManifest.getReverseDependencyOrder = .error (.cycleDetected ["charge"]) := by
  have hp : crossedManifest.pendingEffects = ["ship", "charge"] := by decide +kernel
  have ha : crossedManifest.dependenciesOf "ship" = ["charge"] := by decide +kernel
  have ho : crossedManifest.dependenciesOf "charge" = [] := by decide +kernel
  have only : ∀ effectId dep, crossedManifest.PendingDepends effectId dep → effectId = "ship" ∧ dep = "charge" := by
    intro effectId dep he
    have mem := mem_pendingEffects.mpr he.1
    have hd := he.2.2
    rw [hp, mem_pair] at mem
    rcases mem with rfl | rfl
    · rw [ha, mem_singleton] at hd
      exact ⟨rfl, hd⟩
    · rw [ho] at hd
      cases hd
  refine ⟨fun effectId hc => ?_, by decide +kernel⟩
  obtain ⟨_, hf, _⟩ := Relation.TransGen.head'_iff.mp hc
  obtain ⟨_, _, last⟩ := Relation.TransGen.tail'_iff.mp hc
  have hl := (only _ _ hf).1.symm.trans (only _ _ last).2
  revert hl
  decide

end Sample

end CompensationManifest

end Veloxide.CompensationSaga
