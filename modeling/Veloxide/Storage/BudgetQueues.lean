import Veloxide.Library.Bytes
import Veloxide.Library.Execution

/-! The append queues: a queue for each class of writes, with a budget of bytes for each. -/

namespace Veloxide.AppendQueue

open Unsigned Machine List Function

inductive WriteClass
  | criticalControlPlane
  | operatorProjection
  | bulkBlob
  deriving DecidableEq

def perClass {α : Type} (critical projection blob : α) : WriteClass → α
  | .criticalControlPlane => critical
  | .operatorProjection => projection
  | .bulkBlob => blob

structure BudgetError where
  kind : WriteClass
  requested : UInt64
  available : UInt64

structure WriteBudget where
  limit : WriteClass → UInt64
  used : WriteClass → UInt64

namespace WriteBudget

def new (criticalLimit projectionLimit blobLimit : UInt64) : WriteBudget :=
  ⟨perClass criticalLimit projectionLimit blobLimit, perClass 0 0 0⟩

variable (budget : WriteBudget)

def remaining (kind : WriteClass) : UInt64 := saturatingSub (budget.limit kind) (budget.used kind)

def canWrite (kind : WriteClass) (sizeBytes : UInt64) : Bool := budget.remaining kind ≥ sizeBytes

def charge (kind : WriteClass) (sizeBytes : UInt64) : WriteBudget :=
  { budget with used := update budget.used kind (budget.used kind + sizeBytes) }

def reserve (kind : WriteClass) (sizeBytes : UInt64) : Except BudgetError WriteBudget :=
  let remaining := budget.remaining kind
  if remaining < sizeBytes then .error ⟨kind, sizeBytes, remaining⟩
  else .ok (budget.charge kind sizeBytes)

def release (kind : WriteClass) (sizeBytes : UInt64) : WriteBudget :=
  { budget with used := update budget.used kind (saturatingSub (budget.used kind) sizeBytes) }

theorem toNat_remaining (kind : WriteClass) :
    (budget.remaining kind).toNat = (budget.limit kind).toNat - (budget.used kind).toNat :=
  toNat_saturatingSub _ _

theorem toNat_used_add {budget : WriteBudget} {kind : WriteClass} {sizeBytes : UInt64}
    (fits : sizeBytes ≤ budget.remaining kind) :
    (budget.used kind + sizeBytes).toNat = (budget.used kind).toNat + sizeBytes.toNat := by
  rw [UInt64.le_iff_toNat_le, toNat_remaining] at fits
  have hl := (budget.limit kind).toNat_lt
  have held := (budget.used kind).toNat_lt
  rw [UInt64.toNat_add, Nat.mod_eq_of_lt (by omega)]

end WriteBudget

structure QueueConfig where
  capacityFor : WriteClass → Nat

def QueueConfig.default : QueueConfig := ⟨perClass 1024 512 256⟩

structure QueueStats where
  depth : WriteClass → Nat
  config : QueueConfig

namespace QueueStats

variable (stats : QueueStats)

def capacity (kind : WriteClass) : Nat := stats.config.capacityFor kind

def remaining (kind : WriteClass) : Nat := stats.capacity kind - stats.depth kind

def isFull (kind : WriteClass) : Bool := stats.depth kind ≥ stats.capacity kind

def increment (kind : WriteClass) : QueueStats := { stats with depth := update stats.depth kind (stats.depth kind + 1) }

def decrement (kind : WriteClass) : QueueStats := { stats with depth := update stats.depth kind (stats.depth kind - 1) }

end QueueStats

inductive BackpressureEvent
  | queueFull (kind : WriteClass) (depth capacity : Nat)
  | queueWritable (kind : WriteClass) (remainingCapacity : Nat)

structure BackpressureSignal where
  full : WriteClass → Bool
  lastEvent : Option BackpressureEvent

namespace BackpressureSignal

def new : BackpressureSignal := ⟨perClass false false false, none⟩

variable (signal : BackpressureSignal)

def setFull (kind : WriteClass) (depth capacity : Nat) : BackpressureSignal :=
  { full := update signal.full kind true
    lastEvent := if signal.full kind then signal.lastEvent else some (.queueFull kind depth capacity) }

def setWritable (kind : WriteClass) (remainingCapacity : Nat) : BackpressureSignal :=
  { full := update signal.full kind false
    lastEvent := if signal.full kind then some (.queueWritable kind remainingCapacity) else signal.lastEvent }

end BackpressureSignal

inductive BudgetQueuesError
  | queueFull (kind : WriteClass) (depth capacity : Nat)
  | budgetExceeded (kind : WriteClass) (itemSize remaining : UInt64)

class ClassifiedWrite (T : Type) where
  writeClass : T → WriteClass
  sizeBytes : T → UInt64

export ClassifiedWrite (writeClass sizeBytes)

structure InnerQueue (T : Type) where
  items : List T
  capacity : Nat

namespace InnerQueue

variable {T : Type}

def new (capacity : Nat) : InnerQueue T := ⟨[], capacity⟩

variable (queue : InnerQueue T)

def isFull : Bool := queue.items.length ≥ queue.capacity

def push (item : T) : Option T × InnerQueue T :=
  if queue.isFull then (some item, queue) else (none, { queue with items := queue.items ++ [item] })

def pop : Option T × InnerQueue T := match queue.items with
  | [] => (none, queue)
  | item :: rest => (some item, { queue with items := rest })

end InnerQueue

structure BudgetQueues (T : Type) where
  stats : QueueStats
  budget : WriteBudget
  backpressure : BackpressureSignal
  queue : WriteClass → InnerQueue T

namespace BudgetQueues

variable {T : Type} (config : QueueConfig)

def newWithBackpressure (budget : WriteBudget) (backpressure : BackpressureSignal) : BudgetQueues T :=
  { stats := ⟨perClass 0 0 0, config⟩
    budget, backpressure
    queue := perClass (.new (config.capacityFor .criticalControlPlane))
      (.new (config.capacityFor .operatorProjection)) (.new (config.capacityFor .bulkBlob)) }

def new (config : QueueConfig) (budget : WriteBudget) : BudgetQueues T :=
  newWithBackpressure config budget BackpressureSignal.new

def items (queues : BudgetQueues T) (kind : WriteClass) : List T := (queues.queue kind).items

variable (queues : BudgetQueues T)

def setQueue (kind : WriteClass) (queue : InnerQueue T) : BudgetQueues T :=
  { queues with queue := update queues.queue kind queue }

section

variable [ClassifiedWrite T]

def tryEnqueue (queues : BudgetQueues T) (item : T) : Except BudgetQueuesError Unit × BudgetQueues T :=
  let kind := writeClass item
  let size := sizeBytes item
  let queue := queues.queue kind
  if !queues.budget.canWrite kind size then
    (.error (.budgetExceeded kind size (queues.budget.remaining kind)), queues)
  else if queue.isFull then
    (.error (.queueFull kind queue.items.length queue.capacity),
      { queues with backpressure := queues.backpressure.setFull kind queue.items.length queue.capacity })
  else
    match queue.push item with
    | (some _, _) =>
      let depth := queues.stats.depth kind
      let capacity := queues.stats.capacity kind
      (.error (.queueFull kind depth capacity),
        { queues with backpressure := queues.backpressure.setFull kind depth capacity })
    | (none, pushed) =>
      match queues.budget.reserve kind size with
      | .error failure => (.error (.budgetExceeded kind size failure.available), queues.setQueue kind pushed.pop.2)
      | .ok budget => (.ok (), { queues.setQueue kind pushed with budget, stats := queues.stats.increment kind })

end

def dequeue (kind : WriteClass) : Option T × BudgetQueues T := match (queues.queue kind).pop with
  | (none, _) => (none, queues)
  | (some item, rest) =>
    let stats := queues.stats.decrement kind
    let backpressure := if queues.stats.isFull kind then queues.backpressure.setWritable kind (stats.remaining kind)
      else queues.backpressure
    (some item, { queues.setQueue kind rest with stats, backpressure })

def dequeuePrioritized : Option (WriteClass × T) × BudgetQueues T := match queues.dequeue .criticalControlPlane with
  | (some item, queues) => (some (.criticalControlPlane, item), queues)
  | (none, queues) =>
    match queues.dequeue .operatorProjection with
    | (some item, queues) => (some (.operatorProjection, item), queues)
    | (none, queues) =>
      match queues.dequeue .bulkBlob with
      | (some item, queues) => (some (.bulkBlob, item), queues)
      | (none, queues) => (none, queues)

def waiting : List T := queues.items .criticalControlPlane ++ queues.items .operatorProjection ++ queues.items .bulkBlob

theorem items_setQueue (kind other : WriteClass) (queue : InnerQueue T) :
    (queues.setQueue kind queue).items other = if other = kind then queue.items else queues.items other := by
  unfold items setQueue
  simp only [update_apply]
  split <;> rfl

variable {kind : WriteClass}

theorem dequeue_empty {queues : BudgetQueues T} (he : queues.items kind = []) :
    queues.dequeue kind = (none, queues) := by
  have hp : (queues.queue kind).pop = (none, queues.queue kind) := by
    unfold InnerQueue.pop
    rw [show (queues.queue kind).items = [] from he]
  unfold dequeue
  rw [hp]

theorem dequeue_first {queues : BudgetQueues T} {item : T} {rest : List T} (hf : queues.items kind = item :: rest) :
    ∃ signal, queues.dequeue kind = (some item, { queues.setQueue kind { queues.queue kind with items := rest } with
        stats := queues.stats.decrement kind, backpressure := signal }) := by
  have hp : (queues.queue kind).pop = (some item, { queues.queue kind with items := rest }) := by
    unfold InnerQueue.pop
    rw [show (queues.queue kind).items = item :: rest from hf]
  unfold dequeue
  rw [hp]
  exact ⟨_, rfl⟩

theorem dequeue_reply (kind : WriteClass) : (queues.dequeue kind).1 = (queues.items kind).head? := by
  cases hf : queues.items kind with
  | nil => rw [dequeue_empty hf, head?_nil]
  | cons item rest =>
    obtain ⟨signal, ht⟩ := dequeue_first hf
    rw [ht, head?_cons]

theorem items_dequeue (kind other : WriteClass) :
    (queues.dequeue kind).2.items other = if other = kind then (queues.items kind).tail else queues.items other := by
  cases hf : queues.items kind with
  | nil =>
    rw [dequeue_empty hf]
    split
    · next same => rw [same, hf, tail_nil]
    · rfl
  | cons item rest =>
    obtain ⟨signal, ht⟩ := dequeue_first hf
    rw [ht]
    exact items_setQueue queues kind other _

theorem dequeuePrioritized_cases : (queues.waiting = [] ∧ queues.dequeuePrioritized = (none, queues)) ∨
    ∃ kind item rest, queues.items kind = item :: rest ∧ queues.waiting.head? = some item ∧
      queues.dequeuePrioritized = (some (kind, item), (queues.dequeue kind).2) := by
  have ht {kind : WriteClass} {item : T} {rest : List T} (hf : queues.items kind = item :: rest) :
      queues.dequeue kind = (some item, (queues.dequeue kind).2) := by
    have hr := dequeue_reply queues kind
    rw [hf, head?_cons] at hr
    exact Prod.ext hr rfl
  unfold dequeuePrioritized waiting
  cases critical : queues.items .criticalControlPlane with
  | cons item rest =>
    refine .inr ⟨_, item, rest, critical, rfl, ?_⟩
    rw [ht critical]
  | nil =>
    rw [dequeue_empty critical]
    cases hp : queues.items .operatorProjection with
    | cons item rest =>
      refine .inr ⟨_, item, rest, hp, rfl, ?_⟩
      simp only
      rw [ht hp]
    | nil =>
      simp only
      rw [dequeue_empty hp]
      cases blob : queues.items .bulkBlob with
      | cons item rest =>
        refine .inr ⟨_, item, rest, blob, rfl, ?_⟩
        simp only
        rw [ht blob]
      | nil =>
        simp only
        rw [dequeue_empty blob]
        exact .inl ⟨rfl, rfl⟩

variable (critical : UInt64)

def opened (projection blob : UInt64) (backpressure : BackpressureSignal) : BudgetQueues T :=
  newWithBackpressure config (.new critical projection blob) backpressure

variable (start : BudgetQueues T)

def SameBounds (queues : BudgetQueues T) : Prop :=
  queues.budget.limit = start.budget.limit ∧ ∀ kind, (queues.queue kind).capacity = (start.queue kind).capacity

theorem capacity_setQueue (kind : WriteClass) (list : List T) (other : WriteClass) :
    ((queues.setQueue kind { queues.queue kind with items := list }).queue other).capacity =
      (queues.queue other).capacity := by
  by_cases same : other = kind
  · rw [same]
    simp [setQueue]
  · simp [setQueue, same]

theorem dequeue_sameBounds (kind : WriteClass) : SameBounds queues (queues.dequeue kind).2 := by
  cases hf : queues.items kind with
  | nil =>
    rw [dequeue_empty hf]
    exact ⟨rfl, fun _ => rfl⟩
  | cons item rest =>
    obtain ⟨signal, ht⟩ := dequeue_first hf
    rw [ht]
    exact ⟨rfl, capacity_setQueue queues kind rest⟩

section

variable [ClassifiedWrite T] (item : T)

def Accepts (queues : BudgetQueues T) (item : T) : Prop := sizeBytes item ≤ queues.budget.remaining (writeClass item) ∧
    (queues.items (writeClass item)).length < (queues.queue (writeClass item)).capacity

theorem tryEnqueue_accepted {queues : BudgetQueues T} {item : T} (ha : queues.Accepts item) :
    queues.tryEnqueue item = (.ok (), { queues.setQueue (writeClass item)
          { queues.queue (writeClass item) with items := queues.items (writeClass item) ++ [item] } with
        budget := queues.budget.charge (writeClass item) (sizeBytes item),
        stats := queues.stats.increment (writeClass item) }) := by
  have fits : queues.budget.canWrite (writeClass item) (sizeBytes item) = true := decide_eq_true ha.1
  have room : (queues.queue (writeClass item)).isFull = false := decide_eq_false (Nat.not_le.mpr ha.2)
  have hr : ¬ queues.budget.remaining (writeClass item) < sizeBytes item := UInt64.not_lt.mpr ha.1
  unfold tryEnqueue
  simp only [fits, room, InnerQueue.push, WriteBudget.reserve, hr, Bool.not_true, Bool.false_eq_true, if_false]
  rfl

theorem tryEnqueue_refused {queues : BudgetQueues T} {item : T} (hr : ¬ queues.Accepts item) :
    ∃ err signal, queues.tryEnqueue item = (.error err, { queues with backpressure := signal }) := by
  unfold tryEnqueue
  simp only
  split
  · exact ⟨_, _, rfl⟩
  · rename_i fits
    split
    · exact ⟨_, _, rfl⟩
    · rename_i room
      have ha : queues.Accepts item := by
        rw [Bool.not_eq_true', Bool.not_eq_false, WriteBudget.canWrite, decide_eq_true_eq] at fits
        rw [InnerQueue.isFull, decide_eq_true_eq, Nat.not_le] at room
        exact ⟨fits, room⟩
      exact absurd ha hr

theorem items_tryEnqueue (kind : WriteClass) : ∃ added, (∀ write ∈ added, write = item) ∧
    (queues.tryEnqueue item).2.items kind = queues.items kind ++ added := by
  by_cases ha : queues.Accepts item
  · have hu := items_setQueue queues (writeClass item) kind
      { queues.queue (writeClass item) with items := queues.items (writeClass item) ++ [item] }
    rw [tryEnqueue_accepted ha]
    by_cases same : kind = writeClass item
    · rw [if_pos same] at hu
      exact ⟨[item], fun _ mem => mem_singleton.mp mem, by rw [same] at hu ⊢; exact hu⟩
    · rw [if_neg same] at hu
      exact ⟨[], fun _ mem => absurd mem not_mem_nil, by rw [append_nil]; exact hu⟩
  · obtain ⟨err, signal, hr⟩ := tryEnqueue_refused ha
    rw [hr]
    exact ⟨[], fun _ mem => absurd mem not_mem_nil, (append_nil _).symm⟩

theorem tryEnqueue_ok_iff : (queues.tryEnqueue item).1 = .ok () ↔ queues.Accepts item := by
  by_cases ha : queues.Accepts item
  · rw [tryEnqueue_accepted ha]
    exact iff_of_true rfl ha
  · obtain ⟨err, signal, hr⟩ := tryEnqueue_refused ha
    rw [hr]
    exact iff_of_false (by simp) ha

inductive Call (T : Type)
  | tryEnqueue (item : T)
  | dequeue (kind : WriteClass)
  | dequeuePrioritized

inductive Reply (T : Type)
  | enqueued (result : Except BudgetQueuesError Unit)
  | dequeued (item : Option T)
  | prioritized (item : Option (WriteClass × T))

def step (queues : BudgetQueues T) : Call T → Reply T × BudgetQueues T
  | .tryEnqueue item => ((queues.tryEnqueue item).map .enqueued id)
  | .dequeue kind => ((queues.dequeue kind).map .dequeued id)
  | .dequeuePrioritized => (queues.dequeuePrioritized.map .prioritized id)

def entered (kind : WriteClass) (event : Event (BudgetQueues T) (Call T) (Reply T)) : Option T :=
  match event.call, event.reply with
  | .tryEnqueue item, .enqueued (.ok ()) => if writeClass item = kind then some item else none
  | _, _ => none

def left (kind : WriteClass) (event : Event (BudgetQueues T) (Call T) (Reply T)) : Option T :=
  match event.call, event.reply with
  | .dequeue asked, .dequeued item => if asked = kind then item else none
  | .dequeuePrioritized, .prioritized (some (given, item)) => if given = kind then some item else none
  | _, _ => none

/-- What a call does to one class: nothing, an item put at the end, or the first item taken. -/
inductive Change (kind : WriteClass) (before after : BudgetQueues T) : Option T → Option T → Prop
  | unmoved (items : after.items kind = before.items kind) (depth : after.stats.depth kind = before.stats.depth kind)
      (used : after.budget.used kind = before.budget.used kind) : Change kind before after none none
  | enters (item : T) (items : after.items kind = before.items kind ++ [item])
      (depth : after.stats.depth kind = before.stats.depth kind + 1)
      (used : (after.budget.used kind).toNat = (before.budget.used kind).toNat + (sizeBytes item).toNat) :
      Change kind before after (some item) none
  | leaves (item : T) (items : before.items kind = item :: after.items kind)
      (depth : after.stats.depth kind = before.stats.depth kind - 1)
      (used : after.budget.used kind = before.budget.used kind) : Change kind before after none (some item)

theorem tryEnqueue_change (kind : WriteClass) :
    Change kind queues (queues.tryEnqueue item).2 (entered kind (event step queues (.tryEnqueue item))) none := by
  by_cases ha : queues.Accepts item
  · have hd := tryEnqueue_accepted ha
    by_cases same : writeClass item = kind
    · subst same
      have hm : entered (writeClass item) (event step queues (.tryEnqueue item)) = some item := by
        simp [entered, event, step, hd]
      rw [hm, hd]
      refine .enters item ?_ ?_ ?_
      · simp [items, setQueue]
      · simp [QueueStats.increment]
      · simp only [WriteBudget.charge, update_self]
        exact WriteBudget.toNat_used_add ha.1
    · have hm : entered kind (event step queues (.tryEnqueue item)) = none := by
        simp [entered, event, step, hd, same]
      have ho : kind ≠ writeClass item := Ne.symm same
      rw [hm, hd]
      refine .unmoved ?_ ?_ ?_
      · simp [items, setQueue, ho]
      · simp [QueueStats.increment, ho]
      · simp [WriteBudget.charge, ho]
  · obtain ⟨err, signal, hr⟩ := tryEnqueue_refused ha
    have hm : entered kind (event step queues (.tryEnqueue item)) = none := by
      simp [entered, event, step, hr]
    rw [hm, hr]
    exact .unmoved rfl rfl rfl

variable (asked : WriteClass)

theorem dequeue_change (kind : WriteClass) :
    Change kind queues (queues.dequeue asked).2 none (if asked = kind then (queues.dequeue asked).1 else none) := by
  cases hf : queues.items asked with
  | nil =>
    rw [dequeue_empty hf, ite_self]
    exact .unmoved rfl rfl rfl
  | cons item rest =>
    obtain ⟨signal, ht⟩ := dequeue_first hf
    rw [ht]
    by_cases same : asked = kind
    · subst same
      rw [if_pos rfl]
      refine .leaves item ?_ ?_ rfl
      · simp [items, setQueue] at hf ⊢
        exact hf
      · simp [QueueStats.decrement]
    · have ho : kind ≠ asked := Ne.symm same
      rw [if_neg same]
      refine .unmoved ?_ ?_ rfl
      · simp [items, setQueue, ho]
      · simp [QueueStats.decrement, ho]

variable (call : Call T)

theorem step_change (kind : WriteClass) : Change kind queues (step queues call).2 (entered kind (event step queues call))
    (left kind (event step queues call)) := by
  cases call with
  | tryEnqueue item => exact tryEnqueue_change queues item kind
  | dequeue asked => exact dequeue_change queues asked kind
  | dequeuePrioritized =>
    rcases dequeuePrioritized_cases queues with ⟨_, none⟩ | ⟨asked, item, rest, hf, _, ht⟩
    · have hm : left kind (event step queues .dequeuePrioritized) = Option.none := by
        simp [left, event, step, none]
      simp only [hm, step, none]
      exact .unmoved rfl rfl rfl
    · have hm : left kind (event step queues .dequeuePrioritized) =
          if asked = kind then (queues.dequeue asked).1 else none := by
        simp [left, event, step, ht, dequeue_reply, hf]
      simp only [hm, step, ht]
      exact dequeue_change queues asked kind

theorem step_sameBounds : SameBounds queues (step queues call).2 := by
  cases call with
  | tryEnqueue item =>
    by_cases ha : queues.Accepts item
    · simp only [step, tryEnqueue_accepted ha]
      exact ⟨rfl, capacity_setQueue queues (writeClass item) _⟩
    · obtain ⟨err, signal, hr⟩ := tryEnqueue_refused ha
      simp only [step, hr]
      exact ⟨rfl, fun _ => rfl⟩
  | dequeue kind => exact dequeue_sameBounds queues kind
  | dequeuePrioritized =>
    rcases dequeuePrioritized_cases queues with ⟨_, none⟩ | ⟨kind, item, rest, _, _, ht⟩
    · simp only [step, none]
      exact ⟨rfl, fun _ => rfl⟩
    · simp only [step, ht]
      exact dequeue_sameBounds queues kind

def weight (items : List T) : Nat := (items.map fun item => (sizeBytes item).toNat).sum

theorem weight_append (first second : List T) : weight (first ++ second) = weight first + weight second := by
  simp [weight]

theorem weight_eq_zero {items : List T} : weight items = 0 ↔ ∀ item ∈ items, sizeBytes item = 0 := by
  simp [weight, sum_eq_zero_iff, ← UInt64.toNat_inj]

/-- What has entered a class has left in the same order or is queued, and all of it counts as used. -/
structure Account (kind : WriteClass) (history : List (Event (BudgetQueues T) (Call T) (Reply T)))
    (queues : BudgetQueues T) : Prop where
  order : history.filterMap (entered kind) = history.filterMap (left kind) ++ queues.items kind
  depth : queues.stats.depth kind = (queues.items kind).length
  used : (queues.budget.used kind).toNat = weight (history.filterMap (entered kind))

variable {history : List (Event (BudgetQueues T) (Call T) (Reply T))}

theorem Account.next {kind : WriteClass} {queues : BudgetQueues T} (hc : Account kind history queues)
    (call : Call T) : Account kind (history ++ [event step queues call]) (step queues call).2 := by
  have hm := step_change queues call kind
  have ho := hc.order
  have he := hc.depth
  have used := hc.used
  generalize hr : entered kind (event step queues call) = arrived at hm
  generalize hb : left kind (event step queues call) = departed at hm
  cases hm with
  | unmoved hi hs hf =>
    have ha := filterMap_cons_none (l := []) hr
    have hd := filterMap_cons_none (l := []) hb
    constructor
    · rw [filterMap_append, filterMap_append, ha, hd, hi]
      simpa using ho
    · rw [hs, hi, he]
    · rw [filterMap_append, ha, hf, used]
      simp
  | enters item hi hg more =>
    have ha := filterMap_cons_some (l := []) hr
    have hd := filterMap_cons_none (l := []) hb
    constructor
    · rw [filterMap_append, filterMap_append, ha, hd, hi, ho]
      simp
    · rw [hg, hi, he, length_append, length_singleton]
    · rw [filterMap_append, ha, weight_append, more, used]
      simp [weight]
  | leaves item hi hh hf =>
    have ha := filterMap_cons_none (l := []) hr
    have hd := filterMap_cons_some (l := []) hb
    constructor
    · rw [filterMap_append, filterMap_append, ha, hd, ho, hi]
      simp
    · rw [hh, he, hi, length_cons, Nat.add_sub_cancel]
    · rw [filterMap_append, ha, hf, used]
      simp

def Unused (queues : BudgetQueues T) : Prop :=
  ∀ kind, queues.items kind = [] ∧ queues.stats.depth kind = 0 ∧ queues.budget.used kind = 0

omit [ClassifiedWrite T] in
theorem unused_opened (projection blob : UInt64) (backpressure : BackpressureSignal) :
    (opened config critical projection blob backpressure : BudgetQueues T).Unused := by
  intro kind
  cases kind <;> exact ⟨rfl, rfl, rfl⟩

variable (calls : List (Call T))

theorem account_run {start : BudgetQueues T} (hu : start.Unused) (calls : List (Call T)) (kind : WriteClass) :
    Account kind (trace step start calls) (final step start calls) := by
  refine history_invariant step (fun _ _ => True) (Account kind) _ ?_
    (fun _ _ call ha _ => ha.next call) calls (Guarded.trivial step _ calls)
  obtain ⟨hi, hd, used⟩ := hu kind
  exact ⟨by rw [hi]; rfl, by rw [hi, hd]; rfl, by rw [used]; rfl⟩

theorem sameBounds_run : SameBounds start (final step start calls) := by
  refine final_invariant step (fun _ queues => SameBounds start queues) ⟨rfl, fun _ => rfl⟩ ?_ calls
  intro _ queues call hb
  have kept := step_sameBounds queues call
  exact ⟨kept.1.trans hb.1, fun kind => (kept.2 kind).trans (hb.2 kind)⟩

/-- The budget of a class is the size of what it has queued, which leaves in order. -/
structure Conserves (start : BudgetQueues T) (calls : List (Call T)) : Prop where
  used : ∀ kind, ((final step start calls).budget.used kind).toNat = weight ((final step start calls).items kind)
  depth : ∀ kind, (final step start calls).stats.depth kind = ((final step start calls).items kind).length
  order : ∀ kind, (trace step start calls).filterMap (entered kind) =
    (trace step start calls).filterMap (left kind) ++ (final step start calls).items kind
  drained : ∀ item, (final step start calls).items (writeClass item) = [] →
    (((final step start calls).tryEnqueue item).1 = .ok () ↔ (start.tryEnqueue item).1 = .ok ())

def Weightless (queues : BudgetQueues T) : Call T → Prop
  | .tryEnqueue _ => True
  | .dequeue kind => ∀ item ∈ (queues.items kind).head?, sizeBytes item = 0
  | .dequeuePrioritized => ∀ item ∈ queues.waiting.head?, sizeBytes item = 0

theorem left_dequeue (kind : WriteClass) :
    left kind (event step queues (.dequeue asked)) = if asked = kind then (queues.items asked).head? else none := by
  rw [← dequeue_reply]
  rfl

theorem left_dequeuePrioritized :
    (∃ kind, item ∈ left kind (event step queues .dequeuePrioritized)) ↔ item ∈ queues.waiting.head? := by
  rcases dequeuePrioritized_cases queues with ⟨he, none⟩ | ⟨asked, first, rest, _, head, ht⟩
  · simp [left, event, step, none, he]
  · simp [left, event, step, ht, head]

theorem weightless_iff :
    Weightless queues call ↔ ∀ kind, ∀ item ∈ left kind (event step queues call), sizeBytes item = 0 := by
  cases call with
  | tryEnqueue item => simp [Weightless, left, event, step]
  | dequeue asked =>
    simp only [Weightless, left_dequeue]
    constructor
    · intro hw kind item mem
      split at mem
      · exact hw item mem
      · cases mem
    · intro hw item mem
      apply hw asked item
      rwa [if_pos rfl]
  | dequeuePrioritized =>
    simp only [Weightless, ← left_dequeuePrioritized]
    constructor
    · intro hw kind item mem
      exact hw item ⟨kind, mem⟩
    · intro hw item hl
      obtain ⟨kind, mem⟩ := hl
      exact hw kind item mem

theorem guarded_weightless_iff : Guarded step Weightless start calls ↔
    ∀ kind, ∀ item ∈ (trace step start calls).filterMap (left kind), sizeBytes item = 0 := by
  rw [Guarded.iff_forall_trace]
  constructor
  · intro hw kind item mem
    obtain ⟨here, hi, hl⟩ := mem_filterMap.mp mem
    have hc := (weightless_iff here.before here.call).mp (hw here hi) kind item
    rw [← event_of_mem_trace step hi] at hc
    exact hc hl
  · intro hw here hi
    apply (weightless_iff here.before here.call).mpr
    intro kind item hl
    rw [← event_of_mem_trace step hi] at hl
    exact hw kind item (mem_filterMap.mpr ⟨here, hi, hl⟩)

theorem Account.used_iff {kind : WriteClass} {queues : BudgetQueues T} (ha : Account kind history queues) :
    (queues.budget.used kind).toNat = weight (queues.items kind) ↔
      ∀ item ∈ history.filterMap (left kind), sizeBytes item = 0 := by
  rw [ha.used, ha.order, weight_append, Nat.add_eq_right, weight_eq_zero]

theorem accepts_of_empty {queues : BudgetQueues T} {item : T} (he : queues.items (writeClass item) = [])
    (hu : queues.budget.used (writeClass item) = 0) :
    queues.Accepts item ↔ (sizeBytes item).toNat ≤ (queues.budget.limit (writeClass item)).toNat ∧
      0 < (queues.queue (writeClass item)).capacity := by
  rw [Accepts, he, UInt64.le_iff_toNat_le, WriteBudget.toNat_remaining, hu]
  rfl

theorem conserves_of_weightless {start : BudgetQueues T} (hn : start.Unused) (calls : List (Call T))
    (hw : Guarded step Weightless start calls) : Conserves start calls := by
  have ha := account_run hn calls
  have used (kind : WriteClass) := (ha kind).used_iff.mpr ((guarded_weightless_iff _ _).mp hw kind)
  have hb := sameBounds_run start calls
  refine ⟨used, fun kind => (ha kind).depth, fun kind => (ha kind).order, ?_⟩
  intro item hm
  obtain ⟨hi, _, hu⟩ := hn (writeClass item)
  have he : (final step start calls).budget.used (writeClass item) = 0 := by
    rw [← UInt64.toNat_inj, used, hm]
    rfl
  rw [tryEnqueue_ok_iff, tryEnqueue_ok_iff, accepts_of_empty hm he, accepts_of_empty hi hu, hb.1, hb.2]

/-- The accounts hold exactly when what is handed out has no size: it stays counted in the budget. -/
theorem write_budget_conserved_iff (config : QueueConfig) (critical projection blob : UInt64)
    (backpressure : BackpressureSignal) (calls : List (Call T)) :
    (∀ earlier, earlier <+: calls → Conserves (opened config critical projection blob backpressure) earlier) ↔
      Guarded step Weightless (opened config critical projection blob backpressure) calls := by
  have hu := unused_opened (T := T) config critical projection blob backpressure
  constructor
  · intro hc
    have used := (hc calls (prefix_refl calls)).used
    apply (guarded_weightless_iff _ _).mpr
    intro kind
    exact (account_run hu calls kind).used_iff.mp (used kind)
  · intro hw earlier hi
    obtain ⟨later, rfl⟩ := hi
    rw [Guarded.append_iff] at hw
    exact conserves_of_weightless hu earlier hw.1

end

section Sample

/-- A write that is its class and its size. -/
local instance : ClassifiedWrite (WriteClass × UInt64) := ⟨Prod.fst, Prod.snd⟩

def sampleQueues : BudgetQueues (WriteClass × UInt64) := opened QueueConfig.default 1000 1000 1000 .new

def sampleCalls : List (Call (WriteClass × UInt64)) :=
  [.tryEnqueue (.criticalControlPlane, 500), .dequeue .criticalControlPlane]

/-- Half of the budget is gone after one write has been queued and taken. -/
theorem taken_write_stays_counted : ¬ Conserves sampleQueues sampleCalls ∧
    (final step sampleQueues sampleCalls).items .criticalControlPlane = [] ∧
    (final step sampleQueues sampleCalls).budget.used .criticalControlPlane = 500 ∧
    (sampleQueues.tryEnqueue (.criticalControlPlane, 1000)).1 = .ok () ∧
    ((final step sampleQueues sampleCalls).tryEnqueue (.criticalControlPlane, 1000)).1 =
      .error (.budgetExceeded .criticalControlPlane 1000 500) := by
  refine ⟨?_, by decide +kernel, by decide +kernel, rfl, rfl⟩
  intro hc
  have used := hc.used .criticalControlPlane
  revert used
  decide +kernel

end Sample

end BudgetQueues

end Veloxide.AppendQueue
