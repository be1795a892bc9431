import Veloxide.Library.BinaryHeap
import Veloxide.Scheduler.Job

namespace Veloxide.JobScheduler

open List

structure Job where
  id : JobId
  payload : String
  priority : JobPriority
  maxRetries : UInt32
  backoffMs : UInt64
deriving DecidableEq

structure QueuedJob where
  job : Job
  fireAtMs : UInt64
deriving DecidableEq

namespace QueuedJob

def cmp (left right : QueuedJob) : Ordering := match compare left.job.priority.rank right.job.priority.rank with
  | .eq => compare right.fireAtMs left.fireAtMs
  | .lt => .gt
  | .gt => .lt

/-- The place in the order of delivery: by priority, then by fire time. -/
def key (queued : QueuedJob) : ℕ ×ₗ ℕ := toLex (queued.job.priority.rank, queued.fireAtMs.toNat)

/-- The order in which `due_jobs` sorts. -/
def sortCmp (left right : QueuedJob) : Ordering :=
  (compare left.job.priority.rank right.job.priority.rank).then (compare left.fireAtMs right.fireAtMs)

variable {right : QueuedJob}

theorem isLE_sortCmp {left : QueuedJob} : (left.sortCmp right).isLE = true ↔ left.key ≤ right.key := by
  rw [sortCmp, Ordering.isLE_then_iff_or, Nat.compare_eq_lt, Nat.compare_eq_eq, Std.isLE_compare, key, key,
    Prod.Lex.toLex_le_toLex, UInt64.le_iff_toNat_le]

theorem cmp_eq_sortCmp (left right : QueuedJob) : left.cmp right = right.sortCmp left := by
  rw [cmp, sortCmp, @Std.OrientedCmp.eq_swap Nat compare _ left.job.priority.rank]
  cases compare right.job.priority.rank left.job.priority.rank <;> rfl

theorem isLE_cmp {left : QueuedJob} : (left.cmp right).isLE = true ↔ right.key ≤ left.key := by
  rw [cmp_eq_sortCmp, isLE_sortCmp]

instance : Std.TransCmp cmp where
  eq_swap := by
    intro left right
    rw [cmp_eq_sortCmp, cmp_eq_sortCmp, sortCmp, sortCmp, Ordering.swap_then, ← Std.OrientedCmp.eq_swap, ← Std.OrientedCmp.eq_swap]
  isLE_trans := by
    intro first second third
    simp only [isLE_cmp]
    exact fun above below => below.trans above

def isDue (nowMs : UInt64) (queued : QueuedJob) : Bool := queued.fireAtMs ≤ nowMs

end QueuedJob

namespace PriorityQueue

open QueuedJob

variable (order : HeapOrder cmp) (heap : List QueuedJob) (nowMs : UInt64) (max : UInt32)

def sortJobs (jobs : List QueuedJob) : List QueuedJob := jobs.mergeSort fun left right => (sortCmp left right).isLE

def dueJobs : List QueuedJob := (sortJobs (heap.filter (isDue nowMs))).take max.toNat

/-- The loop of `pop_due_jobs`, a round for every entry; the entries not taken go back into the heap at its end. -/
def popLoop (max : Nat) : (rounds : Nat) → (heap : List QueuedJob) → (results : List Job) →
    (notDue : List QueuedJob) → List Job × List QueuedJob
  | 0, heap, results, notDue => (results, heap ++ notDue)
  | rounds + 1, heap, results, notDue =>
    match order.peek heap with
    | none => (results, heap ++ notDue)
    | some queued =>
      if isDue nowMs queued ∧ results.length < max then
        popLoop max rounds (heap.erase queued) (results ++ [queued.job]) notDue
      else if ¬ isDue nowMs queued then (results, heap.erase queued ++ (notDue ++ [queued]))
      else popLoop max rounds (heap.erase queued) results (notDue ++ [queued])

def popDueJobs : List Job × List QueuedJob := popLoop order nowMs max.toNat heap.length heap [] []

/-- All that is due and no more than `max` is taken, in order, as `due_jobs` lists it but for ties. -/
def Complete (result : List Job × List QueuedJob) : Prop :=
  ∃ popped : List QueuedJob, result.1 = popped.map job ∧ (popped ++ result.2).Perm heap ∧
    popped.length = min max.toNat (heap.countP (isDue nowMs)) ∧
    popped.Pairwise (fun left right => left.key ≤ right.key) ∧
    popped.map key = (dueJobs heap nowMs max).map key

/-- What the loop takes of a heap, and what it leaves there. -/
structure Pops (room : Nat) (popped kept : List QueuedJob) : Prop where
  perm : (popped ++ kept).Perm heap
  due : ∀ queued ∈ popped, isDue nowMs queued
  length : popped.length ≤ room
  sorted : popped.Pairwise fun left right => left.key ≤ right.key
  before : ∀ left ∈ popped, ∀ right ∈ kept, left.key ≤ right.key
  stopped : popped.length = room ∨ kept = [] ∨ ∃ early ∈ kept, ¬ isDue nowMs early ∧ ∀ other ∈ kept, early.key ≤ other.key

variable {order heap nowMs max} (jobs : List QueuedJob)

theorem sortJobs_perm : (sortJobs jobs).Perm jobs := mergeSort_perm _ _

theorem sortJobs_sorted : ((sortJobs jobs).map key).Pairwise (· ≤ ·) := by
  refine pairwise_map.mpr ((pairwise_mergeSort ?_ ?_ jobs).imp isLE_sortCmp.mp)
  · intro first second third
    simp only [isLE_sortCmp]
    exact le_trans
  · intro first second
    simp only [Bool.or_eq_true, isLE_sortCmp]
    exact le_total ..

theorem popLoop_full {max : Nat} (rounds : Nat) {results : List Job} (full : max ≤ results.length)
    (heap notDue : List QueuedJob) : (popLoop order nowMs max rounds heap results notDue).1 = results ∧
      (popLoop order nowMs max rounds heap results notDue).2.Perm (heap ++ notDue) := by
  induction rounds generalizing heap notDue with
  | zero => exact ⟨rfl, .rfl⟩
  | succ rounds ih =>
    rw [popLoop]
    cases top : order.peek heap with
    | none => exact ⟨rfl, .rfl⟩
    | some queued =>
      have hm : (heap.erase queued ++ (notDue ++ [queued])).Perm (heap ++ notDue) := by
        have := (perm_cons_erase (order.mem_of_peek top)).symm.append_right notDue
        refine Perm.trans ?_ this
        rw [← append_assoc]
        exact perm_append_singleton ..
      simp only [Nat.not_lt.mpr full, and_false, if_false]
      split_ifs
      · obtain ⟨same, perm⟩ := ih (heap.erase queued) (notDue ++ [queued])
        exact ⟨same, perm.trans hm⟩
      · exact ⟨rfl, hm⟩

theorem popLoop_pops (order : HeapOrder cmp) (max : Nat) {rounds : Nat} (heap : List QueuedJob) (results : List Job) (he : heap.length ≤ rounds) :
    ∃ popped kept, (popLoop order nowMs max rounds heap results []).1 = results ++ popped.map job ∧
      (popLoop order nowMs max rounds heap results []).2.Perm kept ∧
      Pops heap nowMs (max - results.length) popped kept := by
  induction rounds generalizing heap results with
  | zero =>
    obtain rfl := length_eq_zero_iff.mp (Nat.le_zero.mp he)
    exact ⟨[], [], by simp [popLoop], by simp [popLoop], .rfl, by simp, by simp, .nil, by simp, by simp⟩
  | succ rounds ih =>
    by_cases full : max ≤ results.length
    · obtain ⟨same, perm⟩ := popLoop_full (rounds + 1) full heap []
      refine ⟨[], heap, by simpa using same, by simpa using perm, .rfl, by simp, by simp, .nil, by simp, .inl ?_⟩
      simp [full]
    rw [popLoop]
    cases top : order.peek heap with
    | none =>
      obtain rfl := order.eq_nil_of_peek top
      exact ⟨[], [], by simp, by simp, .rfl, by simp, by simp, .nil, by simp, by simp⟩
    | some queued =>
      have mem := order.mem_of_peek top
      have first : ∀ other ∈ heap, queued.key ≤ other.key := fun other held => isLE_cmp.mp (order.le_of_peek top held)
      dsimp only
      by_cases now : isDue nowMs queued
      · rw [if_pos ⟨now, Nat.not_le.mp full⟩]
        obtain ⟨popped, kept, ht, left, pops⟩ := ih (heap.erase queued) (results ++ [queued.job]) (by
          rw [length_erase_of_mem mem]
          omega)
        have hw : ∀ other ∈ popped ++ kept, queued.key ≤ other.key := fun other held =>
          first other (mem_of_mem_erase (pops.perm.subset held))
        refine ⟨queued :: popped, kept, by simpa using ht, left, ?_, ?_, ?_, ?_, ?_, ?_⟩
        · exact (pops.perm.cons queued).trans (perm_cons_erase mem).symm
        · exact forall_mem_cons.mpr ⟨now, pops.due⟩
        · have := pops.length
          simp at this ⊢
          omega
        · exact pairwise_cons.mpr ⟨fun other held => hw other (mem_append_left _ held), pops.sorted⟩
        · exact forall_mem_cons.mpr ⟨fun other held => hw other (mem_append_right _ held), pops.before⟩
        · refine pops.stopped.imp_left fun all => ?_
          simp at all ⊢
          omega
      · rw [if_neg fun h => now h.1, if_pos now]
        refine ⟨[], heap.erase queued ++ [queued], by simp, by simp, ?_, by simp, by simp, .nil, by simp, .inr (.inr ?_)⟩
        · exact (perm_append_singleton ..).trans (perm_cons_erase mem).symm
        · refine ⟨queued, by simp, now, fun other held => first other ?_⟩
          rcases mem_append.mp held with rest | same
          · exact mem_of_mem_erase rest
          · rwa [mem_singleton.mp same]

section

variable {popped kept : List QueuedJob} (pops : Pops heap nowMs max.toNat popped kept)

include pops

theorem Pops.countP : heap.countP (isDue nowMs) = popped.length + kept.countP (isDue nowMs) := by
  rw [← pops.perm.countP_eq, countP_append, countP_eq_length.mpr pops.due]

theorem Pops.keys_eq (all : popped.length = min max.toNat (heap.countP (isDue nowMs))) :
    popped.map key = (dueJobs heap nowMs max).map key := by
  have perm : (heap.filter (isDue nowMs)).Perm (popped ++ kept.filter (isDue nowMs)) := by
    have := (pops.perm.filter (isDue nowMs)).symm
    rwa [filter_append, filter_eq_self.mpr pops.due] at this
  have keys := (((sortJobs_perm _).trans perm).trans ((sortJobs_perm (kept.filter (isDue nowMs))).symm.append_left
    popped)).map key
  rw [map_append] at keys
  have hb : ∀ left ∈ popped.map key, ∀ right ∈ (sortJobs (kept.filter (isDue nowMs))).map key, left ≤ right := by
    simp only [mem_map, (sortJobs_perm _).mem_iff, mem_filter]
    rintro _ ⟨left, ht, rfl⟩ _ ⟨right, ⟨held, _⟩, rfl⟩
    exact pops.before left ht right held
  have hm := keys.eq_of_pairwise' (sortJobs_sorted _)
    (pairwise_append.mpr ⟨pairwise_map.mpr pops.sorted, sortJobs_sorted _, hb⟩)
  have hc := pops.countP
  have room := pops.length
  rw [dueJobs, map_take, hm, take_append, take_of_length_le (by simpa using room)]
  rw [@countP_eq_length_filter _ _ kept] at hc
  have size := (sortJobs_perm (kept.filter (isDue nowMs))).length_eq
  have none : (sortJobs (kept.filter (isDue nowMs))).length = 0 ∨ max.toNat - (popped.map key).length = 0 := by
    rw [length_map]
    omega
  rcases none with none | none
  · rw [length_eq_zero_iff.mp none, map_nil, take_nil, append_nil]
  · rw [none, take_zero, append_nil]

theorem Pops.length_eq_iff : popped.length = min max.toNat (heap.countP (isDue nowMs)) ↔
    ∀ hb ∈ heap, ¬ isDue nowMs hb → min max.toNat (heap.countP (isDue nowMs)) ≤
      heap.countP fun queued => isDue nowMs queued ∧ queued.key < hb.key := by
  have split := pops.countP
  have ha (hb : QueuedJob) : (heap.countP fun queued => isDue nowMs queued ∧ queued.key < hb.key) =
      (popped.countP fun queued => isDue nowMs queued ∧ queued.key < hb.key) +
        kept.countP fun queued => isDue nowMs queued ∧ queued.key < hb.key := by
    rw [← pops.perm.countP_eq, countP_append]
  constructor
  · intro all hb held late
    have left : hb ∈ kept := by
      rcases mem_append.mp (pops.perm.mem_iff.mpr held) with ht | left
      · exact absurd (pops.due hb ht) late
      · exact left
    rw [ha, ← all, countP_eq_length.mpr]
    · omega
    · intro queued ht
      have now := pops.due queued ht
      refine decide_eq_true ⟨now, lt_of_le_of_ne (pops.before queued ht hb left) fun same => late ?_⟩
      have hi := congrArg (fun key : ℕ ×ₗ ℕ => (ofLex key).2) same
      rwa [isDue, ← UInt64.toNat_inj.mp hi]
  · intro he
    have := pops.length
    rcases pops.stopped with full | rfl | ⟨hb, left, late, first⟩
    · omega
    · simp at split
      omega
    · have := he hb (pops.perm.subset (mem_append_right _ left)) late
      have none : (kept.countP fun queued => isDue nowMs queued ∧ queued.key < hb.key) = 0 := by
        refine countP_eq_zero.mpr fun other held => ?_
        simp [first other held]
      have := @countP_le_length _ (fun queued => isDue nowMs queued ∧ queued.key < hb.key) popped
      have := ha hb
      omega

end

/-- All due jobs are taken exactly when enough of them come before each that is not due. -/
theorem popDueJobs_complete_iff (order : HeapOrder cmp) (heap : List QueuedJob) (nowMs : UInt64) (max : UInt32) :
    Complete heap nowMs max (popDueJobs order heap nowMs max) ↔
      ∀ early ∈ heap, ¬ isDue nowMs early → min max.toNat (heap.countP (isDue nowMs)) ≤
        heap.countP fun queued => isDue nowMs queued ∧ queued.key < early.key := by
  obtain ⟨popped, kept, ht, left, pops⟩ := popLoop_pops order max.toNat heap [] (Nat.le_refl _)
  rw [← Pops.length_eq_iff pops]
  constructor
  · rintro ⟨other, same, _, hl, _⟩
    rw [popDueJobs, ht] at same
    have hs := congrArg List.length same
    simp only [nil_append, length_map] at hs
    rw [hs, hl]
  · intro all
    exact ⟨popped, ht, (left.append_left popped).trans pops.perm, all, pops.sorted, pops.keys_eq all⟩

section Sample

def sampleJob (id : JobId) (priority : JobPriority) (fireAtMs : UInt64) : QueuedJob :=
  ⟨⟨id, "", priority, 0, 0⟩, fireAtMs⟩

/-- A due job behind a job of higher priority that is not due stays in the queue. -/
theorem due_job_not_popped : popDueJobs (.scan cmp) [sampleJob 1 .critical 100, sampleJob 2 .normal 5] 10 1 =
      ([], [sampleJob 2 .normal 5, sampleJob 1 .critical 100]) ∧
    dueJobs [sampleJob 1 .critical 100, sampleJob 2 .normal 5] 10 1 = [sampleJob 2 .normal 5] ∧
    ¬ Complete [sampleJob 1 .critical 100, sampleJob 2 .normal 5] 10 1
      ([], [sampleJob 2 .normal 5, sampleJob 1 .critical 100]) := by
  refine ⟨by decide, by simp [dueJobs, sortJobs, sampleJob, isDue], ?_⟩
  rintro ⟨popped, same, _, hl, _⟩
  rw [nil_eq, map_eq_nil_iff] at same
  rw [same] at hl
  revert hl
  decide

end Sample

end PriorityQueue

end Veloxide.JobScheduler
