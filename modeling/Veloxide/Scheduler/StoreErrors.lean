import Veloxide.Scheduler.JobRuns

namespace Veloxide.JobScheduler

open OrderedStore Relation Stateful Machine List

variable {job : ScheduledJob}

section

variable {S W : Type}

def Scheduler.queued (sched : Scheduler S W) (id : JobId) : Bool := (sched.queue.jobs[id]?).isSome

def SameIds (view after : View S W) : Prop := ∀ id : JobId, (after.jobs[id]?).isSome = (view.jobs[id]?).isSome

theorem SameIds.insert {view : View S W} (held : view.jobs[job.id]? = some job) (moved : ScheduledJob) (store : S)
    (worker : W) : SameIds view ⟨view.jobs.insert job.id moved, store, worker⟩ := by
  intro id
  rw [get_insert]
  by_cases same : job.id = id
  · rw [if_pos same, ← same, held]
    rfl
  · rw [if_neg same]

variable [JobStore S] {first last : Scheduler S W}

theorem SameIds.follows {kind : ScheduledJob → ScheduledJob → Prop} (follows : Follows (Changed kind) first last) :
    SameIds first.view last.view := by
  obtain ⟨_, _, hm⟩ := follows
  generalize last.view = after at hm ⊢
  induction hm with
  | refl => exact fun _ => rfl
  | tail _ step ih =>
    obtain ⟨job, moved, drafts, held, hc, same, hv⟩ := step
    exact fun id => (SameIds.insert held moved _ _ id).trans (ih id)

variable [WorkerDispatch W] {sched : Scheduler S W} {after : View S W} {jobId : JobId}

theorem Turn.sameIds {result : Except DispatchStop Nat} (turn : Turn jobId sched result after)
    (kept : ∀ err, stopOf result ≠ some (.notPersisted err)) : SameIds sched.view after := by
  cases turn with
  | skipped idle => exact fun _ => rfl
  | dispatched job held hp same step =>
    cases step with
    | handed time worker ha => exact .insert (show sched.view.jobs[job.id]? = some job from held) _ _ _
    | refused time later worker err hr =>
      exact .insert (show sched.view.jobs[job.id]? = some job from held) _ _ _
    | lost time drafts worker err hs hb => exact absurd rfl (kept err)

variable {err : SchedulerError}

theorem Turn.lost (turn : Turn jobId sched (.error (.notPersisted err)) after) :
    sched.queued jobId = true ∧ (after.jobs[jobId]?).isSome = false := by
  cases turn with
  | dispatched job held hp same step =>
    cases step with
    | lost time drafts worker err hs ha =>
      subst same
      rw [SchedulerQueue.Holds] at held
      refine ⟨by rw [Scheduler.queued, held]; rfl, ?_⟩
      rw [get_erase, if_pos rfl]
      rfl

variable {jobIds : List JobId}

theorem Turns.sameIds {stop : Option DispatchStop} (ht : Turns jobIds first stop last)
    (kept : ∀ err, stop ≠ some (.notPersisted err)) : SameIds first.view last.view := by
  induction ht with
  | done sched => exact fun _ => rfl
  | next turn hy rest ih =>
    have here := turn.sameIds (by simp [stopOf])
    rw [← hy.view] at here
    exact fun id => (ih kept id).trans (here id)
  | stopped turn hy =>
    rw [hy.view]
    exact turn.sameIds kept

theorem Turns.lost (ht : Turns jobIds first (some (.notPersisted err)) last) :
    ∃ id, first.queued id = true ∧ last.queued id = false := by
  generalize same : some (DispatchStop.notPersisted err) = stop at ht
  induction ht with
  | done sched => cases same
  | next turn hy rest ih =>
    obtain ⟨id, hb, after⟩ := ih same
    have here := turn.sameIds (by simp [stopOf]) id
    rw [← hy.view] at here
    exact ⟨id, here.symm.trans hb, after⟩
  | stopped turn hy =>
    cases same
    obtain ⟨hb, after⟩ := turn.lost
    rw [← hy.view] at after
    exact ⟨_, hb, after⟩

end

section

variable {S W : Type}

abbrev SchedulerEvent (S W : Type) := Event (Scheduler S W) SchedulerCall SchedulerReply

def Acknowledged (events : List (SchedulerEvent S W)) (id : JobId) : Prop :=
  ∃ event ∈ events, event.reply = .submitted (.ok id)

/-- A call keeps the jobs that were acknowledged before, and does not touch the queue if it refuses a job. -/
structure Faithful (earlier : List (SchedulerEvent S W)) (here : SchedulerEvent S W) : Prop where
  kept : ∀ id, Acknowledged earlier id → here.after.queued id = true
  unchanged : ∀ failure, here.reply = .submitted (.error failure) → here.after.queue = here.before.queue

def NoneLost (events : List (SchedulerEvent S W)) : Prop :=
  ∀ earlier here later, events = earlier ++ here :: later → Faithful earlier here

theorem noneLost_append_singleton (events : List (SchedulerEvent S W)) (last : SchedulerEvent S W) :
    NoneLost (events ++ [last]) ↔ NoneLost events ∧ Faithful events last := by
  constructor
  · intro none
    refine ⟨fun past here later hp => none past here (later ++ [last]) (by rw [hp]; simp), ?_⟩
    exact none events last [] rfl
  · rintro ⟨none, hf⟩ past here later hp
    rcases eq_nil_or_concat later with rfl | ⟨later, final, rfl⟩
    · obtain ⟨rfl, hs⟩ := append_inj' hp rfl
      cases hs
      exact hf
    · rw [concat_eq_append, ← cons_append, ← append_assoc] at hp
      exact none past here later (append_inj' hp rfl).1

def Matching (events : List (SchedulerEvent S W)) (sched : Scheduler S W) : Prop :=
  ∀ id, Acknowledged events id ↔ sched.queued id = true

theorem acknowledged_append_singleton (events : List (SchedulerEvent S W)) (last : SchedulerEvent S W) (id : JobId) :
    Acknowledged (events ++ [last]) id ↔ Acknowledged events id ∨ last.reply = .submitted (.ok id) := by
  simp only [Acknowledged, mem_append, mem_singleton, or_and_right, exists_or, exists_eq_left]

section

variable {events : List (SchedulerEvent S W)} {here : SchedulerEvent S W}

theorem Matching.quiet (hm : Matching events here.before) (quiet : ∀ id, here.reply ≠ .submitted (.ok id))
    (same : SameIds here.before.view here.after.view) : Matching (events ++ [here]) here.after := by
  intro id
  rw [acknowledged_append_singleton, hm id]
  refine ⟨fun hf => (same id).trans (hf.resolve_right (quiet id)), fun hf => .inl ((same id).symm.trans hf)⟩

theorem Faithful.quiet (hm : Matching events here.before) (quiet : ∀ result, here.reply ≠ .submitted result)
    (same : SameIds here.before.view here.after.view) : Faithful events here :=
  ⟨fun id hf => (same id).trans ((hm id).mp hf), fun err hr => absurd hr (quiet (.error err))⟩

end

section

variable {sched : Scheduler S W}

def Kept (result : Except DispatchStop Nat) : Prop := ∀ err, stopOf result ≠ some (.notPersisted err)

theorem insertJob_kept (job : ScheduledJob) (next : Stateful (Scheduler S W) DispatchStop Nat)
    (kept : ∀ here, Kept (next.run here).1) :
    Kept ((mapError .notInserted (insertJob job) >>= fun _ => next).run sched).1 := by
  rcases ran : (insertJob job).run sched with ⟨err | _, after⟩
  · rw [bind_error (mapError_error ran)]
    simp [Kept, stopOf]
  · rw [bind_ok (mapError_ok ran)]
    exact kept after

theorem persist_kept_iff [JobStore S] (job : ScheduledJob) (next : Stateful (Scheduler S W) DispatchStop Nat) :
    Kept ((mapError .notPersisted (persist job) >>= fun _ => next).run sched).1 ↔
      (JobStore.persist sched.store job).1 = .ok () ∧
        Kept (next.run { sched with store := (JobStore.persist sched.store job).2 }).1 := by
  rcases ran : (persist job).run sched with ⟨err | _, after⟩
  · have refused : (JobStore.persist sched.store job).1 = .error err := congrArg Prod.fst ran
    rw [bind_error (mapError_error ran), refused]
    simp [Kept, stopOf]
  · obtain ⟨taken, rfl⟩ := Prod.mk.inj ran
    rw [bind_ok (mapError_ok ran), taken]
    exact (and_iff_right rfl).symm

/-- The store takes the running job and, if the dispatcher refuses that, the job turned back. -/
def TakesDispatch [JobStore S] [WorkerDispatch W] (sched : Scheduler S W) (running : ScheduledJob) (later : DateTime) :
    Prop :=
  (JobStore.persist sched.store running).1 = .ok () ∧
    ((WorkerDispatch.dispatch sched.dispatcher running).1 = .ok () ∨
      (JobStore.persist (JobStore.persist sched.store running).2 (running.withState .pending later)).1 = .ok ())

theorem startJob_kept_iff [JobStore S] [WorkerDispatch W] (clock : Nat → DateTime) (running : ScheduledJob) :
    Kept ((startJob clock running).run sched).1 ↔ TakesDispatch sched running (clock sched.readings) := by
  refine (persist_kept_iff running _).trans (and_congr_right fun _ => ?_)
  let here := { sched with store := (JobStore.persist sched.store running).2 }
  rcases ran : WorkerDispatch.dispatch sched.dispatcher running with ⟨err | _, dispatcher⟩
  · have ran : (dispatch running).run here = (.error err, { here with dispatcher }) := dispatch_run ran
    rw [bind_ok (attempt_run ran)]
    refine (persist_kept_iff _ _).trans ?_
    refine (and_iff_left (insertJob_kept _ _ fun _ => ?_)).trans (or_iff_right nofun).symm
    simp [Kept, stopOf, fail]
  · have ran : (dispatch running).run here = (.ok (), { here with dispatcher }) := dispatch_run ran
    rw [bind_ok (attempt_run ran)]
    refine iff_of_true (insertJob_kept _ _ fun _ => ?_) (.inl rfl)
    simp [Kept, stopOf, pure]

end

variable [JobStore S] [WorkerDispatch W] [Ulid] [TimeArithmetic] (clock : Nat →
  DateTime) (hash : HashOrder (JobId × ScheduledJob))

/-- The store takes the writes of each pending job that the dispatch loop comes to. -/
def TakesJobs (sched : Scheduler S W) : List JobId → Prop
  | [] => True
  | jobId :: jobIds =>
    (∀ job, sched.queue.jobs[jobId]? = some job → job.state = .pending →
        TakesDispatch sched (job.withState .running (clock sched.readings)) (clock (sched.readings + 1))) ∧
      ∀ count next, (dispatchJob clock jobId).run sched = (.ok count, next) → TakesJobs next jobIds

def StoreHolds (sched : Scheduler S W) : SchedulerCall → Prop
  | .submit job => sched.queue.len < sched.capacity → sched.queue.len < sched.queue.capacity →
    (JobStore.persist sched.store job).1 = .ok ()
  | .cancel _ => True
  | .tick _ =>
    let promoted := afterPromotion clock hash sched
    TakesJobs clock promoted ((promoted.queue.listByState hash .pending).map ScheduledJob.id)

section

variable {sched : Scheduler S W}

omit [TimeArithmetic] in
theorem dispatchJob_kept_iff (hw : WellFormed sched) (jobId : JobId) :
    Kept ((dispatchJob clock jobId).run sched).1 ↔
      ∀ job, sched.queue.jobs[jobId]? = some job → job.state = .pending →
        TakesDispatch sched (job.withState .running (clock sched.readings)) (clock (sched.readings + 1)) := by
  cases held : sched.queue.jobs[jobId]? with
  | none =>
    rw [dispatchJob, bind_ok (attempt_run (removeJob_missing held))]
    simp [Kept, stopOf, pure]
  | some job =>
    have same := hw.keyed jobId job held
    subst same
    rw [dispatchJob, bind_ok (attempt_run (removeJob_run held))]
    dsimp only
    rw [bind_ok (utcNow_run clock _)]
    rcases transition_running job (clock sched.readings) with ⟨idle, err, hn⟩ | ⟨pending, hv⟩
    · rw [hn]
      refine iff_of_true ?_ ?_
      · rcases ran : (insertJob job).run _ with ⟨result, last⟩
        rw [bind_ok (attempt_run ran)]
        simp [Kept, stopOf, pure]
      · intro other hf pending
        cases hf
        exact absurd pending idle
    · rw [hv]
      refine (startJob_kept_iff clock _).trans ?_
      simp [TakesDispatch, pending]

omit [TimeArithmetic] in
theorem dispatchJobs_kept_iff (hw : WellFormed sched) (jobIds : List JobId) (dispatched : Nat) :
    Kept ((dispatchJobs clock jobIds dispatched).run sched).1 ↔ TakesJobs clock sched jobIds := by
  induction jobIds generalizing sched dispatched with
  | nil => simp [dispatchJobs, TakesJobs, Kept, stopOf, pure]
  | cons jobId jobIds ih =>
    obtain ⟨result, last, after, ran, hy, _⟩ := dispatchJob_turn clock hw jobId
    rw [dispatchJobs, TakesJobs, ← dispatchJob_kept_iff clock hw jobId, ran]
    rcases result with stop | count
    · rw [bind_error ran]
      simp [Kept, stopOf]
    · rw [bind_ok ran, ih hy.wellFormed]
      simp [Kept, stopOf]

end

section

variable {events : List (SchedulerEvent S W)} {sched : Scheduler S W}

theorem submit_full_faithful (hm : Matching events sched) (job : ScheduledJob)
    (full : sched.capacity ≤ sched.queue.len ∨ sched.queue.capacity ≤ sched.queue.len) :
    let here := event (serve clock hash) sched (.submit job)
    Faithful events here ∧ Matching (events ++ [here]) here.after := by
  intro here
  have same : here = ⟨sched, .submit job, .submitted (.error .queueFull), sched⟩ := by
    simp only [here, event, serve, submit_full job full]
  rw [same]
  refine ⟨⟨fun id hf => (hm id).mp hf, fun _ _ => rfl⟩, Matching.quiet hm ?_ fun _ => rfl⟩
  intro id hf
  cases hf

theorem submit_stored_faithful (hm : Matching events sched)
    (ha : sched.queue.len < sched.capacity) (room : sched.queue.len < sched.queue.capacity)
    (hw : (JobStore.persist sched.store job).1 = .ok ()) :
    let here := event (serve clock hash) sched (.submit job)
    Faithful events here ∧ Matching (events ++ [here]) here.after := by
  intro here
  let last := { sched.withJob job with store := (JobStore.persist sched.store job).2 }
  have hp : (persist job).run (sched.withJob job) = (.ok (), last) := Prod.ext hw rfl
  have ran : (submit job).run sched = (.ok job.id, last) := (submit_inserted job ha room).trans (bind_ok hp)
  have same : here = ⟨sched, .submit job, .submitted (.ok job.id), last⟩ := by
    simp only [here, event, serve, ran]
  have hr (id : JobId) : last.queued id = true ↔ sched.queued id = true ∨ job.id = id := by
    simp only [Scheduler.queued, last, Scheduler.withJob, get_insert]
    by_cases he : job.id = id <;> simp [he]
  rw [same]
  refine ⟨⟨fun id hf => (hr id).mpr (.inl ((hm id).mp hf)), ?_⟩, fun id => ?_⟩
  · intro err hf
    cases hf
  · rw [acknowledged_append_singleton, hm id, hr id]
    simp

theorem submit_unstored_unfaithful (ha : sched.queue.len < sched.capacity)
    (room : sched.queue.len < sched.queue.capacity) (hr : (JobStore.persist sched.store job).1 ≠ .ok ()) :
    ¬ Faithful events (event (serve clock hash) sched (.submit job)) := by
  intro hf
  rcases hw : (JobStore.persist sched.store job).1 with err | _
  · let last := { sched.withJob job with store := (JobStore.persist sched.store job).2 }
    have hp : (persist job).run (sched.withJob job) = (.error err, last) := Prod.ext hw rfl
    have ran : (submit job).run sched = (.error err, last) := (submit_inserted job ha room).trans (bind_error hp)
    have same : event (serve clock hash) sched (.submit job) =
        ⟨sched, .submit job, .submitted (.error err), last⟩ := by
      simp only [event, serve, ran]
    rw [same] at hf
    have heap := congrArg SchedulerQueue.heap (hf.unchanged err rfl)
    simp [last, Scheduler.withJob] at heap
  · exact hr hw

theorem submit_faithful_iff (hm : Matching events sched) (job : ScheduledJob) :
    let here := event (serve clock hash) sched (.submit job)
    (Faithful events here ↔ StoreHolds clock hash sched (.submit job)) ∧
      (StoreHolds clock hash sched (.submit job) → Matching (events ++ [here]) here.after) := by
  intro here
  by_cases full : sched.capacity ≤ sched.queue.len ∨ sched.queue.capacity ≤ sched.queue.len
  · obtain ⟨hf, kept⟩ := submit_full_faithful clock hash hm job full
    have hh : StoreHolds clock hash sched (.submit job) := fun ha room =>
      absurd full (not_or.mpr ⟨Nat.not_le.mpr ha, Nat.not_le.mpr room⟩)
    exact ⟨iff_of_true hf hh, fun _ => kept⟩
  · obtain ⟨ha, room⟩ := not_or.mp full
    rw [Nat.not_le] at ha room
    have hs (hh : StoreHolds clock hash sched (.submit job)) :=
      submit_stored_faithful clock hash hm ha room (hh ha room)
    refine ⟨⟨fun hf _ _ => ?_, fun hh => (hs hh).1⟩, fun hh => (hs hh).2⟩
    by_contra hr
    exact submit_unstored_unfaithful clock hash ha room hr hf

theorem tick_faithful_iff (hw : WellFormed sched) (hm : Matching events sched)
    (completions : List (JobId × CompletionResult)) :
    let here := event (serve clock hash) sched (.tick completions)
    (Faithful events here ↔ StoreHolds clock hash sched (.tick completions)) ∧
      (StoreHolds clock hash sched (.tick completions) → Matching (events ++ [here]) here.after) := by
  intro here
  obtain ⟨hp, ⟨dispatched, ht, hc⟩, _⟩ := tick_phases clock hash hw completions
  have kept : StoreHolds clock hash sched (.tick completions) ↔
      ∀ err, tickStop clock hash sched ≠ some (.notPersisted err) :=
    (dispatchJobs_kept_iff clock hp.wellFormed _ 0).symm
  rw [kept]
  have first := SameIds.follows hp
  have last := SameIds.follows hc
  have hq (result : Except SchedulerError JobId) : here.reply ≠ .submitted result := fun ho => by cases ho
  have same (kept : ∀ err, tickStop clock hash sched ≠ some (.notPersisted err)) :
      SameIds here.before.view here.after.view := fun id => (last id).trans ((ht.sameIds kept id).trans (first id))
  refine ⟨⟨fun hf failure hs => ?_, fun kept => .quiet hm hq (same kept)⟩,
    fun kept => Matching.quiet hm (fun id => hq (.ok id)) (same kept)⟩
  rw [hs] at ht
  obtain ⟨id, hb, after⟩ := ht.lost
  have hr := hf.kept id ((hm id).mpr ((first id).symm.trans hb))
  exact Bool.false_ne_true (after.symm.trans ((last id).symm.trans hr))

theorem call_faithful_iff (hw : WellFormed sched) (hm : Matching events sched) (call : SchedulerCall) :
    let here := event (serve clock hash) sched call
    (Faithful events here ↔ StoreHolds clock hash sched call) ∧
      (StoreHolds clock hash sched call → Matching (events ++ [here]) here.after) := by
  cases call with
  | submit job => exact submit_faithful_iff clock hash hm job
  | tick completions => exact tick_faithful_iff clock hash hw hm completions
  | cancel jobId =>
    have same := SameIds.follows (cancel_leads clock jobId sched hw)
    exact ⟨iff_of_true (.quiet hm (fun _ hf => by cases hf) same) trivial,
      fun _ => .quiet hm (fun _ hf => by cases hf) same⟩

end

theorem no_job_lost_iff (capacity : Nat) (store : S) (dispatcher : W) (calls : List SchedulerCall) :
    NoneLost (trace (serve clock hash) (.new capacity store dispatcher) calls) ↔
      Guarded (serve clock hash) (StoreHolds clock hash) (.new capacity store dispatcher) calls := by
  let start : Scheduler S W := .new capacity store dispatcher
  suffices both : (NoneLost (trace (serve clock hash) start calls) ↔
      Guarded (serve clock hash) (StoreHolds clock hash) start calls) ∧
      (Guarded (serve clock hash) (StoreHolds clock hash) start calls →
        Matching (trace (serve clock hash) start calls) (final (serve clock hash) start calls)) from both.1
  induction calls using List.reverseRecOn with
  | nil =>
    refine ⟨iff_of_true (fun earlier here later hs => ?_) trivial, fun _ id => iff_of_false ?_ ?_⟩
    · simp [trace] at hs
    · rintro ⟨event, mem, _⟩
      cases mem
    · simp [final, start, Scheduler.queued, Scheduler.new, SchedulerQueue.new]
  | append_singleton calls call ih =>
    obtain ⟨lost, hm⟩ := ih
    have hw := reached_wellFormed clock hash capacity store dispatcher calls
    rw [trace_append_singleton, final_append, noneLost_append_singleton, Guarded.append_iff, lost]
    have here (hg : Guarded (serve clock hash) (StoreHolds clock hash) start calls) :=
      call_faithful_iff clock hash hw (hm hg) call
    refine ⟨and_congr_right fun hg => ?_, fun hg => (here hg.1).2 hg.2.1⟩
    rw [(here hg).1]
    exact (and_iff_left trivial).symm

end

section Sample

attribute [local instance] Ulid.Crockford.codec TimeArithmetic.whole

structure ScriptedStore where
  succeeds : List Bool

instance : JobStore ScriptedStore where
  persist store _ := match store.succeeds with
    | false :: later => (.error (.storageError "unavailable"), ⟨later⟩)
    | _ => (.ok (), ⟨store.succeeds.tail⟩)

def scriptedTrace (succeeds : List Bool) (calls : List SchedulerCall) :
    List (SchedulerEvent ScriptedStore RecordingDispatcher) :=
  trace (serve (fun _ => 5) (.unchanged _)) (.new 10 ⟨succeeds⟩ .new) calls

/-- A submitted job that is not persisted stays in the queue, and a dispatched one that is not persisted is gone. -/
theorem unpersisted_jobs : (∃ refused, scriptedTrace [false] [.submit immediateJob] = [refused] ∧
      refused.reply = .submitted (.error (.storageError "unavailable")) ∧
      refused.before.queued 1 = false ∧ refused.after.queued 1 = true) ∧
    ∃ accepted ticked, scriptedTrace [true, false] [.submit immediateJob, .tick []] = [accepted, ticked] ∧
      accepted.reply = .submitted (.ok 1) ∧ ticked.reply = .ticked (.error (.storageError "unavailable")) ∧
      ticked.after.queued 1 = false ∧
      ¬ NoneLost (scriptedTrace [true, false] [.submit immediateJob, .tick []]) := by
  refine ⟨⟨_, rfl, rfl, by decide +kernel, by decide +kernel⟩, _, _, rfl, rfl, rfl, by decide +kernel, fun none => ?_⟩
  have kept := (none [_] _ [] rfl).kept 1 ⟨_, mem_singleton.mpr rfl, rfl⟩
  exact absurd kept (by decide +kernel)

end Sample

end Veloxide.JobScheduler
