import Veloxide.Scheduler.StoreErrors

namespace Veloxide.JobScheduler

open OrderedStore List Machine

variable {S W : Type} [JobStore S] [WorkerDispatch W]

section

/-- What the dispatcher was given was pending, and all of it was if the loop got through. -/
structure Gives (first : Scheduler S (Observed W)) (after : View S (Observed W)) (jobIds : List JobId)
    (finished : Prop) (entries : List (ScheduledJob × Bool)) : Prop where
  log : after.dispatcher.log = first.dispatcher.log ++ entries
  pending : ∀ entry ∈ entries, ∃ job time, first.queue.Holds job ∧ job.state = .pending ∧
    entry.1 = job.withState .running time
  all : finished → ∀ job, first.queue.Holds job → job.state = .pending → job.id ∈ jobIds →
    ∃ time, (job.withState .running time, true) ∈ entries

variable {first : Scheduler S (Observed W)} {jobId : JobId}

theorem Turn.gives {result : Except DispatchStop Nat} {after : View S (Observed W)}
    (turn : Turn jobId first result after) : ∃ entries, Gives first after [jobId] (stopOf result = none) entries := by
  cases turn with
  | skipped idle =>
    refine ⟨[], by simp [Scheduler.view], by simp, ?_⟩
    intro _ job held hp same
    exact absurd hp (idle job held (mem_singleton.mp same))
  | dispatched job held hp same step =>
    have hs {time : DateTime} {dispatcher : Observed W} {err : SchedulerError}
        (hr : WorkerDispatch.dispatch first.view.dispatcher (job.withState .running time) =
          (.error err, dispatcher)) (jobs : Store JobId ScheduledJob) (store : S) :
        Gives first ⟨jobs, store, dispatcher⟩ [jobId] False [(job.withState .running time, false)] :=
      ⟨Observed.log_of_dispatch hr, forall_mem_singleton.mpr ⟨job, time, held, hp, rfl⟩, False.elim⟩
    cases step with
    | handed time dispatcher ha =>
      refine ⟨[(job.withState .running time, true)], Observed.log_of_dispatch ha, ?_, ?_⟩
      · exact forall_mem_singleton.mpr ⟨job, time, held, hp, rfl⟩
      · intro _ other ho _ he
        rw [SchedulerQueue.Holds, mem_singleton.mp he, ← same] at ho
        cases ho.symm.trans held
        exact ⟨time, mem_singleton.mpr rfl⟩
    | refused time later dispatcher err hr =>
      have none : ¬ stopOf (.error (.refused err)) = none := by simp [stopOf]
      exact ⟨_, (eq_false none).symm ▸ hs hr _ _⟩
    | lost time drafts dispatcher err ht hb =>
      have none : ¬ stopOf (.error (.notPersisted err)) = none := by simp [stopOf]
      rcases hb with hu | ⟨reason, hr⟩
      · exact ⟨[], by rw [hu]; simp [Scheduler.view], by simp, fun hf => absurd hf none⟩
      · exact ⟨_, (eq_false none).symm ▸ hs hr _ _⟩

variable {last : Scheduler S W} {job : ScheduledJob} {after : View S W} {count : Nat}

theorem Turn.holds_of_pending {first : Scheduler S W} (turn : Turn jobId first (.ok count) after)
    (hy : Yields first after last) (held : last.queue.Holds job) (hp : job.state = .pending) :
    first.queue.Holds job := by
  have hf : last.view.jobs[job.id]? = some job := held
  rw [hy.view] at hf
  cases turn with
  | skipped idle => exact hf
  | dispatched other held hw same step =>
    cases step with
    | handed time worker ha =>
      rw [get_insert] at hf
      by_cases he : other.id = job.id
      · rw [if_pos he] at hf
        cases hf
        cases hp
      · rw [if_neg he] at hf
        exact hf

theorem Turn.holds_of_other {first : Scheduler S W} (turn : Turn jobId first (.ok count) after)
    (hy : Yields first after last) (held : first.queue.Holds job) (ho : job.id ≠ jobId) : last.queue.Holds job := by
  show last.view.jobs[job.id]? = some job
  rw [hy.view]
  cases turn with
  | skipped idle => exact held
  | dispatched moved _ hw same step =>
    cases step with
    | handed time worker ha =>
      rw [get_insert, if_neg (by rw [same]; exact ho.symm)]
      exact held

theorem Turns.gives {jobIds : List JobId} {last : Scheduler S (Observed W)} {stop : Option DispatchStop}
    (ht : Turns jobIds first stop last) : ∃ entries, Gives first last.view jobIds (stop = none) entries := by
  induction ht with
  | done sched => exact ⟨[], by simp [Scheduler.view], by simp, by simp⟩
  | @next jobId jobIds first middle last after count stop turn hy rest ih =>
    obtain ⟨given, here⟩ := turn.gives
    obtain ⟨later, hh⟩ := ih
    refine ⟨given ++ later, ?_, ?_, ?_⟩
    · have log : middle.dispatcher.log = first.dispatcher.log ++ given := by
        rw [← here.log, ← hy.view]
        rfl
      rw [hh.log, log, append_assoc]
    · intro entry mem
      rcases mem_append.mp mem with mem | mem
      · exact here.pending entry mem
      · obtain ⟨job, time, held, hp, same⟩ := hh.pending entry mem
        exact ⟨job, time, turn.holds_of_pending hy held hp, hp, same⟩
    · intro hf job held hp mem
      by_cases same : job.id = jobId
      · obtain ⟨time, hn⟩ := here.all rfl job held hp (mem_singleton.mpr same)
        exact ⟨time, mem_append_left _ hn⟩
      · have hr := (mem_cons.mp mem).resolve_left same
        obtain ⟨time, hn⟩ := hh.all hf job (turn.holds_of_other hy held same) hp hr
        exact ⟨time, mem_append_right _ hn⟩
  | @stopped jobId jobIds first last after stop turn hy =>
    obtain ⟨given, here⟩ := turn.gives
    rw [← hy.view] at here
    exact ⟨given, here.log, here.pending, fun hi => by cases hi⟩

end

section

variable {kind : ScheduledJob → ScheduledJob → Prop} {now : DateTime} {first last : Scheduler S W} {job : ScheduledJob}

omit [WorkerDispatch W] in
theorem Follows.dispatcher_eq (hf : Follows (Changed kind) first last) : last.dispatcher = first.dispatcher := by
  obtain ⟨_, _, hm⟩ := hf
  show last.view.dispatcher = first.view.dispatcher
  generalize last.view = after at hm ⊢
  induction hm with
  | refl => rfl
  | tail _ step ih =>
    obtain ⟨job, moved, drafts, held, hc, same, hv⟩ := step
    exact ih

omit [WorkerDispatch W] in
theorem Follows.pending_kept (hf : Follows (Changed (Promotes now)) first last) (held : first.queue.Holds job)
    (hp : job.state = .pending) : last.queue.Holds job := by
  obtain ⟨_, _, hm⟩ := hf
  show last.view.jobs[job.id]? = some job
  generalize last.view = after at hm ⊢
  induction hm with
  | refl => exact held
  | tail _ step ih =>
    obtain ⟨other, moved, drafts, ho, hc, same, hv⟩ := step
    have hd : other.id ≠ job.id := by
      intro he
      rw [he, ih] at ho
      cases ho
      cases hp.symm.trans hc.1
    rw [get_insert, if_neg hd]
    exact ih

omit [WorkerDispatch W] in
theorem Follows.pending_due (hf : Follows (Changed (Promotes now)) first last) (held : last.queue.Holds job)
    (hp : job.state = .pending) : first.queue.Holds job ∨ job.dueAt ≤ now := by
  obtain ⟨_, _, hm⟩ := hf
  replace held : last.view.jobs[job.id]? = some job := held
  generalize last.view = after at hm held
  induction hm with
  | refl => exact .inl held
  | tail _ step ih =>
    obtain ⟨other, moved, drafts, ho, ⟨_, due, time, rfl⟩, same, hv⟩ := step
    rw [get_insert] at held
    by_cases he : other.id = job.id
    · rw [if_pos he] at held
      cases held
      exact .inr due
    · rw [if_neg he] at held
      exact ih held

end

variable {sched : Scheduler S (Observed W)}

section

variable [Ulid] [TimeArithmetic] (clock : Nat → DateTime) (hash : HashOrder (JobId × ScheduledJob))

theorem tick_gives (hw : WellFormed sched) (ends : List (JobId × CompletionResult)) :
    ∃ entries, ((tick clock hash ends).run sched).2.dispatcher.log = sched.dispatcher.log ++ entries ∧
      (∀ entry ∈ entries, entry.1.dueAt ≤ clock sched.readings ∨ ∃ job time, sched.queue.Holds job ∧
        job.state = .pending ∧ entry.1 = job.withState .running time) ∧
      ((∃ out, ((tick clock hash ends).run sched).1 = .ok out) →
        ∀ job, sched.queue.Holds job → job.state = .pending → ∃ time, (job.withState .running time, true) ∈ entries) := by
  obtain ⟨hp, ⟨dispatched, ht, hc⟩, hf⟩ := tick_phases clock hash hw ends
  obtain ⟨entries, hg⟩ := ht.gives
  refine ⟨entries, ?_, ?_, ?_⟩
  · rw [hc.dispatcher_eq, ← hp.dispatcher_eq]
    exact hg.log
  · intro entry mem
    obtain ⟨job, time, held, he, same⟩ := hg.pending entry mem
    rcases hp.pending_due held he with hb | due
    · exact .inr ⟨job, time, hb, he, same⟩
    · rw [same]
      exact .inl due
  · rintro ⟨out, hs⟩ job held he
    have kept := hp.pending_kept held he
    refine hg.all (hf out hs) job kept he (mem_map_of_mem ?_)
    exact (SchedulerQueue.mem_listByState hash hp.wellFormed.keyed).mpr ⟨kept, he⟩

end

section

def Punctual (now : DateTime) (view : View S W) : Prop := ∀ (id : JobId) (job : ScheduledJob), view.jobs[id]? = some job →
    job.state = .pending → job.attemptCount = 0 → job.dueAt ≤ now

omit [JobStore S] [WorkerDispatch W] in
theorem Punctual.mono {first last : DateTime} (hl : first ≤ last) {view : View S W} (hp : Punctual first view) :
    Punctual last view :=
  fun id job held he hf => Int.le_trans (hp id job held he hf) hl

theorem Punctual.moved {now : DateTime} (view after : View S W) (move : Move now view after)
    (hp : Punctual now view) : Punctual now after := by
  cases move with
  | promoted step =>
    obtain ⟨job, moved, drafts, held, ⟨_, due, time, rfl⟩, same, hv⟩ := step
    exact forall_insert hp fun _ _ => due
  | changed step =>
    obtain ⟨job, moved, drafts, held, hh, same, hv⟩ := step
    refine forall_insert hp ?_
    cases hh with
    | retried time dueAt error hs he =>
      intro _ hf
      have hc := (RetryPolicy.toNat_succ_of_canRetry he).1
      rw [show job.attemptCount + 1 = 0 from hf] at hc
      cases hc
    | completed | rescheduled | failed | cancelled =>
      intro hb
      cases hb
  | dispatched job held hb result step =>
    cases step with
    | handed time worker ha =>
      refine forall_insert hp fun hw => ?_
      cases hw
    | refused time later worker err hr =>
      exact forall_insert hp fun _ hf => hp job.id job held hb hf
    | lost time drafts worker err ht hd => exact forall_erase hp job.id

variable [Ulid] [TimeArithmetic] (clock : Nat → DateTime) (hash : HashOrder (JobId × ScheduledJob))
  (event : SchedulerEvent S (Observed W))

def givenIn : List (ScheduledJob × Bool) := event.after.dispatcher.log.drop event.before.dispatcher.log.length

def OnTime : Prop := ∀ ends, event.call = .tick ends →
    ∀ entry ∈ givenIn event, entry.1.dueAt ≤ clock event.before.readings

def MadeBefore (sched : Scheduler S W) (call : SchedulerCall) : Prop :=
  ∀ job, call = .submit job → ∃ now, now ≤ clock sched.readings ∧ job.MadeAt now

def NoRetryWaits (sched : Scheduler S W) (call : SchedulerCall) : Prop :=
  ∀ ends, call = .tick ends → ∀ job, sched.queue.Holds job → job.state = .pending →
    job.attemptCount ≠ 0 → job.dueAt ≤ clock sched.readings

variable {clock}

omit [Ulid] in
theorem Punctual.served (hm : Monotone clock) {call : SchedulerCall} {first last : Scheduler S W}
    (served : Served (clock first.readings) call first last) (made : MadeBefore clock first call)
    (hp : Punctual (clock first.readings) first.view) : Punctual (clock last.readings) last.view := by
  refine Punctual.mono (hm served.readings) ?_
  rcases served.moves with ⟨job, hs, he⟩ | moves
  · obtain ⟨now, past, made⟩ := made job hs
    rw [he]
    refine forall_insert hp fun ha _ => ?_
    rcases made.fresh.2 with ⟨_, due⟩ | scheduled
    · exact Int.le_trans due past
    · cases ha.symm.trans scheduled
  · exact moves_invariant Punctual.moved moves hp

theorem call_onTime (hw : WellFormed sched)
    (hp : Punctual (clock sched.readings) sched.view) (call : SchedulerCall) :
    let here := Machine.event (serve clock hash) sched call
    (NoRetryWaits clock sched call → OnTime clock here) ∧
      ((∀ err, here.reply ≠ .ticked (.error err)) → OnTime clock here → NoRetryWaits clock sched call) := by
  intro here
  refine ⟨fun ha ends same => ?_, fun hs ho ends same job held he _ => ?_⟩
  all_goals
    replace same : call = .tick ends := same
    subst same
    obtain ⟨entries, log, hr, all⟩ := tick_gives clock hash hw ends
    have hg : givenIn here = entries := by
      show (((tick clock hash ends).run sched).2.dispatcher.log).drop sched.dispatcher.log.length = entries
      rw [log, drop_left]
  · intro entry mem
    rw [hg] at mem
    rcases hr entry mem with due | ⟨job, time, held, he, same⟩
    · exact due
    · rw [same]
      by_cases hb : job.attemptCount = 0
      · exact hp job.id job held he hb
      · exact ha ends rfl job held he hb
  · have hf : ∃ outcome, ((tick clock hash ends).run sched).1 = .ok outcome := by
      rcases ran : ((tick clock hash ends).run sched).1 with err | outcome
      · exact absurd (congrArg SchedulerReply.ticked ran) (hs err)
      · exact ⟨outcome, rfl⟩
    obtain ⟨time, mem⟩ := all hf job held he
    rw [← hg] at mem
    exact ho ends rfl _ mem

theorem run_onTime (ha : Monotone clock) (hw : WellFormed sched)
    (hp : Punctual (clock sched.readings) sched.view) {calls : List SchedulerCall}
    (made : Guarded (serve clock hash) (MadeBefore clock) sched calls) :
    let events := trace (serve clock hash) sched calls
    (Guarded (serve clock hash) (NoRetryWaits clock) sched calls → ∀ event ∈ events, OnTime clock event) ∧
      ((∀ event ∈ events, ∀ err, event.reply ≠ .ticked (.error err)) → (∀ event ∈ events, OnTime clock event) →
        Guarded (serve clock hash) (NoRetryWaits clock) sched calls) := by
  induction calls generalizing sched with
  | nil => exact ⟨fun _ _ mem => (by cases mem), fun _ _ => trivial⟩
  | cons call calls ih =>
    obtain ⟨hb, hm⟩ := made
    have he := serve_served clock hash hw call
    obtain ⟨here, hh⟩ := call_onTime hash hw hp call
    obtain ⟨hc, hl⟩ := ih he.wellFormed (hp.served ha he hb) hm
    simp only [trace, Guarded, forall_mem_cons]
    refine ⟨fun hg => ⟨here hg.1, hc hg.2⟩, fun hs ho => ?_⟩
    exact ⟨hh hs.1 ho.1, hl hs.2 ho.2⟩

/-- No job runs early if no retry waits when a tick starts, and only then if the ticks succeed. -/
theorem runs_when_due (monotone : Monotone clock) (capacity : Nat) (store : S) (dispatcher : W)
    (calls : List SchedulerCall) (made : Guarded (serve clock hash) (MadeBefore clock)
      (Scheduler.new capacity store (⟨dispatcher, []⟩ : Observed W)) calls) :
    let start : Scheduler S (Observed W) := .new capacity store ⟨dispatcher, []⟩
    let events := trace (serve clock hash) start calls
    (Guarded (serve clock hash) (NoRetryWaits clock) start calls → ∀ event ∈ events, OnTime clock event) ∧
      ((∀ event ∈ events, ∀ err, event.reply ≠ .ticked (.error err)) → (∀ event ∈ events, OnTime clock event) →
        Guarded (serve clock hash) (NoRetryWaits clock) start calls) := by
  refine run_onTime hash monotone (.new capacity store _) (fun id job held => ?_) made
  simp [Scheduler.view, Scheduler.new, SchedulerQueue.new] at held

end

section Sample

attribute [local instance] Ulid.Crockford.codec TimeArithmetic.whole

def observedStart : Scheduler InMemoryJobStore (Observed RecordingDispatcher) := .new 10 ⟨[]⟩ ⟨.new, []⟩

def fiveOClock : Nat → DateTime := fun _ => 5

def passing : Nat → DateTime := fun reading => 100 * reading

theorem noRetryWaits_of_entries {sched : Scheduler InMemoryJobStore (Observed RecordingDispatcher)} {call : SchedulerCall}
    (waits : ∀ entry ∈ sched.queue.jobs.toList, entry.2.state = .pending → entry.2.attemptCount ≠ 0 →
      entry.2.dueAt ≤ passing sched.readings) : NoRetryWaits passing sched call :=
  fun _ _ job held => waits (job.id, job) (Std.ExtTreeMap.mem_toList_iff_getElem?_eq_some.mpr held)

theorem madeBefore_tick {sched : Scheduler InMemoryJobStore (Observed RecordingDispatcher)}
    {ends : List (JobId × CompletionResult)} : MadeBefore passing sched (.tick ends) := by
  intro job hs
  cases hs

/-- The job fails and is run again, at a time after its backoff. -/
def retryCalls : List SchedulerCall := [.submit immediateJob, .tick [], .tick [(1, .failed "down")], .tick []]

theorem runs_when_due_sample : Monotone passing ∧
    Guarded (serve passing (.unchanged _)) (MadeBefore passing) observedStart retryCalls ∧
    ∀ event ∈ trace (serve passing (.unchanged _)) observedStart retryCalls, OnTime passing event := by
  have hm : Monotone passing := fun first second le => by simpa [passing] using le
  have made : Guarded (serve passing (.unchanged _)) (MadeBefore passing) observedStart retryCalls := by
    refine ⟨fun job hs => ?_, madeBefore_tick, madeBefore_tick, madeBefore_tick, trivial⟩
    cases hs
    exact ⟨0, by decide, 1, .oneShot, .normal, .immediate, ⟨3, ⟨2⟩, 10, 300⟩, [], rfl⟩
  have hw : Guarded (serve passing (.unchanged _)) (NoRetryWaits passing) observedStart retryCalls := by
    refine ⟨noRetryWaits_of_entries ?_, noRetryWaits_of_entries ?_, noRetryWaits_of_entries ?_,
      noRetryWaits_of_entries ?_, trivial⟩ <;> decide +kernel
  exact ⟨hm, made, (runs_when_due _ hm 10 (⟨[]⟩ : InMemoryJobStore) RecordingDispatcher.new _ made).1 hw⟩

/-- A job that fails at the time 5 is to be retried at 15, and the next tick at 5 runs it. -/
theorem retry_runs_early : ∃ event ∈ trace (serve fiveOClock (.unchanged _)) observedStart
      [.submit immediateJob, .tick [], .tick [(1, .failed "down")], .tick []],
    event.call = .tick [] ∧ (givenIn event).map (fun entry => (entry.1.id, entry.1.attemptCount, entry.1.dueAt)) =
      [(1, 1, 15)] ∧ ¬ OnTime fiveOClock event := by
  let retried := final (serve fiveOClock (.unchanged _)) observedStart
    [.submit immediateJob, .tick [], .tick [(1, .failed "down")]]
  have hg : (givenIn (Machine.event (serve fiveOClock (.unchanged _)) retried (.tick []))).map
      (fun entry => (entry.1.id, entry.1.attemptCount, entry.1.dueAt)) = [(1, 1, 15)] := by decide +kernel
  refine ⟨Machine.event (serve fiveOClock (.unchanged _)) retried (.tick []), ?_, rfl, hg, fun ho => ?_⟩
  · exact mem_append_right [_, _, _] (mem_singleton.mpr rfl)
  · obtain ⟨entry, hs, same⟩ := map_eq_singleton_iff.mp hg
    have due := ho [] rfl entry (by rw [hs]; exact mem_singleton.mpr rfl)
    have time : entry.1.dueAt = 15 := (Prod.mk.inj (Prod.mk.inj same).2).2
    rw [time] at due
    exact absurd due (by decide)

end Sample

end Veloxide.JobScheduler
