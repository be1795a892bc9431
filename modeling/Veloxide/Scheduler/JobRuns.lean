import Veloxide.Scheduler.StoreAgreement

namespace Veloxide.JobScheduler

open OrderedStore Machine List

/-- A dispatcher with the jobs it was given, and whether it accepted them. -/
structure Observed (W : Type) where
  dispatcher : W
  log : List (ScheduledJob × Bool)

namespace Observed

variable {W : Type} [WorkerDispatch W]

instance : WorkerDispatch (Observed W) where
  dispatch observed job := let (result, dispatcher) := WorkerDispatch.dispatch observed.dispatcher job
    (result, ⟨dispatcher, observed.log ++ [(job, result.isOk)]⟩)

theorem log_of_dispatch {observed after : Observed W} {job : ScheduledJob} {result : Except SchedulerError Unit}
    (ran : WorkerDispatch.dispatch observed job = (result, after)) :
    after.log = observed.log ++ [(job, result.isOk)] := by
  cases ran
  rfl

end Observed

def entriesOf (id : JobId) (log : List (ScheduledJob × Bool)) : List (ScheduledJob × Bool) :=
  log.filter fun entry => entry.1.id = id

def runsOf (id : JobId) (log : List (ScheduledJob × Bool)) : Nat := ((entriesOf id log).filter Prod.snd).length

variable {job : ScheduledJob} {id : JobId}

theorem entriesOf_other {W : Type} [WorkerDispatch W] {observed after : Observed W}
    {result : Except SchedulerError Unit} (ran : WorkerDispatch.dispatch observed job = (result, after))
    (ho : job.id ≠ id) : entriesOf id after.log = entriesOf id observed.log := by
  rw [Observed.log_of_dispatch ran]
  simp [entriesOf, ho]

theorem runsOf_same {W : Type} [WorkerDispatch W] {observed after : Observed W}
    {result : Except SchedulerError Unit} (ran : WorkerDispatch.dispatch observed job = (result, after)) :
    runsOf job.id after.log = runsOf job.id observed.log + result.isOk.toNat := by
  rw [Observed.log_of_dispatch ran]
  cases result <;> simp [runsOf, entriesOf, Except.isOk, Except.toBool]

def JobState.started : JobState → Nat
  | scheduled | pending => 0
  | _ => 1

theorem JobState.started_le (state : JobState) : state.started ≤ 1 := by
  cases state <;> decide

def allowance (job : ScheduledJob) : Nat := job.attemptCount.toNat + job.state.started

structure Spent (runs : Nat) (job : ScheduledJob) : Prop where
  allowed : runs ≤ allowance job
  attempts : job.attemptCount.toNat ≤ job.retryPolicy.maxAttempts.toNat

variable {runs : Nat}

theorem Spent.runs_le (hp : Spent runs job) : runs ≤ job.retryPolicy.maxAttempts.toNat + 1 := by
  have hl := hp.allowed
  have ha := hp.attempts
  have hs := job.state.started_le
  rw [allowance] at hl
  omega

variable {now : DateTime}

theorem Spent.fresh [TimeArithmetic] (made : job.MadeAt now) : Spent 0 job := by
  refine ⟨Nat.zero_le _, ?_⟩
  rw [made.fresh.1]
  exact Nat.zero_le _

theorem Spent.promoted {moved : ScheduledJob} (hs : Spent runs job)
    (hp : Promotes now job moved) : Spent runs moved := by
  obtain ⟨hl, ha⟩ := hs
  obtain ⟨ht, _, time, rfl⟩ := hp
  rw [allowance, ht] at hl
  exact ⟨hl, ha⟩

theorem Spent.change {moved : ScheduledJob} (once : job.kind ≠ .recurring)
    (hs : Spent runs job) (change : Change False job moved) : Spent runs moved := by
  obtain ⟨hl, ha⟩ := hs
  rw [allowance] at hl
  cases change with
  | completed time ht last =>
    rw [ht] at hl
    exact ⟨hl, ha⟩
  | rescheduled time dueAt ht hr => exact absurd hr once
  | failed time error ht last =>
    rw [ht] at hl
    exact ⟨hl, ha⟩
  | retried time dueAt error ht he =>
    obtain ⟨hc, most⟩ := RetryPolicy.toNat_succ_of_canRetry he
    rw [ht] at hl
    refine ⟨?_, ?_⟩
    · show runs ≤ (job.attemptCount + 1).toNat
      rw [hc]
      exact hl
    · show (job.attemptCount + 1).toNat ≤ _
      rw [hc]
      exact most
  | cancelled time ht =>
    exact ⟨Nat.le_trans hl (Nat.add_le_add_left job.state.started_le _), ha⟩

theorem Spent.handed (hs : Spent runs job) (hp : job.state = .pending)
    (time : DateTime) : Spent (runs + 1) (job.withState .running time) := by
  obtain ⟨hl, ha⟩ := hs
  rw [allowance, hp] at hl
  exact ⟨Nat.succ_le_succ hl, ha⟩

theorem Spent.refused (hs : Spent runs job) (hp : job.state = .pending)
    (time : DateTime) : Spent runs (job.withState .pending time) := by
  obtain ⟨hl, ha⟩ := hs
  rw [allowance, hp] at hl
  exact ⟨hl, ha⟩

theorem Promotes.policy_eq {moved : ScheduledJob} (hp : Promotes now job moved) :
    moved.kind = job.kind ∧ moved.retryPolicy = job.retryPolicy := by
  obtain ⟨_, _, time, rfl⟩ := hp
  exact ⟨rfl, rfl⟩

variable {stops : Prop}

theorem Change.policy_eq {moved : ScheduledJob} (hc : Change stops job moved) :
    moved.kind = job.kind ∧ moved.retryPolicy = job.retryPolicy := by
  cases hc <;> exact ⟨rfl, rfl⟩

theorem Promotes.nonterminal {moved : ScheduledJob} (hp : Promotes now job moved) : job.state.isTerminal = false := by
  rw [hp.1]
  rfl

theorem Change.nonterminal {moved : ScheduledJob} (hc : Change stops job moved) : job.state.isTerminal = false := by
  cases hc with
  | cancelled time hs => exact hs
  | completed _ hs _ | rescheduled _ _ hs _ | failed _ _ hs _ | retried _ _ _ hs _ =>
    rw [hs]
    rfl

/-- The queue's job with an id, if there is one, is a submitted job and has not had more runs than it may. -/
def Accounted (submitted : List ScheduledJob) (id : JobId) (runs : Nat) : Option ScheduledJob → Prop
  | none => runs = 0
  | some job => (∃ original ∈ submitted, original.id = id ∧ job.kind = original.kind ∧
      job.retryPolicy = original.retryPolicy) ∧ (job.kind ≠ .recurring → Spent runs job)

theorem Accounted.runs_le {submitted : List ScheduledJob} {held : Option ScheduledJob}
    (ha : Accounted submitted job.id runs held)
    (hd : (submitted.map ScheduledJob.id).Nodup) (mem : job ∈ submitted) (once : job.kind ≠ .recurring) :
    runs ≤ job.retryPolicy.maxAttempts.toNat + 1 := by
  cases held with
  | none => exact ha ▸ Nat.zero_le _
  | some current =>
    obtain ⟨⟨original, hk, same, kind, hp⟩, hs⟩ := ha
    have hi := inj_on_of_nodup_map hd hk mem same
    subst hi
    rw [← hp]
    exact (hs (kind ▸ once)).runs_le

theorem Accounted.mono {first last : List ScheduledJob} (more : ∀ job ∈ first, job ∈ last)
    {held : Option ScheduledJob} (ha : Accounted first id runs held) : Accounted last id runs held := by
  cases held with
  | none => exact ha
  | some job =>
    obtain ⟨⟨original, mem, same⟩, hs⟩ := ha
    exact ⟨⟨original, more original mem, same⟩, hs⟩

def submissions (calls : List SchedulerCall) : List ScheduledJob := calls.filterMap fun
    | .submit job => some job
    | _ => none

theorem submissions_append (first second : List SchedulerCall) :
    submissions (first ++ second) = submissions first ++ submissions second :=
  filterMap_append

section

variable {S W : Type}

def Tracked (submitted : List ScheduledJob) (view : View S (Observed W)) : Prop :=
  ∀ id : JobId, Accounted submitted id (runsOf id view.dispatcher.log) view.jobs[id]?

theorem Tracked.update {submitted : List ScheduledJob} {view : View S (Observed W)} (ht : Tracked submitted view)
    {job moved : ScheduledJob} (held : view.jobs[job.id]? = some job) (kind : moved.kind = job.kind)
    (hp : moved.retryPolicy = job.retryPolicy) {log : List (ScheduledJob × Bool)}
    (ha : ∀ id, job.id ≠ id → entriesOf id log = entriesOf id view.dispatcher.log)
    (hs : job.kind ≠ .recurring → Spent (runsOf job.id view.dispatcher.log) job → Spent (runsOf job.id log) moved)
    (id : JobId) : Accounted submitted id (runsOf id log) (view.jobs.insert job.id moved)[id]? := by
  have hb := ht id
  rw [get_insert]
  by_cases same : job.id = id
  · subst same
    rw [held] at hb
    rw [if_pos rfl]
    obtain ⟨⟨original, mem, hi, hr, ho⟩, hw⟩ := hb
    refine ⟨⟨original, mem, hi, kind.trans hr, hp.trans ho⟩, ?_⟩
    intro once
    rw [kind] at once
    exact hs once (hw once)
  · rw [if_neg same, runsOf, ha id same]
    exact hb

variable [JobStore S]

theorem Tracked.moved [WorkerDispatch W] (hr : Reliable S) {now : DateTime} {submitted : List ScheduledJob}
    {view after : View S (Observed W)} (move : Move now view after) (ht : Tracked submitted view) :
    Tracked submitted after := by
  cases move with
  | promoted step =>
    obtain ⟨job, moved, drafts, held, hc, same, hv⟩ := step
    obtain ⟨kind, hb⟩ := hc.policy_eq
    exact ht.update held kind hb (fun _ _ => rfl) fun _ hs => hs.promoted hc
  | changed step =>
    rw [eq_false (not_not_intro hr)] at step
    obtain ⟨job, moved, drafts, held, hc, same, hv⟩ := step
    obtain ⟨kind, hb⟩ := hc.policy_eq
    exact ht.update held kind hb (fun _ _ => rfl) fun once hs => hs.change once hc
  | dispatched job held hp result step =>
    cases step with
    | handed time worker ha =>
      have runs : runsOf job.id worker.log = runsOf job.id view.dispatcher.log + 1 := runsOf_same ha
      refine ht.update held (show (job.withState .running time).kind = job.kind from rfl) rfl
        (fun id ho => entriesOf_other ha ho) fun _ hs => ?_
      exact runs ▸ hs.handed hp time
    | refused time later worker err he =>
      have runs : runsOf job.id worker.log = runsOf job.id view.dispatcher.log := runsOf_same he
      refine ht.update held (show (job.withState .pending later).kind = job.kind from rfl) rfl
        (fun id ho => entriesOf_other he ho) fun _ hs => ?_
      exact runs ▸ hs.refused hp later
    | lost time drafts worker err hd hf => exact absurd hr hd

theorem Tracked.submitted [TimeArithmetic] {submitted : List ScheduledJob} {view : View S (Observed W)}
    (ht : Tracked submitted view) {now : DateTime} {job : ScheduledJob} (made : job.MadeAt now)
    (new : job.id ∉ submitted.map ScheduledJob.id) : Tracked (submitted ++ [job]) (view.submitted job) := by
  intro id
  have hb := ht id
  rw [View.submitted, get_insert]
  by_cases same : job.id = id
  · subst same
    have hu : view.jobs[job.id]? = none := by
      cases held : view.jobs[job.id]? with
      | none => rfl
      | some other =>
        rw [held] at hb
        obtain ⟨⟨original, mem, hi, _⟩, _⟩ := hb
        exact absurd (hi ▸ mem_map_of_mem mem) new
    rw [hu] at hb
    have none : runsOf job.id view.dispatcher.log = 0 := hb
    rw [if_pos rfl, none]
    exact ⟨⟨job, by simp, rfl, rfl, rfl⟩, fun _ => .fresh made⟩
  · rw [if_neg same]
    exact hb.mono fun original mem => mem_append_left _ mem

def Keeps (job : ScheduledJob) (entries : List (ScheduledJob × Bool)) (view : View S (Observed W)) : Prop :=
  view.jobs[job.id]? = some job ∧ entriesOf job.id view.dispatcher.log = entries

section

variable {job : ScheduledJob} {entries : List (ScheduledJob × Bool)} {view : View S (Observed W)}

omit [JobStore S] in
theorem Keeps.update {other : ScheduledJob} (hk : Keeps job entries view) (hd : other.id ≠ job.id)
    {log : List (ScheduledJob × Bool)} (same : entriesOf job.id log = entriesOf job.id view.dispatcher.log)
    (moved : ScheduledJob) :
    (view.jobs.insert other.id moved)[job.id]? = some job ∧ entriesOf job.id log = entries := by
  rw [get_insert, if_neg hd, same]
  exact hk

theorem Keeps.moved [WorkerDispatch W] (hr : Reliable S) (ht : job.state.isTerminal = true)
    {now : DateTime} {after : View S (Observed W)} (move : Move now view after) (hk : Keeps job entries view) :
    Keeps job entries after := by
  have hb {other : ScheduledJob} (held : view.jobs[other.id]? = some other)
      (hn : other.state.isTerminal = false) : other.id ≠ job.id := by
    intro same
    rw [same, hk.1] at held
    cases held
    rw [ht] at hn
    contradiction
  cases move with
  | promoted step | changed step =>
    obtain ⟨other, moved, drafts, held, hc, same, hv⟩ := step
    exact hk.update (hb held hc.nonterminal) rfl moved
  | dispatched other held hp result step =>
    have hd := hb held (by rw [hp]; rfl)
    cases step with
    | handed time worker ha =>
      exact hk.update hd (entriesOf_other ha hd) (other.withState .running time)
    | refused time later worker err he =>
      exact hk.update hd (entriesOf_other he hd) (other.withState .pending later)
    | lost time drafts worker err hs hf => exact absurd hr hs

end

variable [WorkerDispatch W] [Ulid] [TimeArithmetic] (clock : Nat → DateTime) (hash : HashOrder (JobId × ScheduledJob))

structure FreshJobs (calls : List SchedulerCall) : Prop where
  made : ∀ job ∈ submissions calls, ∃ now, job.MadeAt now
  distinct : ((submissions calls).map ScheduledJob.id).Nodup

variable {calls : List SchedulerCall}

omit [Ulid] in
theorem FreshJobs.left {more : List SchedulerCall} (hf : FreshJobs (calls ++ more)) : FreshJobs calls := by
  obtain ⟨made, hd⟩ := hf
  rw [submissions_append] at made hd
  rw [map_append] at hd
  exact ⟨fun job mem => made job (mem_append_left _ mem), hd.of_append_left⟩

omit [Ulid] in
theorem FreshJobs.last {job : ScheduledJob} (hf : FreshJobs (calls ++ [.submit job])) :
    (∃ now, job.MadeAt now) ∧ job.id ∉ (submissions calls).map ScheduledJob.id := by
  obtain ⟨made, hd⟩ := hf
  have hs : submissions [.submit job] = [job] := rfl
  rw [submissions_append, hs] at made hd
  refine ⟨made job (by simp), fun mem => ?_⟩
  rw [map_append, nodup_append] at hd
  exact hd.2.2 job.id mem job.id (by simp) rfl

theorem tracked_run (hr : Reliable S) (capacity : Nat) (store : S) (worker : W) (hf : FreshJobs calls) :
    Tracked (submissions calls)
      (final (serve clock hash) (Scheduler.new capacity store (⟨worker, []⟩ : Observed W)) calls).view := by
  refine (reached_invariant clock hash
    (fun past sched => FreshJobs past → Tracked (submissions past) sched.view)
    (.new capacity store _) (fun _ id => ?_) ?_ calls).2 hf
  · exact rfl
  · intro past first call last hs ht hf
    have hb := ht hf.left
    rcases hs.moves with ⟨job, rfl, he⟩ | moves
    · obtain ⟨⟨now, made⟩, new⟩ := hf.last
      rw [he, submissions_append]
      exact hb.submitted made new
    · have more : Tracked (submissions (past ++ [call])) first.view := fun id =>
        (hb id).mono fun job mem => by
          rw [submissions_append]
          exact mem_append_left _ mem
      exact moves_invariant (fun _ _ => Tracked.moved hr) moves more

theorem keeps_run (hr : Reliable S) {past later : List SchedulerCall} (hf : FreshJobs (past ++ later))
    {sched : Scheduler S (Observed W)} (hw : WellFormed sched) {job : ScheduledJob}
    {entries : List (ScheduledJob × Bool)} (hk : Keeps job entries sched.view)
    (hn : job.id ∈ (submissions past).map ScheduledJob.id) (ht : job.state.isTerminal = true) :
    Keeps job entries (final (serve clock hash) sched later).view := by
  refine (reached_invariant clock hash
    (fun calls last => FreshJobs (past ++ calls) → Keeps job entries last.view)
    hw (fun _ => hk) ?_ later).2 hf
  intro calls first call last hs kept hf
  rw [← append_assoc] at hf
  have hb := kept hf.left
  rcases hs.moves with ⟨other, rfl, he⟩ | moves
  · have hd : other.id ≠ job.id := by
      intro same
      refine hf.last.2 ?_
      rw [same, submissions_append, map_append]
      exact mem_append_left _ hn
    rw [he]
    exact hb.update hd rfl other
  · exact moves_invariant (fun _ _ => Keeps.moved hr ht) moves hb

/-- A job is handed over once more than its retries, at most, and is not dispatched after its end. -/
theorem bounded_execution (reliable : Reliable S) (capacity : Nat) (store : S) (dispatcher : W)
    (calls : List SchedulerCall) (fresh : FreshJobs calls) :
    let after (calls : List SchedulerCall) : Scheduler S (Observed W) :=
      final (serve clock hash) (.new capacity store ⟨dispatcher, []⟩) calls
    (∀ job ∈ submissions calls, job.kind ≠ .recurring →
        runsOf job.id (after calls).dispatcher.log ≤ job.retryPolicy.maxAttempts.toNat + 1) ∧
      ∀ earlier later, calls = earlier ++ later → ∀ job, (after earlier).queue.Holds job →
        job.state.isTerminal = true → (after calls).queue.Holds job ∧
          entriesOf job.id (after calls).dispatcher.log = entriesOf job.id (after earlier).dispatcher.log := by
  intro after
  refine ⟨fun job mem once => ?_, fun earlier later hs job held ht => ?_⟩
  · have ha := tracked_run clock hash reliable capacity store dispatcher fresh job.id
    exact ha.runs_le fresh.distinct mem once
  · subst hs
    have ha := tracked_run clock hash reliable capacity store dispatcher fresh.left job.id
    rw [show (after earlier).view.jobs[job.id]? = some job from held] at ha
    obtain ⟨⟨original, mem, same, _⟩, _⟩ := ha
    have hk : job.id ∈ (submissions earlier).map ScheduledJob.id := same ▸ mem_map_of_mem mem
    have hw : WellFormed (after earlier) := reached_wellFormed clock hash capacity store _ earlier
    have kept := keeps_run clock hash reliable fresh hw ⟨held, rfl⟩ hk ht
    rw [← final_append] at kept
    exact kept

end

section Sample

attribute [local instance] Ulid.Crockford.codec TimeArithmetic.whole

def immediateJob : ScheduledJob := ⟨1, .oneShot, .pending, .normal, .immediate, ⟨3, ⟨2⟩, 10, 300⟩, 0, 0, [], none, 0, 0⟩

def retriedCalls : List SchedulerCall :=
  [.submit immediateJob, .tick [], .tick [(1, .failed "down")], .tick [], .tick [(1, .success)], .tick []]

theorem bounded_execution_sample : Reliable InMemoryJobStore ∧ FreshJobs retriedCalls ∧
    (let last := final (serve (fun _ => 5) (.unchanged _))
      (.new 10 (⟨[]⟩ : InMemoryJobStore) (⟨.new, []⟩ : Observed RecordingDispatcher)) retriedCalls
    runsOf 1 last.dispatcher.log = 2 ∧
      runsOf immediateJob.id last.dispatcher.log ≤ immediateJob.retryPolicy.maxAttempts.toNat + 1) := by
  have hf : FreshJobs retriedCalls := by
    refine ⟨?_, by decide⟩
    intro job mem
    cases mem_singleton.mp mem
    exact ⟨0, 1, .oneShot, .normal, .immediate, ⟨3, ⟨2⟩, 10, 300⟩, [], rfl⟩
  have hb := (bounded_execution (fun _ => 5) (.unchanged _) inMemoryJobStore_reliable 10 ⟨[]⟩
    RecordingDispatcher.new retriedCalls hf).1 immediateJob (by decide) (by decide)
  exact ⟨inMemoryJobStore_reliable, hf, by decide +kernel, hb⟩

end Sample

end Veloxide.JobScheduler
