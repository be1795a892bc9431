import Veloxide.Library.Execution
import Veloxide.Writer.Message

namespace Veloxide.Writer

open List

structure DbWriterActorConfig where
  mailboxCapacity : Nat
  flushIntervalMs : UInt64
  maxBatchSize : Nat

def DbWriterActorConfig.default : DbWriterActorConfig := ⟨10000, 100, 1000⟩

inductive DbWriterActorError
  | commitFailed (reason : String)
  | actorError (reason : String)
  | storageError (reason : String)

section

variable [Ulid]

inductive DbWriterActorMsg
  | commit (msgs : List DbWriterMessage)
  | getMailboxDepth
  | shutdown

inductive DbWriterActorReply
  | committed (result : Except DbWriterActorError Unit)
  | mailboxDepth (depth : Nat)
  | stopped

structure DbWriterActorState (C : TransactionCommitter) where
  committer : C.State
  config : DbWriterActorConfig
  currentBatch : List DbWriterMessage
  messagesReceived : Nat
  batchesCommitted : Nat

namespace DbWriterActorState

variable {C : TransactionCommitter}

def new (committer : C.State) (config : DbWriterActorConfig) : DbWriterActorState C := ⟨committer, config, [], 0, 0⟩

variable (state : DbWriterActorState C)

def shouldFlush : Bool := state.currentBatch.length ≥ state.config.maxBatchSize

def commitBatch (state : DbWriterActorState C) : Except TransactionError Unit × DbWriterActorState C :=
  if state.currentBatch.isEmpty then (.ok (), state)
  else
    let emptied := { state with currentBatch := [], committer := (C.commitBatch state.committer state.currentBatch).2 }
    match (C.commitBatch state.committer state.currentBatch).1 with
    | .error failure => (.error failure, emptied)
    | .ok () => (.ok (), { emptied with batchesCommitted := state.batchesCommitted + 1 })

def push (msg : DbWriterMessage) : DbWriterActorState C :=
  { state with currentBatch := state.currentBatch ++ [msg], messagesReceived := state.messagesReceived + 1 }

def pushAll (state : DbWriterActorState C) : List DbWriterMessage → Except TransactionError Unit × DbWriterActorState C
  | [] => (.ok (), state)
  | msg :: msgs =>
    if (state.push msg).shouldFlush then
      match (state.push msg).commitBatch with
      | (.error failure, flushed) => (.error failure, flushed)
      | (.ok (), flushed) => flushed.pushAll msgs
    else (state.push msg).pushAll msgs

variable (msgs : List DbWriterMessage)

def commitAll : Except TransactionError Unit × DbWriterActorState C := match state.pushAll msgs with
  | (.error failure, after) => (.error failure, after)
  | (.ok (), after) => after.commitBatch

def handle : DbWriterActorMsg → DbWriterActorReply × DbWriterActorState C
  | .commit msgs =>
    match state.commitAll msgs with
    | (.error failure, after) => (.committed (.error (.commitFailed failure.toText)), after)
    | (.ok (), after) => (.committed (.ok ()), after)
  | .getMailboxDepth =>
    (.mailboxDepth (state.messagesReceived - state.batchesCommitted * state.config.maxBatchSize), state)
  | .shutdown => (.stopped, state.commitBatch.2)

def chunkSize (config : DbWriterActorConfig) : Nat := max 1 config.maxBatchSize

/-- The committer accepts the messages when they are handed over in chunks, one after the other. -/
inductive Accepts (chunk : Nat) : C.State → List DbWriterMessage → Prop
  | nil {committer : C.State} : Accepts chunk committer []
  | chunk {committer : C.State} {msgs : List DbWriterMessage}
    (first : (C.commitBatch committer (msgs.take chunk)).1 = .ok ())
    (rest : Accepts chunk (C.commitBatch committer (msgs.take chunk)).2 (msgs.drop chunk)) :
    Accepts chunk committer msgs

/-- All messages of a request are stored when it is answered with `Ok`, none if its first chunk fails. -/
inductive Leaves (chunk : Nat) (before : C.State) (msgs : List DbWriterMessage) :
    Except TransactionError Unit → C.State → Prop
  | whole {after : C.State} (accepted : Accepts chunk before msgs)
    (stored : C.stored after = C.stored before ++ msgs) : Leaves chunk before msgs (.ok ()) after
  | refused {after : C.State} {failure : TransactionError} (nonempty : msgs ≠ [])
    (first : (C.commitBatch before (msgs.take chunk)).1 ≠ .ok ()) (stored : C.stored after = C.stored before) :
    Leaves chunk before msgs (.error failure) after
  | torn {after : C.State} {failure : TransactionError} {part : List DbWriterMessage}
    (rejected : ¬ Accepts chunk before msgs)
    (first : (C.commitBatch before (msgs.take chunk)).1 = .ok ()) (nonempty : part ≠ [])
    (inside : part <+: msgs) (stored : C.stored after = C.stored before ++ part) :
    Leaves chunk before msgs (.error failure) after

theorem commitBatch_kept : state.commitBatch.2.currentBatch = [] ∧ state.commitBatch.2.config = state.config := by
  rw [commitBatch]
  split
  · rename_i he
    exact ⟨List.isEmpty_iff.mp he, rfl⟩
  · split <;> exact ⟨rfl, rfl⟩

theorem commitBatch_cases : (state.currentBatch = [] ∧ state.commitBatch = (.ok (), state)) ∨
    (state.currentBatch ≠ [] ∧ state.commitBatch.1 = (C.commitBatch state.committer state.currentBatch).1 ∧
      state.commitBatch.2.committer = (C.commitBatch state.committer state.currentBatch).2) := by
  rw [commitBatch]
  by_cases he : state.currentBatch = []
  · exact .inl ⟨he, by simp [he]⟩
  · right
    rw [if_neg (by simpa using he)]
    cases hr : (C.commitBatch state.committer state.currentBatch).1 with
    | error err | ok done => exact ⟨he, rfl, rfl⟩

variable {chunk : Nat}

theorem Accepts.first {before : C.State} {msgs : List DbWriterMessage} (accepted : Accepts chunk before msgs)
    (nonempty : msgs ≠ []) : (C.commitBatch before (msgs.take chunk)).1 = .ok () := by
  cases accepted with
  | nil => exact absurd rfl nonempty
  | chunk first _ => exact first

theorem Accepts.of_fits {before : C.State} {msgs : List DbWriterMessage} (fits : msgs.length ≤ chunk)
    (first : (C.commitBatch before (msgs.take chunk)).1 = .ok ()) : Accepts chunk before msgs := by
  refine .chunk first ?_
  rw [drop_of_length_le fits]
  exact .nil

theorem accepts_append_iff {before : C.State} {first rest : List DbWriterMessage} (size : first.length = chunk)
    (nonempty : first ≠ []) (accepted : (C.commitBatch before first).1 = .ok ()) :
    Accepts chunk before (first ++ rest) ↔ Accepts chunk (C.commitBatch before first).2 rest := by
  have head : (first ++ rest).take chunk = first := by rw [← size, take_left]
  have tail : (first ++ rest).drop chunk = rest := by rw [← size, drop_left]
  constructor
  · intro all
    generalize same : first ++ rest = msgs at all
    cases all with
    | nil => exact absurd (append_eq_nil_iff.mp same).1 nonempty
    | chunk _ later =>
      rw [← same, head, tail] at later
      exact later
  · intro later
    refine .chunk (by rw [head]; exact accepted) ?_
    rw [head, tail]
    exact later

theorem commitBatch_leaves (fits : state.currentBatch.length ≤ chunk) :
    Leaves chunk state.committer state.currentBatch state.commitBatch.1 state.commitBatch.2.committer := by
  rcases commitBatch_cases state with ⟨he, hf⟩ | ⟨hn, hr, sink⟩
  · rw [hf, he]
    exact .whole .nil (append_nil _).symm
  · rw [hr, sink]
    have whole : state.currentBatch.take chunk = state.currentBatch := take_of_length_le fits
    cases ho : (C.commitBatch state.committer state.currentBatch).1 with
    | ok done => exact .whole (.of_fits fits (by rw [whole, ho])) (C.all _ _ ho)
    | error err =>
      refine .refused hn ?_ (C.nothing _ _ err ho)
      rw [whole, ho]
      exact nofun

theorem commitAll_cons (msg : DbWriterMessage) (msgs : List DbWriterMessage) :
    state.commitAll (msg :: msgs) = if (state.push msg).shouldFlush then match (state.push msg).commitBatch with
        | (.error err, flushed) => (.error err, flushed) | (.ok (), flushed) => flushed.commitAll msgs
      else (state.push msg).commitAll msgs := by
  rw [commitAll, pushAll]
  cases (state.push msg).shouldFlush with
  | false => rfl
  | true =>
    rcases (state.push msg).commitBatch with ⟨_ | done, flushed⟩
    · rfl
    · rfl

theorem commitAll_kept :
    (state.commitAll msgs).2.currentBatch = [] ∧ (state.commitAll msgs).2.config = state.config := by
  induction msgs generalizing state with
  | nil => exact state.commitBatch_kept
  | cons msg msgs ih =>
    rw [commitAll_cons]
    split
    · have kept := (state.push msg).commitBatch_kept
      rcases hf : (state.push msg).commitBatch with ⟨_ | done, after⟩
      · rw [hf] at kept
        exact kept
      · rw [hf] at kept
        exact ⟨(ih after).1, (ih after).2.trans kept.2⟩
    · exact ih (state.push msg)

theorem Leaves.after_chunk {before after : C.State} {first rest : List DbWriterMessage}
    {result : Except TransactionError Unit} (size : first.length = chunk) (nonempty : first ≠ [])
    (ha : (C.commitBatch before first).1 = .ok ())
    (leaves : Leaves chunk (C.commitBatch before first).2 rest result after) :
    Leaves chunk before (first ++ rest) result after := by
  have ht : (first ++ rest).take chunk = first := by rw [← size, take_left]
  have hs := C.all _ _ ha
  have both : Accepts chunk before (first ++ rest) ↔ _ := accepts_append_iff size nonempty ha
  cases leaves with
  | whole accepted kept => exact .whole (both.mpr accepted) (by rw [kept, hs, append_assoc])
  | refused more hf kept =>
    have rejected := mt both.mp fun accepted => hf (accepted.first more)
    exact .torn rejected (by rw [ht, ha]) nonempty (prefix_append first rest) (by rw [kept, hs])
  | torn rejected _ _ hi kept =>
    refine .torn (mt both.mp rejected) (by rw [ht, ha]) (by simp [nonempty]) ((prefix_append_right_inj first).mpr hi) ?_
    rw [kept, hs, append_assoc]

theorem commitAll_leaves (room : state.currentBatch.length < chunkSize state.config) :
    Leaves (chunkSize state.config) state.committer (state.currentBatch ++ msgs) (state.commitAll msgs).1
      (state.commitAll msgs).2.committer := by
  induction msgs generalizing state with
  | nil =>
    rw [append_nil]
    exact state.commitBatch_leaves (Nat.le_of_lt room)
  | cons msg msgs ih =>
    have hp : state.currentBatch ++ msg :: msgs = (state.push msg).currentBatch ++ msgs := by simp [push]
    have hl : (state.push msg).currentBatch.length = state.currentBatch.length + 1 := by simp [push]
    rw [commitAll_cons, hp]
    cases full : (state.push msg).shouldFlush with
    | false =>
      have hs : (state.push msg).currentBatch.length < chunkSize (state.push msg).config := by
        rw [shouldFlush, decide_eq_false_iff_not] at full
        exact Nat.lt_of_not_le fun long => full (Nat.le_trans (Nat.le_max_right _ _) long)
      exact ih (state.push msg) hs
    | true =>
      have chunk : (state.push msg).currentBatch.length = chunkSize state.config := by
        rw [shouldFlush, decide_eq_true_iff] at full
        exact Nat.le_antisymm (hl ▸ room) (Nat.max_le.mpr ⟨by omega, full⟩)
      have hn : (state.push msg).currentBatch ≠ [] := by simp [push]
      have kept := (state.push msg).commitBatch_kept
      rcases (state.push msg).commitBatch_cases with ⟨he, _⟩ | ⟨_, hr, sink⟩
      · exact absurd he hn
      rcases hf : (state.push msg).commitBatch with ⟨err | done, after⟩
      · rw [hf] at hr sink
        refine .refused (by simp [push]) ?_ ?_
        · rw [← chunk, take_left]
          exact fun ha => by cases hr.trans ha
        · exact (congrArg C.stored sink).trans (C.nothing _ _ err hr.symm)
      · rw [hf] at hr sink kept
        have rest := ih after (by rw [kept.1]; exact Nat.le_max_left 1 _)
        rw [kept.1, kept.2, nil_append, sink] at rest
        exact rest.after_chunk chunk hn hr.symm

theorem handle_kept {state : DbWriterActorState C} (he : state.currentBatch = []) (msg : DbWriterActorMsg) :
    (state.handle msg).2.currentBatch = [] ∧ (state.handle msg).2.config = state.config := by
  cases msg with
  | commit msgs =>
    have kept := state.commitAll_kept msgs
    rw [handle]
    rcases hr : state.commitAll msgs with ⟨err | done, after⟩
    · rwa [hr] at kept
    · rwa [hr] at kept
  | getMailboxDepth => exact ⟨he, rfl⟩
  | shutdown => exact state.commitBatch_kept

end DbWriterActorState

open DbWriterActorState (handle)

section

variable {C : TransactionCommitter}

abbrev Handled (C : TransactionCommitter) := Machine.Event (DbWriterActorState C) DbWriterActorMsg DbWriterActorReply

variable (event : Handled C)

def acknowledged : List DbWriterMessage := match event.call, event.reply with
  | .commit msgs, .committed (.ok ()) => msgs
  | _, _ => []

/-- A request stores its messages, in their order, if they are acknowledged, and nothing otherwise. -/
def Truthful : Prop := C.stored event.after.committer = C.stored event.before.committer ++ acknowledged event

/-- Before a Commit: its chunks are all accepted by the committer, or its first one is refused. -/
def WholeOrRefused (state : DbWriterActorState C) : DbWriterActorMsg → Prop
  | .commit msgs => DbWriterActorState.Accepts (DbWriterActorState.chunkSize state.config) state.committer msgs ∨
      (C.commitBatch state.committer (msgs.take (DbWriterActorState.chunkSize state.config))).1 ≠ .ok ()
  | .getMailboxDepth | .shutdown => True

theorem truthful_iff {state : DbWriterActorState C} (he : state.currentBatch = []) (msg : DbWriterActorMsg) :
    Truthful (Machine.event handle state msg) ↔ WholeOrRefused state msg := by
  cases msg with
  | getMailboxDepth => simp [Truthful, WholeOrRefused, acknowledged, Machine.event, handle]
  | shutdown =>
    simp [Truthful, WholeOrRefused, acknowledged, Machine.event, handle,
      DbWriterActorState.commitBatch, he]
  | commit msgs =>
    have hl := state.commitAll_leaves msgs (by rw [he]; exact Nat.le_max_left 1 _)
    rw [he, nil_append] at hl
    simp only [Truthful, WholeOrRefused, acknowledged, Machine.event, handle]
    rcases hr : state.commitAll msgs with ⟨err | done, after⟩
    · rw [hr] at hl
      cases hl with
      | refused _ hf hs => simp [hs, hf]
      | torn rejected hf hn _ hs => simp [hs, hf, hn, rejected]
    · rw [hr] at hl
      cases hl with
      | whole accepted hs => simp [hs, accepted]

theorem wholeOrRefused_of_fits {state : DbWriterActorState C} {msgs : List DbWriterMessage}
    (fits : msgs.length ≤ state.config.maxBatchSize) : WholeOrRefused state (.commit msgs) := by
  rw [WholeOrRefused, or_iff_not_imp_right, not_not]
  exact .of_fits (Nat.le_trans fits (Nat.le_max_right 1 _))

variable {requests : List DbWriterActorMsg} {start : DbWriterActorState C}

theorem truthful_trace_iff (he : start.currentBatch = []) :
    (∀ event ∈ Machine.trace handle start requests, Truthful event) ↔
      Machine.Guarded handle WholeOrRefused start requests := by
  induction requests generalizing start with
  | nil => exact ⟨fun _ => trivial, nofun⟩
  | cons req requests ih =>
    rw [Machine.trace, forall_mem_cons, truthful_iff he req, ih (DbWriterActorState.handle_kept he req).1]
    rfl

theorem guarded_of_fits (he : start.currentBatch = [])
    (fits : ∀ msgs, .commit msgs ∈ requests → msgs.length ≤ start.config.maxBatchSize) :
    Machine.Guarded handle WholeOrRefused start requests := by
  induction requests generalizing start with
  | nil => exact trivial
  | cons req requests ih =>
    obtain ⟨kept, config⟩ := DbWriterActorState.handle_kept he req
    refine ⟨?_, ih kept ?_⟩
    · cases req with
      | commit msgs => exact wholeOrRefused_of_fits (fits msgs mem_cons_self)
      | getMailboxDepth | shutdown => exact trivial
    · rw [config]
      exact fun msgs mem => fits msgs (mem_cons_of_mem _ mem)

theorem stored_final (ht : ∀ event ∈ Machine.trace handle start requests, Truthful event) :
    C.stored (Machine.final handle start requests).committer =
      C.stored start.committer ++ (Machine.trace handle start requests).flatMap acknowledged := by
  induction requests generalizing start with
  | nil => exact (append_nil _).symm
  | cons req requests ih =>
    have here : C.stored (start.handle req).2.committer = C.stored start.committer ++ acknowledged _ :=
      ht _ mem_cons_self
    rw [Machine.final, ih fun event mem => ht event (mem_cons_of_mem _ mem), Machine.trace,
      flatMap_cons, ← append_assoc, ← here]

/-- Replies are truthful exactly if each Commit is accepted as a whole or refused at its first chunk, and so always
    if no Commit has more messages than a batch. -/
theorem commit_replies_truthful_iff (committer : C.State) (config : DbWriterActorConfig)
    (requests : List DbWriterActorMsg) :
    ((∀ event ∈ Machine.trace handle (.new committer config) requests, Truthful event) ↔
        Machine.Guarded handle WholeOrRefused (.new committer config) requests) ∧
      ((∀ event ∈ Machine.trace handle (.new committer config) requests, Truthful event) →
        C.stored (Machine.final handle (.new committer config) requests).committer =
          C.stored committer ++
            (Machine.trace handle (.new committer config) requests).flatMap acknowledged) ∧
      ((∀ msgs, .commit msgs ∈ requests → msgs.length ≤ config.maxBatchSize) →
        ∀ event ∈ Machine.trace handle (.new committer config) requests, Truthful event) :=
  ⟨truthful_trace_iff rfl, stored_final, fun fits => (truthful_trace_iff rfl).mpr (guarded_of_fits rfl fits)⟩

end

end

section Sample

open DbWriterActorState (handle)

attribute [local instance] Ulid.Crockford.codec

def refusing (call : Nat) : TransactionCommitter where
  State := Nat × List DbWriterMessage
  stored := Prod.snd
  commitBatch state msgs :=
    if state.1 = call then (.error (.storageCommitFailed "batch commit: disk full"), state.1 + 1, state.2)
    else (.ok (), state.1 + 1, state.2 ++ msgs)
  all state msgs accepted := by
    split at accepted
    · cases accepted
    · simp [*]
  nothing state msgs failure refused := by
    split at refused
    · simp [*]
    · cases refused

def sampleStatus (byte : UInt8) : DbWriterMessage := .recordInstanceStatus (InstanceId.ofUlid 1) byte

def sampleState : DbWriterActorState (refusing 1) := .new (0, []) ⟨10000, 100, 1⟩

theorem torn_commit : (sampleState.handle (.commit [sampleStatus 2, sampleStatus 4])).1 =
      .committed (.error (.commitFailed "storage commit failed: batch commit: disk full")) ∧
    (refusing 1).stored (sampleState.handle (.commit [sampleStatus 2, sampleStatus 4])).2.committer = [sampleStatus 2] ∧
    ¬ Truthful (Machine.event handle sampleState (.commit [sampleStatus 2, sampleStatus 4])) := by
  refine ⟨rfl, rfl, ?_⟩
  intro ht
  have hl := congrArg List.length ht
  exact absurd hl (by decide)

/-- The first Commit is accepted in two chunks, the second is refused at its first one. -/
def sampleRequests : List DbWriterActorMsg :=
  [.commit [sampleStatus 2, sampleStatus 3], .commit [sampleStatus 4, sampleStatus 5], .commit [sampleStatus 6]]

theorem commit_replies_truthful_iff_sample :
    (∀ event ∈ Machine.trace handle (.new (0, []) ⟨10000, 100, 1⟩ : DbWriterActorState (refusing 2))
        sampleRequests, Truthful event) ∧ (refusing 2).stored (Machine.final handle
        (.new (0, []) ⟨10000, 100, 1⟩ : DbWriterActorState (refusing 2)) sampleRequests).committer =
        [sampleStatus 2, sampleStatus 3, sampleStatus 6] := by
  obtain ⟨hh, log, _⟩ := @commit_replies_truthful_iff _ (refusing 2) (0, []) ⟨10000, 100, 1⟩ sampleRequests
  have ht := hh.mpr ⟨.inl (.chunk rfl (.chunk rfl .nil)), .inr nofun, .inl (.chunk rfl .nil), trivial⟩
  exact ⟨ht, log ht⟩

end Sample

end Veloxide.Writer
