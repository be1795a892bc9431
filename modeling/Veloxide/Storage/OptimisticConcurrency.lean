import Veloxide.Library.JsonText
import Veloxide.Storage.EventStore

namespace Veloxide.EventStore.FjallEventStore

open ByteCodec OrderedStore Machine List

/-- An append with its two readings of the clock, or opening the store with other options. -/
inductive Call
  | append (events : List EventEnvelope) (reading since : Nat)
  | reopen (options : FjallEventStoreOptions)

inductive Reply
  | appended (result : Except EventStoreError UInt64)
  | reopened
deriving DecidableEq

def Call.events : Call → List EventEnvelope
  | append events _ _ => events
  | reopen _ => []

def appended (event : Event FjallEventStore Call Reply) : List UInt64 := match event.reply with
  | .appended (.ok _) => event.call.events.map EventEnvelope.sequence
  | _ => []

def finalSequence (event : Event FjallEventStore Call Reply) : Option UInt64 := match event.reply with
  | .appended (.ok final) => some final
  | _ => none

def lastSequence (history : List (Event FjallEventStore Call Reply)) : UInt64 :=
  (history.reverse.findSome? finalSequence).getD 0

theorem lastSequence_append_singleton (history : List (Event FjallEventStore Call Reply))
    (event : Event FjallEventStore Call Reply) :
    lastSequence (history ++ [event]) = (finalSequence event).getD (lastSequence history) := by
  cases hf : finalSequence event <;> simp [lastSequence, hf]

section

variable [Ulid]

/-- An append that will be accepted is about to store its events under other bytes than the instance's own. -/
def Scrambled (instanceId : InstanceId) (store : FjallEventStore) : Call → Prop
  | .append events reading since => store.Next instanceId events ∧
    keyId instanceId (store.isHot instanceId reading since) ≠ instanceId.bytes
  | .reopen _ => False

/-- What the partition holds after a history: the events up to the last sequence. -/
structure Recorded (instanceId : InstanceId) (history : List (Event FjallEventStore Call Reply))
    (store : FjallEventStore) : Prop where
  stored : Contiguous instanceId.bytes store.partition (lastSequence history)
  bounded : ∀ event ∈ history, ∀ sequence ∈ appended event, sequence ≤ lastSequence history

variable {history : List (Event FjallEventStore Call Reply)} {inst : InstanceId}
  {store : FjallEventStore}

theorem Recorded.current (hr : Recorded inst history store) :
    getCurrentSequence store.partition inst = .ok (lastSequence history) := by
  rw [getCurrentSequence_eq, hr.stored.largest inst.length_bytes]

theorem Recorded.quiet {after : FjallEventStore} (hr : Recorded inst history store)
    {event : Event FjallEventStore Call Reply} (kept : after.partition = store.partition)
    (hn : appended event = []) (quiet : finalSequence event = none) : Recorded inst (history ++ [event]) after := by
  have last : lastSequence (history ++ [event]) = lastSequence history := by
    rw [lastSequence_append_singleton, quiet]
    rfl
  refine ⟨?_, ?_⟩
  · rw [last, kept]
    exact hr.stored
  · intro other mem seq hc
    rw [last]
    rcases mem_append.mp mem with he | here
    · exact hr.bounded other he seq hc
    · rw [mem_singleton.mp here, hn] at hc
      contradiction

theorem recorded_empty (inst : InstanceId) : Recorded inst [] empty := by
  refine ⟨?_, nofun⟩
  intro key
  constructor
  · intro hp
    cases hp
  · intro hf
    obtain ⟨seq, hn, most, _⟩ := hf
    exact absurd (UInt64.le_antisymm most UInt64.zero_le) hn

def Call.cold (instanceId : InstanceId) (store : FjallEventStore) : Call → Bool
  | .append _ reading since => !store.isHot instanceId reading since
  | .reopen _ => true

theorem not_scrambled_of_cold {call : Call} (cold : call.cold inst store = true) : ¬ Scrambled inst store call := by
  cases call with
  | reopen options => exact id
  | append events reading since =>
    rintro ⟨_, other⟩
    rw [keyId, if_neg (by simpa [Call.cold] using cold)] at other
    exact other rfl

variable [JsonCodec]

def step (instanceId : InstanceId) (store : FjallEventStore) : Call → Reply × FjallEventStore
  | .append events reading since => (store.append instanceId events reading since).map .appended id
  | .reopen options => (.reopened, openWithOptions store.partition options)

structure OptimisticConcurrency (instanceId : InstanceId) (calls : List Call) : Prop where
  disjoint : (trace (step instanceId) empty calls).Pairwise fun first second =>
    (appended first).Disjoint (appended second)
  preserved : ∀ event ∈ trace (step instanceId) empty calls, ∀ key value : Bytes,
    event.before.partition[key]? = some value → event.after.partition[key]? = some value
  current : ∀ done rest, calls = done ++ rest →
    getCurrentSequence (final (step instanceId) empty done).partition instanceId =
      .ok (lastSequence (trace (step instanceId) empty done))

theorem Recorded.step_cases (hr : Recorded inst history store) (call : Call)
    (hn : ∀ event ∈ call.events, event.sequence ≠ 0) : (appended (Machine.event (step inst) store call) = [] ∧
        finalSequence (Machine.event (step inst) store call) = none ∧
        (step inst store call).2.partition = store.partition ∧ ¬ Scrambled inst store call) ∨
      ∃ events reading since final, call = .append events reading since ∧ (Scrambled inst store call ↔
          keyId inst (store.isHot inst reading since) ≠ inst.bytes) ∧
        (step inst store call).1 = .appended (.ok final) ∧
        (∀ sequence, sequence ∈ events.map EventEnvelope.sequence ↔ lastSequence history < sequence ∧ sequence ≤ final) ∧
        lastSequence history < final ∧ (step inst store call).2.partition =
          commit store.partition (events.map (entry (keyId inst (store.isHot inst reading since)))) := by
  cases call with
  | reopen options => exact .inl ⟨rfl, rfl, rfl, id⟩
  | append events reading since =>
    rcases append_cases store inst events reading since with
      ⟨late, failure, hb, kept⟩ | ⟨first, rest, hs, ho, he, final, hc⟩
    · left
      simp only [appended, finalSequence, Machine.event, step, Prod.map, hb]
      exact ⟨trivial, trivial, kept, fun scrambled => late scrambled.1⟩
    · right
      subst hs
      have hd := mem_sequences ho hn
      have due : store.Next inst (first :: rest) := ⟨first, rest, _, rfl, ho, he, (UInt64.sub_add_cancel _ _).symm⟩
      have next : lastSequence history = first.sequence - 1 := Except.ok.inj (hr.current.symm.trans he)
      have hf : first.sequence ≠ 0 := hn first mem_cons_self
      have ha : ∀ sequence, lastSequence history < sequence ↔ first.sequence ≤ sequence := by
        intro sequence
        have hp : first.sequence.toNat ≠ 0 := fun zero => hf (UInt64.toNat.inj zero)
        have one : (1 : UInt64).toNat = 1 := rfl
        have hu : (first.sequence - 1).toNat = first.sequence.toNat - 1 :=
          UInt64.toNat_sub_of_le _ _ (UInt64.le_iff_toNat_le.mpr (by omega))
        rw [next, UInt64.lt_iff_toNat_lt, UInt64.le_iff_toNat_le, hu]
        omega
      refine ⟨first :: rest, reading, since, _, rfl, and_iff_right due, congrArg Reply.appended final, ?_, ?_, hc⟩
      · intro sequence
        rw [hd, ha]
      · rw [ha]
        exact ((hd _).mp (by simp)).2

theorem Recorded.step (hr : Recorded inst history store) (call : Call)
    (hn : ∀ event ∈ call.events, event.sequence ≠ 0) (hp : ¬ Scrambled inst store call) :
    Recorded inst (history ++ [Machine.event (FjallEventStore.step inst) store call])
        (FjallEventStore.step inst store call).2 ∧ (∀ key value : Bytes, store.partition[key]? = some value →
        (FjallEventStore.step inst store call).2.partition[key]? = some value) ∧ ∀ past ∈ history,
        (appended past).Disjoint (appended (Machine.event (FjallEventStore.step inst) store call)) := by
  rcases hr.step_cases call hn with
    ⟨ho, hq, kept, _⟩ | ⟨events, reading, since, final, made, hs, he, hb, hl, hc⟩
  · refine ⟨hr.quiet kept ho hq, ?_, ?_⟩
    · intro key value held
      rw [kept]
      exact held
    · intro past _
      rw [ho]
      exact disjoint_nil_right _
  · have hd : appended (Machine.event (FjallEventStore.step inst) store call) =
        events.map EventEnvelope.sequence := by
      simp only [appended, Machine.event, he]
      rw [made]
      rfl
    have last : lastSequence (history ++ [Machine.event (FjallEventStore.step inst) store call]) = final := by
      rw [lastSequence_append_singleton]
      simp only [finalSequence, Machine.event, he, Option.getD_some]
    rw [not_not.mp (mt hs.mpr hp)] at hc
    have ha : ∀ event ∈ events, lastSequence history < event.sequence := fun event mem =>
      ((hb event.sequence).mp (mem_map_of_mem mem)).1
    refine ⟨⟨?_, ?_⟩, ?_, ?_⟩
    · rw [last, hc]
      exact hr.stored.commit hb hl
    · intro event mem seq hf
      rw [last]
      rcases mem_append.mp mem with past | here
      · exact UInt64.le_trans (hr.bounded event past seq hf) (UInt64.le_of_lt hl)
      · rw [mem_singleton.mp here, hd] at hf
        exact ((hb seq).mp hf).2
    · intro key value held
      rw [hc]
      exact hr.stored.commit_preserves ha held
    · intro past mem seq old new
      rw [hd] at new
      exact UInt64.not_lt.mpr (hr.bounded past mem seq old) ((hb seq).mp new).1

variable {calls : List Call} {call : Call}

theorem OptimisticConcurrency.snoc (hh : OptimisticConcurrency inst calls)
    (hd : ∀ past ∈ trace (step inst) empty calls,
      (appended past).Disjoint (appended (Machine.event (step inst) (Machine.final (step inst) empty calls) call)))
    (hp : ∀ key value : Bytes, (Machine.final (step inst) empty calls).partition[key]? = some value →
      (step inst (Machine.final (step inst) empty calls) call).2.partition[key]? = some value)
    (hc : getCurrentSequence (Machine.final (step inst) empty (calls ++ [call])).partition inst =
      .ok (lastSequence (trace (step inst) empty (calls ++ [call])))) :
    OptimisticConcurrency inst (calls ++ [call]) := by
  refine ⟨?_, ?_, ?_⟩
  · rw [trace_append_singleton, pairwise_append]
    refine ⟨hh.disjoint, pairwise_singleton _ _, ?_⟩
    intro past mem here same
    rw [mem_singleton.mp same]
    exact hd past mem
  · intro event mem
    rw [trace_append_singleton] at mem
    rcases mem_append.mp mem with past | here
    · exact hh.preserved event past
    · rw [mem_singleton.mp here]
      exact hp
  · intro done rest hs
    rcases eq_nil_or_concat' rest with hn | ⟨shorter, final, hl⟩
    · rw [hn, append_nil] at hs
      rw [← hs]
      exact hc
    · rw [hl, ← append_assoc] at hs
      exact hh.current done shorter (append_inj' hs rfl).1

theorem OptimisticConcurrency.initial (hh : OptimisticConcurrency inst (calls ++ [call])) :
    OptimisticConcurrency inst calls := by
  refine ⟨?_, ?_, ?_⟩
  · have hp := hh.disjoint
    rw [trace_append_singleton, pairwise_append] at hp
    exact hp.1
  · intro event mem
    apply hh.preserved event
    rw [trace_append_singleton]
    exact mem_append_left _ mem
  · intro done rest hs
    apply hh.current done (rest ++ [call])
    rw [hs, append_assoc]

theorem recorded_run (hn : ∀ call ∈ calls, ∀ event ∈ call.events, event.sequence ≠ 0)
    (hl : ∀ event ∈ trace (step inst) empty calls, ¬ Scrambled inst event.before event.call) :
    Recorded inst (trace (step inst) empty calls) (final (step inst) empty calls) ∧
      OptimisticConcurrency inst calls := by
  induction calls using List.reverseRecOn with
  | nil =>
    refine ⟨recorded_empty inst, List.Pairwise.nil, nofun, ?_⟩
    intro done rest hs
    rw [(append_eq_nil_iff.mp hs.symm).1]
    exact (recorded_empty inst).current
  | append_singleton calls call ih =>
    rw [trace_append_singleton] at hl
    obtain ⟨hr, hh⟩ := ih (fun other mem => hn other (mem_append_left _ mem))
      (fun event mem => hl event (mem_append_left _ mem))
    obtain ⟨next, hp, hd⟩ := hr.step call (hn call (by simp)) (hl _ (mem_append_right _ mem_cons_self))
    have ha : Recorded inst (trace (step inst) empty (calls ++ [call]))
        (final (step inst) empty (calls ++ [call])) := by
      rw [trace_append_singleton, final_append]
      exact next
    exact ⟨ha, hh.snoc hd hp ha.current⟩

theorem Recorded.scrambled_breaks (hr : Recorded inst history store) (hn : ∀ event ∈ call.events, event.sequence ≠ 0)
    (scrambled : Scrambled inst store call) :
    getCurrentSequence (FjallEventStore.step inst store call).2.partition inst ≠
      .ok (lastSequence (history ++ [Machine.event (FjallEventStore.step inst) store call])) := by
  rcases hr.step_cases call hn with
    ⟨_, _, _, kept⟩ | ⟨events, reading, since, final, made, hs, he, ha, hl, hc⟩
  · exact absurd scrambled kept
  · have last : lastSequence (history ++ [Machine.event (FjallEventStore.step inst) store call]) = final := by
      rw [lastSequence_append_singleton]
      simp only [finalSequence, Machine.event, he, Option.getD_some]
    have hb := hr.stored.largest_le_of_scrambled inst.length_bytes (length_keyId _ _) (hs.mp scrambled) events
    rw [getCurrentSequence_eq, hc, last]
    intro same
    rw [Except.ok.inj same] at hb
    exact UInt64.not_lt.mpr hb hl

/-- It is optimistic concurrency control exactly without a scrambled append; zero means a wrap. -/
theorem optimistic_concurrency_iff (instanceId : InstanceId) {calls : List Call}
    (nonzero : ∀ call ∈ calls, ∀ event ∈ call.events, event.sequence ≠ 0) : OptimisticConcurrency instanceId calls ↔
      ∀ event ∈ trace (step instanceId) empty calls, ¬ Scrambled instanceId event.before event.call := by
  constructor
  · intro hh
    induction calls using List.reverseRecOn with
    | nil => exact nofun
    | append_singleton calls call ih =>
      have he : ∀ other ∈ calls, ∀ event ∈ other.events, event.sequence ≠ 0 :=
        fun other mem => nonzero other (mem_append_left _ mem)
      have ha := ih he hh.initial
      have hr := (recorded_run he ha).1
      have hc := hh.current (calls ++ [call]) [] (append_nil _).symm
      rw [trace_append_singleton, final_append] at hc
      intro event mem
      rw [trace_append_singleton] at mem
      rcases mem_append.mp mem with hb | here
      · exact ha event hb
      · rw [mem_singleton.mp here]
        intro hs
        exact hr.scrambled_breaks (nonzero call (by simp)) hs hc
  · intro hp
    exact (recorded_run nonzero hp).2

end

section Sample

attribute [local instance] Ulid.Crockford.codec Json.Text.codec

def sampleId : InstanceId := InstanceId.ofUlid 1

def sampleEvent (sequence : UInt64) : EventEnvelope :=
  ⟨1, sampleId.text, sequence, 1000, .object [("type", .string "TestEvent")], .default⟩

/-- A detector that does not find the instance hot, a batch, a conflict, and the same database without a detector. -/
def coldRun : List Call := [.reopen ⟨some ⟨100, 500, 1000⟩⟩, .append [sampleEvent 1] 0 0,
  .append [sampleEvent 2, sampleEvent 3] 10 10, .append [sampleEvent 3] 20 20, .reopen ⟨none⟩, .append [sampleEvent 4] 0 0]

theorem optimistic_concurrency_default : OptimisticConcurrency sampleId coldRun := by
  refine (optimistic_concurrency_iff sampleId (by decide)).mpr ?_
  have cold : ∀ event ∈ trace (step sampleId) empty coldRun, event.call.cold sampleId event.before = true := by
    decide +kernel
  exact fun event mem => not_scrambled_of_cold (cold event mem)

def hotRun : List Call := [.reopen ⟨some ⟨1, 500, 1000⟩⟩, .append [sampleEvent 1] 0 0, .append [sampleEvent 1] 0 0]

theorem hot_append_repeats_sequence : (trace (step sampleId) empty hotRun).map Event.reply =
      [.reopened, .appended (.ok 1), .appended (.ok 1)] ∧
    getCurrentSequence (final (step sampleId) empty hotRun).partition sampleId = .ok 0 ∧
    ¬ OptimisticConcurrency sampleId hotRun := by
  have hc : getCurrentSequence (final (step sampleId) empty hotRun).partition sampleId = .ok 0 := by
    decide +kernel
  refine ⟨by decide +kernel, hc, fun hh => ?_⟩
  have hs := hc.symm.trans (hh.current hotRun [] (append_nil _).symm)
  exact absurd hs (by decide +kernel)

end Sample

end Veloxide.EventStore.FjallEventStore
