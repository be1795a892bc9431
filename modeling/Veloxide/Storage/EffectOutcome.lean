import Veloxide.Library.CheckThenAct
import Veloxide.Storage.EffectJournal

namespace Veloxide.EffectJournal

open ByteCodec OrderedStore List Function

section

variable {Caller : Type}

/-- A commit or rollback stands before its read, before its insertion, or is answered. -/
inductive Phase
  | ready
  | checked (value : Bytes)
  | answered (result : Except EffectJournalError Unit)

structure System (Caller : Type) where
  journal : Journal
  phase : Caller → Phase

def System.start (journal : Journal) : System Caller := ⟨journal, fun _ => .ready⟩

def Phase.outline : Phase → CheckThenAct.Phase
  | ready => .idle
  | checked _ => .passed
  | answered (.ok ()) => .acted
  | answered (.error _) => .refused

theorem outline_eq_acted {phase : Phase} : phase.outline = .acted ↔ phase = .answered (.ok ()) := by
  cases phase with
  | ready | checked value => simp [Phase.outline]
  | answered result => rcases result with err | _ <;> simp [Phase.outline]

variable [Ulid] [JsonCodec] [Zstd]

/-- All calls that succeeded are of one kind, and the entry has the status that they gave it. -/
structure Agrees (key : Bytes) (kind : Caller → Conclusion) (system : System Caller) : Prop where
  exclusive : ∀ left right, system.phase left = .answered (.ok ()) → system.phase right = .answered (.ok ()) →
    kind left = kind right
  stored : ∃ record, readRecord system.journal key = .ok (some record) ∧
    (∀ caller, system.phase caller = .answered (.ok ()) → record.status = (kind caller).status) ∧
    ((∀ caller, system.phase caller ≠ .answered (.ok ())) → record.status = .prepared)

structure Refines (key : Bytes) (kind : Caller → Conclusion) (system : System Caller)
    (state : CheckThenAct.State Caller) : Prop where
  phase : ∀ caller, state.phase caller = (system.phase caller).outline
  checked : ∀ caller value, system.phase caller = .checked value →
    ∃ record, decodeEffectRecord value = .ok record ∧ record.status = (kind caller).status
  pending : state.closed = false → (∀ caller, system.phase caller ≠ .answered (.ok ())) ∧
    ∃ record, readRecord system.journal key = .ok (some record) ∧ record.status = .prepared ∧ record.intentId ≠ ""
  settled : state.closed = true → ∃ holder record, system.phase holder = .answered (.ok ()) ∧
    readRecord system.journal key = .ok (some record) ∧ record.status = (kind holder).status

variable {system : System Caller} {state : CheckThenAct.State Caller} {key : Bytes} {kind : Caller → Conclusion}

omit [Ulid] in
theorem Refines.agrees_iff (hr : Refines key kind system state) : Agrees key kind system ↔
    ∀ left right, state.phase left = .acted → state.phase right = .acted → kind left = kind right := by
  simp only [hr.phase, outline_eq_acted]
  constructor
  · exact Agrees.exclusive
  · intro he
    refine ⟨he, ?_⟩
    cases hc : state.closed with
    | false =>
      obtain ⟨hu, record, hb, hp, _⟩ := hr.pending hc
      exact ⟨record, hb, fun caller ha => absurd ha (hu caller), fun _ => hp⟩
    | true =>
      obtain ⟨holder, record, hh, hb, hs⟩ := hr.settled hc
      refine ⟨record, hb, ?_, fun hu => absurd hh (hu holder)⟩
      intro caller ha
      rw [hs, he caller holder ha hh]

variable [DecidableEq Caller] (effectId : EffectId)

def System.step (key : Bytes) (kind : Caller → Conclusion) (system : System Caller) (caller : Caller) : System Caller :=
  match system.phase caller with
  | .ready =>
    match nextEntry (kind caller) effectId system.journal key with
    | .error failure => { system with phase := update system.phase caller (.answered (.error failure)) }
    | .ok value => { system with phase := update system.phase caller (.checked value) }
  | .checked value =>
    ⟨system.journal.insert key value, update system.phase caller (.answered (.ok ()))⟩
  | .answered _ => system

def System.run (key : Bytes) (kind : Caller → Conclusion) (system : System Caller) (schedule : List Caller) :
    System Caller :=
  schedule.foldl (System.step effectId key kind) system

omit [Ulid] in
theorem Refines.update_checked (hr : Refines key kind system state) (caller : Caller) {next : Phase}
    (hh : ∀ value, next = .checked value → ∃ record, decodeEffectRecord value = .ok record ∧ record.status =
      (kind caller).status)
    (other : Caller) (value : Bytes) (hc : update system.phase caller next other = .checked value) :
    ∃ record, decodeEffectRecord value = .ok record ∧ record.status = (kind other).status := by
  by_cases self : other = caller
  · rw [self, update_self] at hc
    rw [self]
    exact hh value hc
  · rw [update_of_ne self] at hc
    exact hr.checked other value hc

omit [Ulid] in
theorem Refines.step (hr : Refines key kind system state) (caller : Caller) :
    Refines key kind (System.step effectId key kind system caller) (CheckThenAct.step state caller) := by
  have here := hr.phase caller
  have ho := CheckThenAct.update_outline Phase.outline hr.phase caller
  rw [System.step, CheckThenAct.step]
  cases ha : system.phase caller with
  | ready =>
    rw [ha] at here
    simp only [here, Phase.outline]
    cases hc : state.closed with
    | false =>
      obtain ⟨hu, record, he, hp, hn⟩ := hr.pending hc
      obtain ⟨value, decoded, next, hd, same⟩ := nextEntry_prepared he hp hn (kind caller) effectId
      simp only [next, Bool.false_eq_true, ↓reduceIte]
      refine ⟨ho (.checked value), hr.update_checked caller ?_,
        fun _ => ⟨?_, record, he, hp, hn⟩, fun hi => (by cases hi)⟩
      · intro inserted hb
        cases hb
        exact ⟨decoded, hd, same.status⟩
      · intro other
        by_cases self : other = caller
        · simp [self]
        · simp only [update_of_ne self]
          exact hu other
    | true =>
      obtain ⟨holder, record, hh, he, hs⟩ := hr.settled hc
      have ht : record.status.isTerminal = true := by
        rw [hs]
        cases kind holder <;> rfl
      have other : holder ≠ caller := by
        intro self
        rw [self, ha] at hh
        cases hh
      simp only [nextEntry_terminal he ht, ↓reduceIte]
      refine ⟨ho (.answered (.error _)), hr.update_checked caller (fun _ hb => by cases hb),
        fun hi => (by cases hi), fun _ => ⟨holder, record, ?_, he, hs⟩⟩
      simp only [update_of_ne other]
      exact hh
  | checked value =>
    rw [ha] at here
    simp only [here, Phase.outline]
    obtain ⟨record, hd, hs⟩ := hr.checked caller value ha
    exact ⟨ho (.answered (.ok ())), hr.update_checked caller (fun _ hb => by cases hb), fun hi => (by cases hi),
      fun _ => ⟨caller, record, by simp, readRecord_insert system.journal key hd, hs⟩⟩
  | answered result =>
    rw [ha] at here
    rcases result with err | _
    all_goals
      simp only [here, Phase.outline]
      exact hr

theorem Prepared.refines_run {journal : Journal} {effectId : EffectId} (hp : Prepared journal effectId key)
    (kind : Caller → Conclusion) (schedule : List Caller) :
    Refines key kind (System.run effectId key kind (System.start journal) schedule)
      (CheckThenAct.run CheckThenAct.start schedule) :=
  foldl_rel
    ⟨fun _ => rfl, fun _ _ hc => (by cases hc), fun _ => ⟨fun _ ha => (by cases ha), hp.pending⟩, fun hi => (by cases hi)⟩
    (fun caller _ _ _ hr => hr.step effectId caller)

/-- They agree unless a call of the other kind reads before the first insertion and inserts after it. -/
theorem outcome_agreement_iff {journal : Journal} {effectId : EffectId} {key : Bytes}
    (prepared : Prepared journal effectId key) (kind : Caller → Conclusion) (schedule : List Caller) :
    Agrees key kind (System.run effectId key kind (System.start journal) schedule) ↔
      ¬ CheckThenAct.Conflicts kind schedule := by
  rw [(prepared.refines_run kind schedule).agrees_iff, CheckThenAct.acted_agree_iff]

end

section Sample

attribute [local instance] Ulid.Crockford.codec Json.Text.codec Zstd.stored

def sampleKind (caller : Bool) : Conclusion := if caller then .commit else .rollback

theorem outcome_agreement_in_turn : Prepared sampleJournal sampleEffect sampleKey ∧ Agrees sampleKey sampleKind
    (System.run sampleEffect sampleKey sampleKind (System.start sampleJournal) [true, true, false, false]) := by
  refine ⟨sample_prepared, (outcome_agreement_iff sample_prepared sampleKind [true, true, false, false]).mpr ?_⟩
  intro hc
  obtain ⟨before, first, after, hs, hi, ha, second, hh, hd, _⟩ := hc
  match before with
  | [] => simp at ha
  | [only] =>
    rw [mem_singleton.mp ha, mem_singleton.mp hh] at hd
    exact hd rfl
  | left :: right :: rest =>
    simp only [cons_append, List.cons.injEq] at hs
    rw [← hs.1, ← hs.2.1] at hi
    simp at hi

theorem commit_and_rollback_succeed : Prepared sampleJournal sampleEffect sampleKey ∧
    (∀ caller, (System.run sampleEffect sampleKey sampleKind (System.start sampleJournal)
      [true, false, true, false]).phase caller = .answered (.ok ())) ∧
    (readRecord (System.run sampleEffect sampleKey sampleKind (System.start sampleJournal)
      [true, false, true, false]).journal sampleKey).map (Option.map EffectRecord.status) = .ok (some .rolledBack) := by
  refine ⟨sample_prepared, ?_, by decide +kernel⟩
  intro caller
  have acted : (CheckThenAct.run CheckThenAct.start [true, false, true, false]).phase caller = .acted := by
    cases caller <;> rfl
  rw [(sample_prepared.refines_run sampleKind [true, false, true, false]).phase] at acted
  exact outline_eq_acted.mp acted

end Sample

end Veloxide.EffectJournal
