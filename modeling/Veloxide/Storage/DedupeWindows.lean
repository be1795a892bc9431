import Veloxide.Storage.InMemoryDedupe

namespace Veloxide.Dedupe

open OrderedStore Machine List

section

variable [Ulid]

def admitted (key : DedupeKey) (request : Request) : Call × Reply :=
  (.checkAndInsert key request, .admission (.ok .admitted))

/-- An insertion is admitted exactly if no window of its key is still open. -/
structure Windowed (answers : List (Call × Reply)) : Prop where
  first : ∀ before key request reply after, answers = before ++ (.checkAndInsert key request, reply) :: after →
      (reply = .admission (.ok .admitted) ↔
        request.ttlMs ≠ 0 ∧ ∀ other, admitted key other ∈ before → other.expiresAt ≤ request.nowMs)
  later : ∀ before key request reply after other,
    answers = before ++ (.checkAndInsert key request, reply) :: after → request.ttlMs ≠ 0 →
      admitted key other ∈ before → request.nowMs < other.expiresAt →
        reply = .admission (.ok (.duplicate other.instanceId.text))

structure Tracks (earlier : List (Call × Reply)) (entries : InMemory.Entries) : Prop where
  alive : ∀ key request, admitted key request ∈ earlier → ∀ nowMs, (∀ answer ∈ earlier, answer.1.nowMs ≤ nowMs) →
    nowMs < request.expiresAt → entries[key.value]? = some (request.entry key)
  opened : ∀ (key : DedupeKey) entry, entries[key.value]? = some entry →
    ∃ request, admitted key request ∈ earlier ∧ entry = request.entry key

variable {earlier : List (Call × Reply)} {entries : InMemory.Entries}

theorem Tracks.checkAndInsert (ht : Tracks earlier entries) (key : DedupeKey) (req : Request)
    (ha : ∀ answer ∈ earlier, answer.1.nowMs ≤ req.nowMs) :
    (req.ttlMs = 0 ∧ InMemory.checkAndInsert entries key req = (.error .invalidArgument, entries)) ∨
      (req.ttlMs ≠ 0 ∧ ∃ other, admitted key other ∈ earlier ∧ req.nowMs < other.expiresAt ∧
        InMemory.checkAndInsert entries key req = (.ok (.duplicate other.instanceId.text), entries)) ∨
      (req.ttlMs ≠ 0 ∧ (∀ other, admitted key other ∈ earlier → other.expiresAt ≤ req.nowMs) ∧
        InMemory.checkAndInsert entries key req = (.ok .admitted, entries.insert key.value (req.entry key))) := by
  rw [InMemory.checkAndInsert]
  split_ifs with zero
  · exact .inl ⟨zero, rfl⟩
  · right
    have hc (gone : ∀ entry, entries[key.value]? = some entry → entry.isExpired req.nowMs = true) :
        ∀ other, admitted key other ∈ earlier → other.expiresAt ≤ req.nowMs := by
      intro other mem
      by_contra he
      have held := ht.alive key other mem req.nowMs ha (UInt64.not_le.mp he)
      exact he (of_decide_eq_true (gone _ held))
    cases held : entries[key.value]? with
    | none =>
      rw [held] at hc
      exact .inr ⟨zero, hc fun _ hi => (by cases hi), InMemory.insertEntry_eq entries key req⟩
    | some entry =>
      simp only
      split_ifs with expired
      · refine .inr ⟨zero, hc ?_, InMemory.insertEntry_eq entries key req⟩
        intro other hf
        rw [held] at hf
        cases hf
        exact expired
      · left
        obtain ⟨other, mem, same⟩ := ht.opened key entry held
        refine ⟨zero, other, mem, ?_, by rw [same]; rfl⟩
        rw [same] at expired
        simpa [DedupeEntry.isExpired, Request.entry] using expired

theorem Tracks.keep (ht : Tracks earlier entries) {answer : Call × Reply}
    (hq : ∀ key req, answer ≠ admitted key req) : Tracks (earlier ++ [answer]) entries := by
  refine ⟨?_, ?_⟩
  · intro key req mem nowMs ha hu
    rcases mem_append.mp mem with hb | here
    · exact ht.alive key req hb nowMs
        (fun other hi => ha other (mem_append_left _ hi)) hu
    · exact absurd (mem_singleton.mp here).symm (hq key req)
  · intro key entry held
    obtain ⟨req, mem, same⟩ := ht.opened key entry held
    exact ⟨req, mem_append_left _ mem, same⟩

theorem Tracks.insertEntry (ht : Tracks earlier entries) {key : DedupeKey} {req : Request}
    (hc : ∀ other, admitted key other ∈ earlier → other.expiresAt ≤ req.nowMs) :
    Tracks (earlier ++ [admitted key req]) (entries.insert key.value (req.entry key)) := by
  refine ⟨?_, ?_⟩
  · intro other opener mem nowMs hd hu
    have ha : req.nowMs ≤ nowMs := hd (admitted key req) (by simp)
    rcases mem_append.mp mem with hb | here
    · by_cases same : key = other
      · subst same
        have he := UInt64.le_trans (hc opener hb) ha
        exact absurd hu (UInt64.not_lt.mpr he)
      · rw [get_insert_of_ne entries fun hv => same (Text.ext hv)]
        exact ht.alive other opener hb nowMs
          (fun answer hi => hd answer (mem_append_left _ hi)) hu
    · obtain ⟨rfl, rfl⟩ := Call.checkAndInsert.inj (Prod.mk.inj (mem_singleton.mp here)).1
      rw [get_insert, if_pos rfl]
  · intro other entry held
    rw [get_insert] at held
    split_ifs at held with same
    · cases held
      cases Text.ext same
      exact ⟨req, by simp, rfl⟩
    · obtain ⟨opener, mem, hq⟩ := ht.opened other entry held
      exact ⟨opener, mem_append_left _ mem, hq⟩

variable (hash : HashOrder (String × DedupeEntry))

theorem Tracks.purge (ht : Tracks earlier entries) (nowMs : UInt64) (reply : Reply) :
    Tracks (earlier ++ [(.purgeExpired nowMs, reply)]) (InMemory.purgeExpired hash entries nowMs).2 := by
  have kept : Tracks (earlier ++ [(.purgeExpired nowMs, reply)]) entries := ht.keep nofun
  have hr := InMemory.keysToRemove_perm hash entries nowMs
  refine ⟨?_, ?_⟩
  · intro key req mem later hb hu
    have held := kept.alive key req mem later hb hu
    have ha : nowMs ≤ later := hb (.purgeExpired nowMs, reply) (by simp)
    simp only [InMemory.purgeExpired]
    rw [get_commit_removals, if_neg, held]
    rw [hr.mem_iff, mem_keysWhere]
    intro hp
    obtain ⟨entry, hf, he⟩ := hp
    rw [held] at hf
    cases hf
    have hn : req.expiresAt ≤ nowMs := of_decide_eq_true he
    exact absurd hu (UInt64.not_lt.mpr (UInt64.le_trans hn ha))
  · intro key entry held
    simp only [InMemory.purgeExpired] at held
    rw [get_commit_removals] at held
    split_ifs at held
    exact kept.opened key entry held

def answer {S : Type} (event : Event S Call Reply) : Call × Reply := (event.call, event.reply)

theorem Tracks.step (ht : Tracks earlier entries) (call : Call)
    (hb : ∀ answer ∈ earlier, answer.1.nowMs ≤ call.nowMs) :
    Tracks (earlier ++ [answer (event (InMemory.step hash) entries call)]) (InMemory.step hash entries call).2 := by
  cases call with
  | checkAndInsert key req =>
    simp only [answer, event, InMemory.step]
    rcases ht.checkAndInsert key req hb with
      ⟨_, hr⟩ | ⟨_, other, _, _, hd⟩ | ⟨_, hc, ha⟩
    · rw [hr]
      exact ht.keep fun _ _ hi => by cases hi
    · rw [hd]
      exact ht.keep fun _ _ hi => by cases hi
    · rw [ha]
      exact ht.insertEntry hc
  | contains key nowMs => exact ht.keep fun _ _ hi => by cases hi
  | purgeExpired nowMs => exact ht.purge hash nowMs _

variable {calls : List Call}

theorem answered_times {bound : UInt64} (hb : ∀ nowMs ∈ calls.map Call.nowMs, nowMs ≤ bound) :
    ∀ earlier ∈ (trace (InMemory.step hash) ∅ calls).map answer, earlier.1.nowMs ≤ bound := by
  intro earlier mem
  obtain ⟨event, hh, rfl⟩ := mem_map.mp mem
  have made : event.call ∈ calls := by
    rw [← trace_calls (InMemory.step hash) ∅ calls]
    exact mem_map_of_mem hh
  exact hb _ (mem_map_of_mem made)

theorem tracks_run (ho : (calls.map Call.nowMs).Pairwise (· ≤ ·)) :
    Tracks ((trace (InMemory.step hash) ∅ calls).map answer) (final (InMemory.step hash) ∅ calls) := by
  induction calls using List.reverseRecOn with
  | nil => exact ⟨nofun, fun _ _ held => by simp [final] at held⟩
  | append_singleton calls call ih =>
    rw [map_append, pairwise_append] at ho
    rw [trace_append_singleton, final_append, map_append]
    exact (ih ho.1).step hash call (answered_times hash fun _ mem => ho.2.2 _ mem _ (by simp))

theorem windowed_run (ho : (calls.map Call.nowMs).Pairwise (· ≤ ·)) :
    Windowed ((trace (InMemory.step hash) ∅ calls).map answer) := by
  have here : ∀ before key req reply after, (trace (InMemory.step hash) ∅ calls).map answer =
        before ++ (Call.checkAndInsert key req, reply) :: after →
      ∃ entries, Tracks before entries ∧ (∀ earlier ∈ before, earlier.1.nowMs ≤ req.nowMs) ∧
        reply = .admission (InMemory.checkAndInsert entries key req).1 := by
    intro before key req reply after run
    obtain ⟨first, rest, he, rfl, tail⟩ := map_eq_append_iff.mp run
    obtain ⟨event, later, rfl, same, rfl⟩ := map_eq_cons_iff.mp tail
    obtain ⟨earlier, following, made, rfl, hp, _⟩ := trace_split (InMemory.step hash) he
    obtain ⟨call, ha⟩ := Prod.mk.inj same
    rw [made, call, map_append, map_cons, pairwise_append] at ho
    refine ⟨_, tracks_run hash ho.1, answered_times hash ?_, ?_⟩
    · intro nowMs mem
      exact ho.2.2 nowMs mem _ mem_cons_self
    · rw [← ha, hp, call]
      rfl
  refine ⟨?_, ?_⟩
  · intro before key req reply after run
    obtain ⟨entries, ht, hb, same⟩ := here before key req reply after run
    rw [same]
    rcases ht.checkAndInsert key req hb with
      ⟨zero, hr⟩ | ⟨_, other, mem, hg, hd⟩ | ⟨hk, hc, hl⟩
    · simp [hr, zero]
    · rw [hd]
      refine ⟨fun hi => (by cases hi), ?_⟩
      intro hf
      exact absurd hg (UInt64.not_lt.mpr (hf.2 other mem))
    · simp only [hl, true_iff]
      exact ⟨hk, hc⟩
  · intro before key req reply after other run hk mem hg
    obtain ⟨entries, ht, hb, same⟩ := here before key req reply after run
    have held := ht.alive key other mem req.nowMs hb hg
    have hu : (other.entry key).isExpired req.nowMs = false := by
      simpa [DedupeEntry.isExpired, Request.entry] using hg
    rw [same, InMemory.checkAndInsert, if_neg hk, held]
    simp only [hu, Bool.false_eq_true, ↓reduceIte]
    rfl

theorem answers_eq (calls : List Call) :
    (trace step ∅ calls).map answer = (trace (InMemory.step hash) ∅ calls).map answer := by
  have paired : ∀ {S : Type} (events : List (Event S Call Reply)),
      events.map answer = (events.map Event.call).zip (events.map Event.reply) :=
    fun _ => zip_map'.symm
  rw [paired, paired, trace_calls, trace_calls, replies_eq hash]

/-- Both stores answer alike, and in each window of a key exactly the first insertion is admitted. -/
theorem dedupe_stores_agree (hash : HashOrder (String × DedupeEntry)) {calls : List Call}
    (ordered : (calls.map Call.nowMs).Pairwise (· ≤ ·)) :
    (trace step ∅ calls).map Event.reply = (trace (InMemory.step hash) ∅ calls).map Event.reply ∧
      Windowed ((trace step ∅ calls).map answer) := by
  refine ⟨replies_eq hash calls, ?_⟩
  rw [answers_eq hash]
  exact windowed_run hash ordered

end

section Sample

attribute [local instance] Ulid.Crockford.codec

def sampleCalls : List Call :=
  [.checkAndInsert sampleKey (sampleRequest false), .checkAndInsert sampleKey ⟨InstanceId.ofUlid 2, 10, 4999⟩,
    .purgeExpired 5000, .checkAndInsert sampleKey ⟨InstanceId.ofUlid 3, 10, 5000⟩]

theorem dedupe_stores_agree_sample : (trace step ∅ sampleCalls).map Event.reply =
      (trace (InMemory.step (.unchanged _)) ∅ sampleCalls).map Event.reply ∧
    Windowed ((trace step ∅ sampleCalls).map answer) :=
  dedupe_stores_agree (.unchanged _) (by decide)

end Sample

end Veloxide.Dedupe
