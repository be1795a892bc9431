import Veloxide.Library.BitMarks
import Veloxide.Types.Ids

namespace Veloxide.TimerBloom

open ByteCodec List

section

structure BloomStats where
  insertCount : UInt64
  checkCount : UInt64
  falsePositiveEstimated : UInt64

def BloomStats.new : BloomStats := ⟨0, 0, 0⟩

structure TimerBloomFilter where
  bitVector : List Bool
  numHashFunctions : Nat
  stats : BloomStats
  insertsSinceRebuild : Nat

structure Hashes where
  wyhash : Bytes → UInt64 → UInt64
  xxh3 : Bytes → UInt64

def rebuildThreshold : Nat := 10000

def computeH1 (hashes : Hashes) (timerId : TimerId) : UInt64 := hashes.wyhash (utf8 timerId.value) 0

def computeH2 (hashes : Hashes) (fire : UInt64) : UInt64 := hashes.xxh3 (beBytes 8 fire.toNat)

namespace TimerBloomFilter

/-- `roundedK` and `numBits` are computed in floating point from the number of items and the rate of false positives. -/
def new (roundedK numBits : Nat) : TimerBloomFilter := ⟨List.replicate numBits false, max roundedK 1, BloomStats.new, 0⟩

variable (hashes : Hashes)

def computeHashPositions (filter : TimerBloomFilter) (timerId : TimerId) (fire : UInt64) : Option (List Nat) :=
  let h1 := computeH1 hashes timerId
  let h2 := computeH2 hashes fire
  let m := filter.bitVector.length
  (List.range filter.numHashFunctions).mapM fun i =>
    if m = 0 then none else some ((h1 + UInt64.ofNat i * h2).toNat % m)

def mightBeExpired (filter : TimerBloomFilter) (timerId : TimerId) (fire _nowMs : UInt64) :
    Option (Bool × TimerBloomFilter) := do
  let stats := { filter.stats with checkCount := filter.stats.checkCount + 1 }
  let positions ← filter.computeHashPositions hashes timerId fire
  if BitMarks.allMarked filter.bitVector positions then
    let stats := { stats with falsePositiveEstimated := stats.falsePositiveEstimated + 1 }
    return (true, { filter with stats := stats })
  else return (false, { filter with stats := stats })

def resetForRebuild (filter : TimerBloomFilter) : TimerBloomFilter :=
  { filter with bitVector := filter.bitVector.map fun _ => false, insertsSinceRebuild := 0 }

def insert (filter : TimerBloomFilter) (timerId : TimerId) (fire : UInt64) : Option TimerBloomFilter := do
  let stats := { filter.stats with insertCount := filter.stats.insertCount + 1 }
  let positions ← filter.computeHashPositions hashes timerId fire
  let filter := { filter with
    bitVector := BitMarks.mark filter.bitVector positions
    stats := stats
    insertsSinceRebuild := filter.insertsSinceRebuild + 1 }
  if filter.insertsSinceRebuild ≥ rebuildThreshold then return filter.resetForRebuild else return filter

def rebuild (filter : TimerBloomFilter) : TimerBloomFilter := filter.resetForRebuild

def clearStats (filter : TimerBloomFilter) : TimerBloomFilter :=
  { filter with stats := BloomStats.new, insertsSinceRebuild := 0 }

end TimerBloomFilter

inductive Call
  | insert (timerId : TimerId) (fire : UInt64)
  | mightBeExpired (timerId : TimerId) (fire nowMs : UInt64)
  | rebuild
  | clearStats

def step (hashes : Hashes) (filter : TimerBloomFilter) : Call → Option TimerBloomFilter
  | .insert timerId fire => filter.insert hashes timerId fire
  | .mightBeExpired timerId fire nowMs => (filter.mightBeExpired hashes timerId fire nowMs).map Prod.snd
  | .rebuild => some filter.rebuild
  | .clearStats => some filter.clearStats

def run (hashes : Hashes) (filter : TimerBloomFilter) (calls : List Call) : Option TimerBloomFilter :=
  calls.foldlM (step hashes) filter

end

section

variable (hashes : Hashes)

def positions (count bits : Nat) (timerId : TimerId) (fire : UInt64) : List Nat :=
  (List.range count).map fun i => (computeH1 hashes timerId + UInt64.ofNat i * computeH2 hashes fire).toNat % bits

theorem positions_lt {count bits : Nat} (hp : 0 < bits) (timer : TimerId) (fire : UInt64) :
    ∀ pos ∈ positions hashes count bits timer fire, pos < bits := by
  intro pos mem
  obtain ⟨i, _, rfl⟩ := mem_map.mp mem
  exact Nat.mod_lt _ hp

variable {hashes} {filter : TimerBloomFilter}

theorem computeHashPositions_eq (hn : 0 < filter.bitVector.length) (timer : TimerId) (fire : UInt64) :
    filter.computeHashPositions hashes timer fire =
      some (positions hashes filter.numHashFunctions filter.bitVector.length timer fire) := by
  simp only [TimerBloomFilter.computeHashPositions, if_neg (Nat.pos_iff_ne_zero.mp hn)]
  exact mapM_pure

theorem positions_ne_nil {count : Nat} (hh : 0 < count) (bits : Nat) (timer : TimerId) (fire : UInt64) :
    positions hashes count bits timer fire ≠ [] := by
  apply ne_nil_of_length_pos
  rwa [positions, length_map, length_range]

theorem mightBeExpired_answer (hn : 0 < filter.bitVector.length) (timer : TimerId) (fire nowMs : UInt64) :
    ∃ after, filter.mightBeExpired hashes timer fire nowMs = some (BitMarks.allMarked filter.bitVector
          (positions hashes filter.numHashFunctions filter.bitVector.length timer fire), after) ∧
      after.bitVector = filter.bitVector ∧ after.numHashFunctions = filter.numHashFunctions ∧
      after.insertsSinceRebuild = filter.insertsSinceRebuild := by
  simp only [TimerBloomFilter.mightBeExpired, computeHashPositions_eq hn, Option.bind_eq_bind, Option.bind_some]
  cases BitMarks.allMarked filter.bitVector
      (positions hashes filter.numHashFunctions filter.bitVector.length timer fire) with
  | true => exact ⟨_, rfl, rfl, rfl, rfl⟩
  | false => exact ⟨_, rfl, rfl, rfl, rfl⟩

theorem insert_below (hn : 0 < filter.bitVector.length)
    (hb : filter.insertsSinceRebuild + 1 < rebuildThreshold) (timer : TimerId) (fire : UInt64) :
    ∃ after, filter.insert hashes timer fire = some after ∧ after.bitVector = BitMarks.mark filter.bitVector
        (positions hashes filter.numHashFunctions filter.bitVector.length timer fire) ∧
      after.numHashFunctions = filter.numHashFunctions ∧
      after.insertsSinceRebuild = filter.insertsSinceRebuild + 1 := by
  simp only [TimerBloomFilter.insert, computeHashPositions_eq hn, Option.bind_eq_bind, Option.bind_some,
    if_neg (Nat.not_le.mpr hb)]
  exact ⟨_, rfl, rfl, rfl, rfl⟩

theorem insert_full (hn : 0 < filter.bitVector.length)
    (full : rebuildThreshold ≤ filter.insertsSinceRebuild + 1) (timer : TimerId) (fire : UInt64) :
    ∃ after, filter.insert hashes timer fire = some after ∧
      after.bitVector = List.replicate filter.bitVector.length false ∧
      after.numHashFunctions = filter.numHashFunctions := by
  simp only [TimerBloomFilter.insert, computeHashPositions_eq hn, Option.bind_eq_bind, Option.bind_some, if_pos full]
  refine ⟨_, rfl, ?_, rfl⟩
  simp only [TimerBloomFilter.resetForRebuild, map_const', BitMarks.length_mark]

theorem computeHashPositions_without_bits (he : filter.bitVector.length = 0) (hh : 0 < filter.numHashFunctions)
    (timer : TimerId) (fire : UInt64) : filter.computeHashPositions hashes timer fire = none := by
  obtain ⟨count, hc⟩ := Nat.exists_eq_succ_of_ne_zero (Nat.pos_iff_ne_zero.mp hh)
  simp only [TimerBloomFilter.computeHashPositions, if_pos he, hc, range_succ_eq_map, mapM_cons]
  rfl

end

section

def Inserted (calls : List Call) (timerId : TimerId) (fire : UInt64) : Prop :=
  ∃ before after, calls = before ++ .insert timerId fire :: after ∧ .rebuild ∉ after

def insertsSince (calls : List Call) : Nat := calls.foldl (fun count call => match call with
    | .insert .. => count + 1
    | .mightBeExpired .. => count
    | .rebuild => 0
    | .clearStats => 0) 0

def StaysBelow (calls : List Call) : Prop := ∀ earlier, earlier <+: calls → insertsSince earlier < rebuildThreshold

theorem inserted_append_singleton (calls : List Call) (call : Call) (timer : TimerId) (fire : UInt64) :
    Inserted (calls ++ [call]) timer fire ↔
      call = .insert timer fire ∨ (Inserted calls timer fire ∧ call ≠ .rebuild) := by
  constructor
  · rintro ⟨before, after, hs, kept⟩
    rcases eq_nil_or_concat after with rfl | ⟨middle, last, rfl⟩
    · exact .inl (List.cons.inj (append_inj' hs rfl).2).1
    · rw [concat_eq_append] at hs kept
      have hp : calls ++ [call] = (before ++ .insert timer fire :: middle) ++ [last] := by
        rw [hs, append_assoc, cons_append]
      obtain ⟨he, same⟩ := append_inj' hp rfl
      cases same
      refine .inr ⟨⟨before, middle, he, ?_⟩, ?_⟩
      · intro mem
        exact kept (mem_append_left _ mem)
      · rintro rfl
        exact kept (mem_append_right _ mem_cons_self)
  · rintro (rfl | ⟨⟨before, after, rfl, kept⟩, ho⟩)
    · exact ⟨calls, [], rfl, not_mem_nil⟩
    · refine ⟨before, after ++ [call], by rw [append_assoc, cons_append], ?_⟩
      intro mem
      rcases mem_append.mp mem with he | last
      · exact kept he
      · exact ho (mem_singleton.mp last).symm

theorem StaysBelow.of_append {calls rest : List Call} (hb : StaysBelow (calls ++ rest)) : StaysBelow calls :=
  fun past hs => hb past (hs.trans (prefix_append calls rest))

variable {hashes : Hashes} {count bits : Nat}

/-- The filter has the bits of every timer that was inserted and counts the insertions since it was last rebuilt. -/
structure Tracks (hashes : Hashes) (count bits : Nat) (calls : List Call) (filter : TimerBloomFilter) : Prop where
  length : filter.bitVector.length = bits
  hashed : filter.numHashFunctions = count
  counted : filter.insertsSinceRebuild = insertsSince calls
  marked : ∀ timerId fire, Inserted calls timerId fire →
    BitMarks.allMarked filter.bitVector (positions hashes count bits timerId fire) = true

theorem Tracks.new (hashes : Hashes) (roundedK bits : Nat) :
    Tracks hashes (max roundedK 1) bits [] (.new roundedK bits) := by
  refine ⟨length_replicate, rfl, rfl, ?_⟩
  rintro timer fire ⟨before, after, hs, _⟩
  exact absurd hs.symm (append_ne_nil_of_right_ne_nil _ (cons_ne_nil _ _))

theorem insertsSince_append_singleton (calls : List Call) (call : Call) : insertsSince (calls ++ [call]) = match call with
    | .insert .. => insertsSince calls + 1 | .mightBeExpired .. => insertsSince calls | .rebuild => 0
    | .clearStats => 0 := by
  rw [insertsSince, foldl_append]
  rfl

theorem Tracks.step {calls : List Call} {filter : TimerBloomFilter} (ht : Tracks hashes count bits calls filter)
    (hp : 0 < bits) (call : Call) (hb : insertsSince (calls ++ [call]) < rebuildThreshold) :
    ∃ after, step hashes filter call = some after ∧ Tracks hashes count bits (calls ++ [call]) after := by
  obtain ⟨rfl, rfl, hc, hm⟩ := ht
  rw [insertsSince_append_singleton] at hb
  cases call with
  | insert timer fire =>
    obtain ⟨after, hi, hv, hh, ho⟩ := insert_below hp (hc ▸ hb) timer fire
    refine ⟨after, hi, by rw [hv, BitMarks.length_mark], hh, ?_, ?_⟩
    · rw [ho, hc, insertsSince_append_singleton]
    · intro other otherFire hr
      rw [hv]
      rcases (inserted_append_singleton ..).mp hr with same | ⟨he, _⟩
      · cases same
        exact BitMarks.allMarked_mark_self (positions_lt hashes hp timer fire)
      · exact BitMarks.allMarked_mark (positions_lt hashes hp other otherFire) (hm other otherFire he)
  | mightBeExpired timer fire nowMs =>
    obtain ⟨after, ha, hv, hh, ho⟩ := mightBeExpired_answer hp timer fire nowMs
    refine ⟨after, by rw [TimerBloom.step, ha]; rfl, by rw [hv], hh, ?_, ?_⟩
    · rw [ho, hc, insertsSince_append_singleton]
    · intro other otherFire hr
      rw [hv]
      rcases (inserted_append_singleton ..).mp hr with same | ⟨he, _⟩
      · cases same
      · exact hm other otherFire he
  | rebuild =>
    refine ⟨_, rfl, length_map _, rfl, by rw [insertsSince_append_singleton]; rfl, ?_⟩
    intro other otherFire hr
    rcases (inserted_append_singleton ..).mp hr with same | ⟨_, kept⟩
    · cases same
    · exact absurd rfl kept
  | clearStats =>
    refine ⟨_, rfl, rfl, rfl, by rw [insertsSince_append_singleton]; rfl, ?_⟩
    intro other otherFire hr
    rcases (inserted_append_singleton ..).mp hr with same | ⟨he, _⟩
    · cases same
    · exact hm other otherFire he

theorem run_append_singleton (filter : TimerBloomFilter) (calls : List Call) (call : Call) :
    run hashes filter (calls ++ [call]) = (run hashes filter calls).bind fun after => step hashes after call := by
  simp only [run, foldlM_append, foldlM_cons, foldlM_nil, bind_pure]
  rfl

theorem run_tracks (hp : 0 < bits) {roundedK : Nat} {calls : List Call} (hb : StaysBelow calls) :
    ∃ filter, run hashes (.new roundedK bits) calls = some filter ∧ Tracks hashes (max roundedK 1) bits calls filter := by
  induction calls using List.reverseRecOn with
  | nil => exact ⟨_, rfl, Tracks.new hashes roundedK bits⟩
  | append_singleton calls call ih =>
    obtain ⟨filter, ran, ht⟩ := ih hb.of_append
    obtain ⟨after, hs, next⟩ := ht.step hp call (hb _ (prefix_refl _))
    exact ⟨after, by rw [run_append_singleton, ran, Option.bind_some, hs], next⟩

theorem run_without_bits {roundedK : Nat} {calls : List Call} {filter : TimerBloomFilter}
    (ran : run hashes (.new roundedK 0) calls = some filter) :
    (filter.bitVector.length = 0 ∧ 0 < filter.numHashFunctions) ∧ ∀ timer fire, ¬ Inserted calls timer fire := by
  induction calls using List.reverseRecOn generalizing filter with
  | nil =>
    cases ran
    refine ⟨⟨rfl, Nat.le_max_right _ _⟩, ?_⟩
    rintro timer fire ⟨before, after, ha, _⟩
    exact absurd ha.symm (append_ne_nil_of_right_ne_nil _ (cons_ne_nil _ _))
  | append_singleton calls call ih =>
    rw [run_append_singleton] at ran
    obtain ⟨before, he, hs⟩ := Option.bind_eq_some_iff.mp ran
    obtain ⟨⟨hm, hh⟩, hn⟩ := ih he
    have hp := @computeHashPositions_without_bits hashes before hm hh
    cases call with
    | insert timer fire =>
      rw [step, TimerBloomFilter.insert, hp] at hs
      cases hs
    | mightBeExpired timer fire nowMs =>
      rw [step, TimerBloomFilter.mightBeExpired, hp] at hs
      cases hs
    | rebuild =>
      cases hs
      refine ⟨⟨(length_map _).trans hm, hh⟩, ?_⟩
      intro timer fire hr
      rcases (inserted_append_singleton ..).mp hr with same | ⟨hr, _⟩
      · cases same
      · exact hn timer fire hr
    | clearStats =>
      cases hs
      refine ⟨⟨hm, hh⟩, ?_⟩
      intro timer fire hr
      rcases (inserted_append_singleton ..).mp hr with same | ⟨hr, _⟩
      · cases same
      · exact hn timer fire hr

theorem forgotten_at_threshold (hp : 0 < bits) {roundedK : Nat} {calls : List Call} (he : StaysBelow calls)
    {timer : TimerId} {fire : UInt64} (full : rebuildThreshold ≤ insertsSince calls + 1) :
    ∃ filter, run hashes (.new roundedK bits) (calls ++ [.insert timer fire]) = some filter ∧
      ∀ nowMs, ∃ after, filter.mightBeExpired hashes timer fire nowMs = some (false, after) := by
  obtain ⟨before, ran, ht⟩ := @run_tracks hashes bits hp roundedK calls he
  have hn : 0 < before.bitVector.length := ht.length ▸ hp
  obtain ⟨filter, hi, hv, hh⟩ := insert_full hn (ht.counted ▸ full) timer fire
  have hb : 0 < filter.bitVector.length := by rwa [hv, length_replicate]
  have count : 0 < filter.numHashFunctions := by
    rw [hh, ht.hashed]
    exact Nat.le_max_right _ _
  refine ⟨filter, by rw [run_append_singleton, ran, Option.bind_some]; exact hi, ?_⟩
  intro nowMs
  obtain ⟨after, ha, _⟩ := mightBeExpired_answer hb timer fire nowMs
  refine ⟨after, ha.trans ?_⟩
  rw [hv, BitMarks.allMarked_clear (positions_ne_nil count _ timer fire)]

end

def NoFalseNegatives (hashes : Hashes) (roundedK bits : Nat) (calls : List Call) : Prop :=
  ∀ earlier, earlier <+: calls → ∀ filter, run hashes (.new roundedK bits) earlier = some filter →
    ∀ timerId fire, Inserted earlier timerId fire →
      ∀ nowMs, ∃ after, filter.mightBeExpired hashes timerId fire nowMs = some (true, after)

theorem staysBelow_of_noFalseNegatives {hashes : Hashes} {roundedK bits : Nat} (hp : 0 < bits)
    {calls : List Call} (hr : NoFalseNegatives hashes roundedK bits calls) : StaysBelow calls := by
  induction calls using List.reverseRecOn with
  | nil =>
    intro past hs
    rw [prefix_nil.mp hs]
    decide
  | append_singleton calls call ih =>
    have he : StaysBelow calls := ih fun past hs => hr past (hs.trans (prefix_append calls [call]))
    intro past hs
    rcases prefix_concat_iff.mp hs with hw | within
    · rw [hw]
      have hb := he calls (prefix_refl calls)
      by_contra full
      rw [insertsSince_append_singleton] at full
      cases call with
      | insert timer fire =>
        obtain ⟨filter, ran, hf⟩ :=
          @forgotten_at_threshold hashes bits hp roundedK calls he timer fire (Nat.not_lt.mp full)
        obtain ⟨after, ha⟩ := hr _ (prefix_refl _) filter ran timer fire
          ⟨calls, [], rfl, not_mem_nil⟩ 0
        obtain ⟨other, hc⟩ := hf 0
        rw [ha] at hc
        cases hc
      | mightBeExpired timer fire nowMs => exact full hb
      | rebuild | clearStats => exact full (Nat.zero_lt_succ 9999)
    · exact he past within

/-- A filter with bits forgets no timer exactly as long as the threshold is not reached. -/
theorem no_false_negatives_iff (hashes : Hashes) (roundedK bits : Nat) (calls : List Call) :
    NoFalseNegatives hashes roundedK bits calls ↔ bits = 0 ∨ StaysBelow calls := by
  constructor
  · intro hr
    rcases Nat.eq_zero_or_pos bits with he | positive
    · exact .inl he
    · exact .inr (staysBelow_of_noFalseNegatives positive hr)
  · rintro (rfl | below)
    · intro earlier _ filter ran timer fire hp
      exact absurd hp ((run_without_bits ran).2 timer fire)
    · rcases Nat.eq_zero_or_pos bits with rfl | positive
      · intro earlier _ filter ran timer fire hp
        exact absurd hp ((run_without_bits ran).2 timer fire)
      · intro earlier hs filter ran timer fire hp nowMs
        obtain ⟨other, hc, ht⟩ := @run_tracks hashes bits positive roundedK earlier
          fun first hb => below first (hb.trans hs)
        rw [ran] at hc
        cases hc
        obtain ⟨after, ha, _⟩ := mightBeExpired_answer (ht.length ▸ positive) timer fire nowMs
        refine ⟨after, ha.trans ?_⟩
        rw [ht.hashed, ht.length, ht.marked timer fire hp]

section Sample

theorem insertsSince_replicate (count : Nat) (timer : TimerId) (fire : UInt64) :
    insertsSince (List.replicate count (.insert timer fire)) = count := by
  induction count with
  | zero => rfl
  | succ count ih =>
    rw [replicate_succ', insertsSince_append_singleton]
    exact congrArg Nat.succ ih

def sampleTimer : TimerId := ⟨"timer-1", by decide⟩

/-- After 10000 insertions of one timer it is not reported, whatever the hash functions. -/
theorem timer_forgotten :
    Inserted (List.replicate 9999 (.insert sampleTimer 5) ++ [.insert sampleTimer 5]) sampleTimer 5 ∧
      ∀ hashes : Hashes, ∃ filter after,
        run hashes (.new 7 64) (List.replicate 9999 (.insert sampleTimer 5) ++ [.insert sampleTimer 5]) = some filter ∧
          filter.mightBeExpired hashes sampleTimer 5 0 = some (false, after) := by
  refine ⟨⟨_, [], rfl, not_mem_nil⟩, ?_⟩
  intro hashes
  have hb : StaysBelow (List.replicate 9999 (.insert sampleTimer 5)) := by
    intro earlier hs
    obtain ⟨hh, same⟩ := prefix_replicate_iff.mp hs
    rw [same, insertsSince_replicate]
    exact Nat.lt_succ_of_le hh
  have full : rebuildThreshold ≤ insertsSince (List.replicate 9999 (.insert sampleTimer 5)) + 1 := by
    rw [insertsSince_replicate]
    exact Nat.le_refl _
  obtain ⟨filter, ran, hf⟩ := @forgotten_at_threshold hashes 64 (by decide) 7 _ hb sampleTimer 5 full
  obtain ⟨after, ha⟩ := hf 0
  exact ⟨filter, after, ran, ha⟩

end Sample

end Veloxide.TimerBloom
