import Veloxide.Library.Execution

namespace Veloxide.Spsc

open Machine Function

/-- `buffer` is `none` where no message is: the slot was never written, or its message was moved out. -/
structure SpscQueue (T : Type) where
  buffer : UInt64 → Option T
  cap : UInt64
  head : UInt64
  tail : UInt64

inductive SpscError
  | full
  | empty

inductive Call (T : Type)
  | send (msg : T)
  | recv

/-- `received none` is the read of a slot that holds no message. -/
inductive Reply (T : Type)
  | sent
  | received (msg : Option T)
  | failed (error : SpscError)

section

variable {T : Type} (queue : SpscQueue T)

/-- The least power of two that is not below the number. -/
def nextPowerOfTwo (number : Nat) : Nat := 2 ^ Nat.clog 2 number

def SpscQueue.new (capacity : UInt64) : SpscQueue T := ⟨fun _ => none, .ofNat (nextPowerOfTwo capacity.toNat), 0, 0⟩

def SpscQueue.mask (idx : UInt64) : UInt64 := idx &&& (queue.cap - 1)

def SpscQueue.step : Call T → Reply T × SpscQueue T
  | .send msg =>
    if queue.head - queue.tail ≥ queue.cap then (.failed .full, queue)
    else (.sent, { queue with
      buffer := update queue.buffer (queue.mask queue.head) (some msg), head := queue.head + 1 })
  | .recv =>
    if queue.head = queue.tail then (.failed .empty, queue)
    else (.received (queue.buffer (queue.mask queue.tail)), { queue with
      buffer := update queue.buffer (queue.mask queue.tail) none, tail := queue.tail + 1 })

/-- The queue that the ring is to be: at most `cap` messages, first in, first out. -/
def fifo (cap : Nat) (msgs : List T) : Call T → Reply T × List T
  | .send msg => if msgs.length = cap then (.failed .full, msgs) else (.sent, msgs ++ [msg])
  | .recv =>
    match msgs with
    | [] => (.failed .empty, [])
    | msg :: rest => (.received (some msg), rest)

/-- A message that is sent does not overwrite one that was not read. -/
def KeepsUnread (event : Event (SpscQueue T) (Call T) (Reply T)) : Prop :=
  ∀ msg, event.call = .send msg → event.reply = .sent → event.before.buffer (event.before.mask event.before.head) = none

/-- The slots from the tail on hold the messages, and the others none. -/
structure Represents (power : Nat) (msgs : List T) : Prop where
  small : power < 64
  cap : queue.cap.toNat = 2 ^ power
  length : msgs.length ≤ 2 ^ power
  head : queue.head = queue.tail + .ofNat msgs.length
  slots : ∀ place < 2 ^ power, queue.buffer (queue.mask (queue.tail + .ofNat place)) = msgs[place]?

end

variable {T : Type} {queue : SpscQueue T} {power : Nat} {msgs : List T}

theorem two_pow_lt {power : Nat} (hs : power < 64) : 2 ^ power < 2 ^ 64 := Nat.pow_lt_pow_right (by decide) hs

theorem Represents.mask_inj (hr : Represents queue power msgs) (left right : Nat) :
    queue.mask (queue.tail + .ofNat left) = queue.mask (queue.tail + .ofNat right) ↔
      left % 2 ^ power = right % 2 ^ power := by
  have hp : 0 < 2 ^ power := Nat.two_pow_pos power
  have hd : 2 ^ power ∣ 2 ^ 64 := Nat.pow_dvd_pow 2 (Nat.le_of_lt hr.small)
  have hm (place : Nat) : (queue.mask (queue.tail + .ofNat place)).toNat = (queue.tail.toNat + place) % 2 ^ power := by
    have one : (queue.cap - 1).toNat = 2 ^ power - 1 := by
      rw [UInt64.toNat_sub_of_le _ _ (UInt64.le_iff_toNat_le.mpr (by rw [hr.cap]; exact hp))]
      rw [hr.cap]
      rfl
    rw [SpscQueue.mask, UInt64.toNat_and, one, Nat.and_two_pow_sub_one_eq_mod, UInt64.toNat_add, UInt64.toNat_ofNat',
      Nat.add_mod_mod, Nat.mod_mod_of_dvd _ hd]
  rw [← UInt64.toNat_inj, hm, hm]
  constructor
  · exact Nat.ModEq.add_left_cancel'  _
  · exact Nat.ModEq.add_left _

theorem Represents.used (hr : Represents queue power msgs) : (queue.head - queue.tail).toNat = msgs.length := by
  have fits : msgs.length < 2 ^ 64 := Nat.lt_of_le_of_lt hr.length (two_pow_lt hr.small)
  rw [hr.head, UInt64.add_comm, UInt64.add_sub_cancel, UInt64.toNat_ofNat_of_lt' fits]

theorem Represents.slot_head (hr : Represents queue power msgs) (room : msgs.length < 2 ^ power) :
    queue.buffer (queue.mask queue.head) = none := by
  rw [hr.head, hr.slots _ room]
  exact List.getElem?_eq_none (Nat.le_refl _)

theorem Represents.send (hr : Represents queue power msgs) (room : msgs.length < 2 ^ power) (msg : T) :
    Represents { queue with buffer := update queue.buffer (queue.mask queue.head) (some msg), head := queue.head + 1 }
      power (msgs ++ [msg]) := by
  refine ⟨hr.small, hr.cap, by simpa using room, ?_, fun place he => ?_⟩
  · simp only [hr.head, List.length_append, List.length_singleton, UInt64.ofNat_add, UInt64.add_assoc]
    rfl
  · have here := hr.mask_inj place msgs.length
    rw [Nat.mod_eq_of_lt he, Nat.mod_eq_of_lt room, ← hr.head] at here
    simp only [SpscQueue.mask, update_apply] at here ⊢
    by_cases last : place = msgs.length
    · rw [if_pos (here.mpr last), last, List.getElem?_concat_length]
    · rw [if_neg (mt here.mp last)]
      refine (hr.slots place he).trans ?_
      rcases Nat.lt_or_gt_of_ne last with hb | after
      · rw [List.getElem?_append_left hb]
      · rw [List.getElem?_eq_none (by omega), List.getElem?_eq_none (by simp; omega)]

theorem Represents.recv {msg : T} (hr : Represents queue power (msg :: msgs)) :
    queue.buffer (queue.mask queue.tail) = some msg ∧
      Represents { queue with buffer := update queue.buffer (queue.mask queue.tail) none, tail := queue.tail + 1 }
        power msgs := by
  have hp : 0 < 2 ^ power := Nat.two_pow_pos power
  have hl : msgs.length + 1 ≤ 2 ^ power := hr.length
  have first : queue.tail + .ofNat 0 = queue.tail := UInt64.add_zero _
  refine ⟨by simpa [first] using hr.slots 0 hp, hr.small, hr.cap, by omega, ?_, fun place hb => ?_⟩
  · simp only [hr.head, List.length_cons, UInt64.ofNat_add, UInt64.add_assoc]
    rw [UInt64.add_comm 1]
    rfl
  · have next : queue.tail + 1 + .ofNat place = queue.tail + .ofNat (place + 1) := by
      rw [UInt64.ofNat_add, UInt64.add_assoc, UInt64.add_comm 1]
      rfl
    have here := hr.mask_inj (place + 1) 0
    rw [first, Nat.zero_mod] at here
    simp only [SpscQueue.mask, update_apply, next] at here ⊢
    by_cases full : place + 1 = 2 ^ power
    · rw [if_pos (here.mpr (by rw [full, Nat.mod_self])), List.getElem?_eq_none (by omega)]
    · rw [if_neg (mt here.mp (by rw [Nat.mod_eq_of_lt (by omega)]; omega))]
      exact hr.slots (place + 1) (by omega)

/-- A call answers as the queue does, and keeps the ring in step with it. -/
theorem Represents.step (hr : Represents queue power msgs) (call : Call T) :
    (queue.step call).1 = (fifo (2 ^ power) msgs call).1 ∧
      Represents (queue.step call).2 power (fifo (2 ^ power) msgs call).2 ∧
      KeepsUnread (event SpscQueue.step queue call) := by
  have used := hr.used
  have hl := hr.length
  cases call with
  | send msg =>
    have full : queue.head - queue.tail ≥ queue.cap ↔ msgs.length = 2 ^ power := by
      rw [ge_iff_le, UInt64.le_iff_toNat_le, used, hr.cap]
      omega
    by_cases same : msgs.length = 2 ^ power
    · simp only [SpscQueue.step, fifo, event, KeepsUnread, if_pos (full.mpr same), if_pos same]
      exact ⟨trivial, hr, fun _ _ hi => by cases hi⟩
    · have room : msgs.length < 2 ^ power := by omega
      simp only [SpscQueue.step, fifo, event, KeepsUnread, if_neg (mt full.mp same), if_neg same]
      exact ⟨trivial, hr.send room msg, fun _ _ _ => hr.slot_head room⟩
  | recv =>
    have he : queue.head = queue.tail ↔ msgs.length = 0 := by
      rw [← used, ← UInt64.toNat_inj, UInt64.toNat_sub]
      have := queue.head.toNat_lt
      have := queue.tail.toNat_lt
      omega
    cases msgs with
    | nil =>
      simp only [SpscQueue.step, fifo, event, KeepsUnread, if_pos (he.mpr rfl)]
      exact ⟨trivial, hr, fun _ hi => by cases hi⟩
    | cons msg msgs =>
      obtain ⟨read, ha⟩ := hr.recv
      simp only [SpscQueue.step, fifo, event, KeepsUnread, if_neg (mt he.mp (Nat.succ_ne_zero _)), read]
      exact ⟨trivial, ha, fun _ hi => by cases hi⟩

theorem Represents.run (hr : Represents queue power msgs) (calls : List (Call T)) :
    (trace SpscQueue.step queue calls).map Event.reply = (trace (fifo (2 ^ power)) msgs calls).map Event.reply ∧
      ∀ event ∈ trace SpscQueue.step queue calls, KeepsUnread event := by
  induction calls generalizing queue msgs with
  | nil => exact ⟨rfl, fun _ hi => by cases hi⟩
  | cons call calls ih =>
    obtain ⟨he, ha, hu⟩ := hr.step call
    obtain ⟨hb, rest⟩ := ih ha
    exact ⟨congrArg₂ List.cons he hb, List.forall_mem_cons.mpr ⟨hu, rest⟩⟩

theorem represents_new {capacity : UInt64} (hb : capacity.toNat ≤ 2 ^ 63) :
    Represents (.new capacity : SpscQueue T) (Nat.clog 2 capacity.toNat) [] := by
  have hs : Nat.clog 2 capacity.toNat < 64 := Nat.lt_succ_of_le (Nat.clog_le_of_le_pow hb)
  exact ⟨hs, UInt64.toNat_ofNat_of_lt' (two_pow_lt hs), Nat.zero_le _, rfl, fun _ _ => rfl⟩

/-- The ring is a queue of the next power of two, also when its counters have wrapped around. -/
theorem spsc_bounded_fifo (capacity : UInt64) (bound : capacity.toNat ≤ 2 ^ 63) (calls : List (Call T)) :
    (trace SpscQueue.step (.new capacity) calls).map Event.reply =
        (trace (fifo (nextPowerOfTwo capacity.toNat)) [] calls).map Event.reply ∧
      ∀ event ∈ trace SpscQueue.step (.new capacity) calls, KeepsUnread event :=
  (represents_new bound).run calls

/-- Four slots for the capacity 3: the fifth message is refused, and the sixth is sent to the first slot. -/
def sampleCalls : List (Call Char) := [.send 'a', .send 'b', .send 'c', .send 'd', .send 'e', .recv, .send 'f', .recv]

theorem spsc_bounded_fifo_three : (3 : UInt64).toNat ≤ 2 ^ 63 ∧
    (trace SpscQueue.step (.new 3) sampleCalls).map Event.reply = [.sent, .sent, .sent, .sent, .failed .full,
      .received (some 'a'), .sent, .received (some 'b')] := by
  have four : nextPowerOfTwo 3 = 4 := by decide +kernel
  refine ⟨by decide, (spsc_bounded_fifo 3 (by decide) sampleCalls).1.trans ?_⟩
  rw [show (3 : UInt64).toNat = 3 from rfl, four]
  rfl

end Veloxide.Spsc
