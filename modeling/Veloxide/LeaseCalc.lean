import Mathlib

namespace Veloxide.LeaseCalc

variable {Node : Type}

inductive LeaseError (Node : Type)
  | alreadyHeld (holder : Node)
  | renewalWrongNode
  | invalidTransition
  | zeroTtl
  | fenceTokenExhausted
  deriving DecidableEq

inductive LeaseState (Node : Type)
  | vacant
  | held (holder : Node) (expiry : UInt64)
  | expired (lastHolder : Node)
  deriving DecidableEq

inductive LeaseTransition (Node : Type)
  | acquire (owner : Node) (ttlMs nowMs : UInt64)
  | renew (owner : Node) (ttlMs nowMs : UInt64)
  | tick (nowMs : UInt64)
  | release (owner : Node)

def isExpired (expiry nowMs : UInt64) : Bool := nowMs ≥ expiry

def calcExpires (nowMs ttlMs : UInt64) : Except (LeaseError Node) UInt64 := if ttlMs = 0 then .error .zeroTtl
  else if nowMs.toNat + ttlMs.toNat < 2 ^ 64 then .ok (nowMs + ttlMs) else .error .fenceTokenExhausted

/-- What a transition can do. -/
inductive Moves : LeaseState Node → LeaseTransition Node → LeaseState Node → Prop
  | stay (state : LeaseState Node) (transition : LeaseTransition Node) : Moves state transition state
  | acquire {state owner ttlMs nowMs} (free : ∀ holder expiry, state ≠ .held holder expiry)
    (expiry : UInt64) : Moves state (.acquire owner ttlMs nowMs) (.held owner expiry)
  | renew {holder expiry ttlMs nowMs} (nextExpiresAtMs : UInt64) :
    Moves (.held holder expiry) (.renew holder ttlMs nowMs) (.held holder nextExpiresAtMs)
  | expire {holder expiry nowMs} (late : expiry ≤ nowMs) :
    Moves (.held holder expiry) (.tick nowMs) (.expired holder)
  | release (holder : Node) (expiry : UInt64) : Moves (.held holder expiry) (.release holder) .vacant

variable [DecidableEq Node]

def apply : LeaseState Node → LeaseTransition Node → Except (LeaseError Node) (LeaseState Node)
  | .vacant, .acquire owner ttlMs nowMs => do return .held owner (← calcExpires nowMs ttlMs)
  | .vacant, _ => .error .invalidTransition
  | .held holder expiry, .acquire owner _ nowMs =>
    if isExpired expiry nowMs then do
      let _ ← calcExpires nowMs 0
      .error .invalidTransition
    else if holder = owner then .error (.alreadyHeld owner)
    else .error (.alreadyHeld holder)
  | .held holder expiry, .renew owner ttlMs nowMs =>
    if holder ≠ owner then .error .renewalWrongNode
    else if isExpired expiry nowMs then .error .invalidTransition
    else do return .held owner (← calcExpires nowMs ttlMs)
  | .held holder expiry, .tick nowMs =>
    if isExpired expiry nowMs then .ok (.expired holder) else .ok (.held holder expiry)
  | .held holder _, .release owner => if holder ≠ owner then .error .renewalWrongNode else .ok .vacant
  | .expired _, .acquire owner ttlMs nowMs => do return .held owner (← calcExpires nowMs ttlMs)
  | .expired _, .renew _ _ _ => .error .invalidTransition
  | .expired lastHolder, .tick _ => .ok (.expired lastHolder)
  | .expired _, .release _ => .error .invalidTransition

variable {state : LeaseState Node} {holder owner : Node} {ttlMs nowMs expiry : UInt64}

/-- The lease of the state has run out. -/
def Lapsed (nowMs : UInt64) : LeaseState Node → Prop
  | .vacant => False
  | .held _ expiry => expiry ≤ nowMs
  | .expired _ => True

def AcquiresAsTicked (state : LeaseState Node) (owner : Node) (ttlMs nowMs : UInt64) : Prop :=
  apply state (.acquire owner ttlMs nowMs) =
    apply state (.tick nowMs) >>= fun ticked => apply ticked (.acquire owner ttlMs nowMs)

theorem acquiresAsTicked_iff (hp : 0 < ttlMs) (hl : Lapsed nowMs state) :
    AcquiresAsTicked state owner ttlMs nowMs ↔ ∃ lastHolder, state = .expired lastHolder := by
  cases state with
  | vacant => exact hl.elim
  | expired lastHolder => exact iff_of_true rfl ⟨lastHolder, rfl⟩
  | held holder expiry =>
    have late : isExpired expiry nowMs = true := decide_eq_true hl
    have hn : ttlMs ≠ 0 := fun zero => absurd (zero ▸ hp) (UInt64.lt_irrefl 0)
    refine iff_of_false ?_ (by simp)
    intro same
    simp only [AcquiresAsTicked, apply, late, if_true, calcExpires, hn, if_false, bind, Except.bind] at same
    split_ifs at same
    all_goals cases same

/-- The state after a transition; one that is refused changes nothing. -/
def step (state : LeaseState Node) (transition : LeaseTransition Node) : LeaseState Node :=
  (apply state transition).toOption.getD state

/-- The last lease that was held and has not been released. -/
def tenure (earlier : Option (Node × UInt64)) : LeaseState Node → Option (Node × UInt64)
  | .vacant => none
  | .held holder expiry => some (holder, expiry)
  | .expired _ => earlier

def time : LeaseTransition Node → Option UInt64
  | .acquire _ _ nowMs => some nowMs
  | .renew _ _ nowMs => some nowMs
  | .tick nowMs => some nowMs
  | .release _ => none

/-- Along the run a lease that is not released passes to another holder only when it has run out. -/
def Succession (last : Option (Node × UInt64)) (state : LeaseState Node) : List (LeaseTransition Node) → Prop
  | [] => True
  | transition :: later =>
    (∀ lease ∈ last, ∀ holder expiry, step state transition = .held holder expiry → lease.1 ≠ holder →
      ∃ ttlMs nowMs, transition = .acquire holder ttlMs nowMs ∧ lease.2 ≤ nowMs) ∧
      Succession (tenure last (step state transition)) (step state transition) later

/-- The last lease is the one that is held, or it has run out by the given times. -/
def Known (times : List UInt64) (last : Option (Node × UInt64)) : LeaseState Node → Prop
  | .vacant => last = none
  | .held holder expiry => last = some (holder, expiry)
  | .expired _ => ∀ lease ∈ last, ∀ nowMs ∈ times, lease.2 ≤ nowMs

theorem moves_acquire (free : ∀ holder expiry, state ≠ .held holder expiry) :
    Moves state (.acquire owner ttlMs nowMs) (step state (.acquire owner ttlMs nowMs)) := by
  have same : apply state (.acquire owner ttlMs nowMs) =
      (calcExpires nowMs ttlMs).map fun expiry => .held owner expiry := by
    cases state with
    | vacant | expired lastHolder => rfl
    | held holder expiry => exact absurd rfl (free holder expiry)
  rw [step, same]
  cases calcExpires nowMs ttlMs with
  | error error => exact .stay state _
  | ok expiry => exact .acquire free expiry

theorem moves_held (holder : Node) (expiry : UInt64) (transition : LeaseTransition Node) :
    Moves (.held holder expiry) transition (step (.held holder expiry) transition) := by
  cases transition with
  | acquire owner ttlMs nowMs =>
    rw [step, apply]
    split_ifs
    all_goals exact .stay _ _
  | renew owner ttlMs nowMs =>
    rw [step, apply]
    split_ifs with other late
    · exact .stay _ _
    · exact .stay _ _
    · rw [not_not.mp other]
      cases calcExpires nowMs ttlMs with
      | error error => exact .stay _ _
      | ok expiry => exact .renew expiry
  | tick nowMs =>
    rw [step, apply]
    split_ifs with late
    · exact .expire (of_decide_eq_true late)
    · exact .stay _ _
  | release owner =>
    rw [step, apply]
    split_ifs with other
    · exact .stay _ _
    · exact not_not.mp other ▸ .release holder _

theorem moves (state : LeaseState Node) (transition : LeaseTransition Node) :
    Moves state transition (step state transition) := by
  cases state with
  | held holder expiry => exact moves_held holder expiry transition
  | vacant | expired lastHolder =>
    cases transition with
    | acquire owner ttlMs nowMs => exact moves_acquire fun _ _ same => by cases same
    | renew owner ttlMs nowMs | tick nowMs | release owner => exact .stay _ _

variable {last : Option (Node × UInt64)} {transition : LeaseTransition Node} {next : LeaseState Node}
  {times : List UInt64}

omit [DecidableEq Node] in
theorem Moves.known (hm : Moves state transition next) (known : Known ((time transition).toList ++ times) last state)
    (hs : ((time transition).toList ++ times).Pairwise (· ≤ ·)) : Known times (tenure last next) next := by
  cases hm with
  | stay =>
    cases state with
    | vacant | held holder expiry => rfl
    | expired lastHolder => exact fun lease was nowMs hl => known lease was nowMs (List.mem_append_right _ hl)
  | acquire | renew | release => rfl
  | expire late =>
    intro lease was nowMs hl
    cases known.symm.trans was
    exact UInt64.le_trans late ((List.pairwise_cons.mp hs).1 nowMs hl)

omit [DecidableEq Node] in
theorem Moves.succeeds (hm : Moves state transition (.held holder expiry))
    (hk : Known ((time transition).toList ++ times) last state) {lease : Node × UInt64} (was : lease ∈ last)
    (ho : lease.1 ≠ holder) : ∃ ttlMs nowMs, transition = .acquire holder ttlMs nowMs ∧ lease.2 ≤ nowMs := by
  cases hm with
  | stay | renew =>
    cases hk.symm.trans was
    exact absurd rfl ho
  | acquire free =>
    refine ⟨_, _, rfl, ?_⟩
    cases state with
    | vacant => cases hk.symm.trans was
    | held holder expiry => exact absurd rfl (free holder expiry)
    | expired lastHolder => exact hk lease was _ (List.mem_cons_self ..)

theorem succession_of_sorted {transitions : List (LeaseTransition Node)}
    (hk : Known (transitions.filterMap time) last state)
    (hs : (transitions.filterMap time).Pairwise (· ≤ ·)) : Succession last state transitions := by
  induction transitions generalizing last state with
  | nil => trivial
  | cons transition later ih =>
    have times : (transition :: later).filterMap time = (time transition).toList ++ later.filterMap time := by
      rw [List.filterMap_cons]
      cases time transition with
      | none | some nowMs => rfl
    rw [times] at hk hs
    refine ⟨fun lease was holder expiry held ho => ?_, ?_⟩
    · exact (held ▸ moves state transition).succeeds hk was ho
    · exact ih ((moves state transition).known hk hs) (List.pairwise_append.mp hs).2.1

omit [DecidableEq Node] in
theorem known_tenure (state : LeaseState Node) : Known times (tenure none state) state := by
  cases state with
  | vacant | held holder expiry => rfl
  | expired lastHolder => exact fun lease was => by cases was

/-- A lease that has run out is acquired as after a tick only when a tick has come already: while it is held, an
    acquire reads the time to live as zero. A lease still passes on only when it was released or has run out. -/
theorem acquires_as_ticked_iff_marked (state : LeaseState Node) (transitions : List (LeaseTransition Node)) :
    (∀ owner ttlMs nowMs, 0 < ttlMs → Lapsed nowMs state →
      (AcquiresAsTicked state owner ttlMs nowMs ↔ ∃ lastHolder, state = .expired lastHolder)) ∧
    ((transitions.filterMap time).Pairwise (· ≤ ·) → Succession (tenure none state) state transitions) :=
  ⟨fun _ _ _ hp hl => acquiresAsTicked_iff hp hl, fun hs => succession_of_sorted (known_tenure state) hs⟩

theorem lapsed_lease_not_acquired : apply (.held 1 5) (.acquire 2 10 7) = .error (.zeroTtl : LeaseError Nat) ∧
    (apply (.held 1 5) (.tick 7) >>= fun ticked => apply ticked (.acquire 2 10 7)) = .ok (.held 2 17) := by
  decide +kernel

end Veloxide.LeaseCalc
