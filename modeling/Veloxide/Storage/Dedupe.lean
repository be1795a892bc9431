import Veloxide.Library.CheckThenAct
import Veloxide.Library.Keyspace
import Veloxide.Storage.KeyEncoding

namespace Veloxide.Dedupe

open ByteCodec OrderedStore Unsigned KeyEncoding List

inductive AdmissionResult
  | admitted
  | duplicate (instanceId : String)
deriving DecidableEq

inductive DedupeStoreError
  | storage (reason : String)
  | codec (reason : String)
  | invalidArgument
deriving DecidableEq

structure DedupeEntry where
  dedupeKey : String
  instanceId : String
  expiresAt : UInt64

variable (entry : DedupeEntry)

namespace DedupeEntry

def new (dedupeKey instanceId : String) (expiresAt : UInt64) : Except DedupeStoreError DedupeEntry :=
  if dedupeKey = "" ∨ instanceId = "" then .error .invalidArgument else .ok ⟨dedupeKey, instanceId, expiresAt⟩

def isExpired (nowMs : UInt64) : Bool := nowMs ≥ entry.expiresAt

end DedupeEntry

section

def layout (dkBytes iidBytes : Bytes) (expiresAt : UInt64) : Bytes :=
  beBytes 2 dkBytes.length ++ (dkBytes ++ (beBytes 2 iidBytes.length ++ (iidBytes ++ beBytes 8 expiresAt.toNat)))

def encodeDedupeEntry : Except DedupeStoreError Bytes := let dkBytes := utf8 entry.dedupeKey
  let iidBytes := utf8 entry.instanceId
  if dkBytes.length > 65535 then .error (.codec "dedupe_key exceeds u16::MAX bytes")
  else if iidBytes.length > 65535 then .error (.codec "instance_id exceeds u16::MAX bytes")
  else .ok (layout dkBytes iidBytes entry.expiresAt)

/-- The ranges of the bytes that follow the first byte of a character, if it can be the first one. -/
def utf8Tail (first : UInt8) : Option (List (UInt8 × UInt8)) :=
  if first < 0x80 then some []
  else if first < 0xC2 then none
  else if first < 0xE0 then some [(0x80, 0xBF)]
  else if first = 0xE0 then some [(0xA0, 0xBF), (0x80, 0xBF)]
  else if first = 0xED then some [(0x80, 0x9F), (0x80, 0xBF)]
  else if first < 0xF0 then some [(0x80, 0xBF), (0x80, 0xBF)]
  else if first = 0xF0 then some [(0x90, 0xBF), (0x80, 0xBF), (0x80, 0xBF)]
  else if first < 0xF4 then some [(0x80, 0xBF), (0x80, 0xBF), (0x80, 0xBF)]
  else if first = 0xF4 then some [(0x80, 0x8F), (0x80, 0xBF), (0x80, 0xBF)]
  else none

def utf8Fault (index seen : Nat) : List (UInt8 × UInt8) → Bytes → Option String
  | [], _ => none
  | _ :: _, [] => some s!"incomplete utf-8 byte sequence from index {index}"
  | (low, high) :: ranges, byte :: bytes =>
    if low ≤ byte ∧ byte ≤ high then utf8Fault index (seen + 1) ranges bytes
    else some s!"invalid utf-8 sequence of {seen} bytes from index {index}"

/-- The text of the `Utf8Error` for bytes that are no text, as the standard library finds it. -/
def utf8Error (index : Nat) : (rounds : Nat) → Bytes → String
  | rounds + 1, first :: rest =>
    match utf8Tail first with
    | none => s!"invalid utf-8 sequence of 1 bytes from index {index}"
    | some ranges =>
      match utf8Fault index 1 ranges rest with
      | some fault => fault
      | none => utf8Error (index + 1 + ranges.length) rounds (rest.drop ranges.length)
  | _, _ => ""

def fieldText (name : String) (bytes : Bytes) : Except DedupeStoreError String :=
  (fromUtf8 bytes).okOr (.codec s!"{name} invalid UTF-8: {utf8Error 0 bytes.length bytes}")

def decodeDedupeEntry (bytes : Bytes) : Except DedupeStoreError DedupeEntry := do
  if bytes.length < 12 then
    throw (.codec s!"entry too short: {bytes.length} bytes (minimum 12 for two empty fields + u64)")
  let dkLen := beNat (bytes.take 2)
  if bytes.length < 2 + dkLen + 2 then
    throw (.codec "truncated: cannot read instance_id length after dedupe_key")
  let dkStr ← fieldText "dedupe_key" ((bytes.drop 2).take dkLen)
  let offset := 2 + dkLen
  let iidLen := beNat ((bytes.drop offset).take 2)
  if bytes.length < offset + 2 + iidLen + 8 then
    throw (.codec "truncated: cannot read expires_at after instance_id")
  let iidStr ← fieldText "instance_id" ((bytes.drop (offset + 2)).take iidLen)
  let tsOffset := offset + 2 + iidLen
  let expiresAt := UInt64.ofNat (beNat ((bytes.drop tsOffset).take 8))
  DedupeEntry.new dkStr iidStr expiresAt

section

variable (dkBytes iidBytes : Bytes) (expiresAt : UInt64)

theorem length_layout : (layout dkBytes iidBytes expiresAt).length = 2 + dkBytes.length + 2 + iidBytes.length + 8 := by
  simp only [layout, length_append, length_beBytes]
  omega

theorem take_layout : (layout dkBytes iidBytes expiresAt).take 2 = beBytes 2 dkBytes.length := take_left' (by simp)

theorem drop_layout_key : (layout dkBytes iidBytes expiresAt).drop 2 =
    dkBytes ++ (beBytes 2 iidBytes.length ++ (iidBytes ++ beBytes 8 expiresAt.toNat)) :=
  drop_left' (by simp)

theorem drop_layout_length : (layout dkBytes iidBytes expiresAt).drop (2 + dkBytes.length) =
    beBytes 2 iidBytes.length ++ (iidBytes ++ beBytes 8 expiresAt.toNat) := by
  rw [← drop_drop, drop_layout_key, drop_left]

theorem drop_layout_id : (layout dkBytes iidBytes expiresAt).drop (2 + dkBytes.length + 2) =
    iidBytes ++ beBytes 8 expiresAt.toNat := by
  rw [← drop_drop, drop_layout_length]
  exact drop_left' (by simp)

theorem drop_layout_expiry : (layout dkBytes iidBytes expiresAt).drop (2 + dkBytes.length + 2 + iidBytes.length) =
    beBytes 8 expiresAt.toNat := by
  rw [← drop_drop, drop_layout_id, drop_left]

end

theorem decodeDedupeEntry_layout {entry : DedupeEntry} (hy : entry.dedupeKey ≠ "")
    (hi : entry.instanceId ≠ "") (ha : (utf8 entry.dedupeKey).length ≤ 65535)
    (ho : (utf8 entry.instanceId).length ≤ 65535) :
    decodeDedupeEntry (layout (utf8 entry.dedupeKey) (utf8 entry.instanceId) entry.expiresAt) = .ok entry := by
  have hk : beNat (beBytes 2 (utf8 entry.dedupeKey).length) = (utf8 entry.dedupeKey).length :=
    beNat_beBytes_of_lt (by omega)
  have hd : beNat (beBytes 2 (utf8 entry.instanceId).length) = (utf8 entry.instanceId).length :=
    beNat_beBytes_of_lt (by omega)
  have he : beNat (beBytes 8 entry.expiresAt.toNat) = entry.expiresAt.toNat :=
    beNat_beBytes_of_lt entry.expiresAt.toNat_lt
  have hl : (beBytes 2 (utf8 entry.instanceId).length ++
      (utf8 entry.instanceId ++ beBytes 8 entry.expiresAt.toNat)).take 2 =
        beBytes 2 (utf8 entry.instanceId).length := take_left' (by simp)
  have hx : (beBytes 8 entry.expiresAt.toNat).take 8 = beBytes 8 entry.expiresAt.toNat := take_of_length_le (by simp)
  have hn : ¬ (entry.dedupeKey = "" ∨ entry.instanceId = "") := not_or.mpr ⟨hy, hi⟩
  have long : ¬ 2 + (utf8 entry.dedupeKey).length + 2 + (utf8 entry.instanceId).length + 8 < 12 := by omega
  have hr : ¬ 2 + (utf8 entry.dedupeKey).length + 2 + (utf8 entry.instanceId).length + 8 <
      2 + (utf8 entry.dedupeKey).length + 2 := by omega
  simp only [decodeDedupeEntry, length_layout, take_layout, hk, drop_layout_key, take_left,
    fieldText, fromUtf8_utf8, Option.okOr_some, drop_layout_length, hl, hd, drop_layout_id, drop_layout_expiry, hx, he,
    UInt64.ofNat_toNat, if_neg long, if_neg hr, Nat.lt_irrefl, if_false]
  exact if_neg hn

end

variable (key : DedupeKey)

def encodeDedupeKey : Bytes := (encodeLengthPrefixed (utf8 key.value)).toOption.getD []

theorem length_key_le : (utf8 key.value).length ≤ 65535 := by
  have hb := length_utf8_le key.value
  have hc := DedupeKey.length_le key
  omega

theorem encodeDedupeKey_expected : encodeLengthPrefixed (utf8 key.value) = .ok (encodeDedupeKey key) := by
  rw [encodeDedupeKey, encodeLengthPrefixed, if_neg (Nat.not_lt.mpr (length_key_le key))]
  rfl

section

variable [Ulid]

/-- The arguments of a call on a fixed key, and the time that its clock shows. -/
structure Request where
  instanceId : InstanceId
  ttlMs : UInt64
  nowMs : UInt64

variable (request : Request)

def Request.expiresAt : UInt64 := saturatingAdd request.nowMs request.ttlMs

/-- The part of `check_and_insert` up to its read: an answer, or `none` when it goes on to insert. -/
def check (partition : Store Bytes Bytes) (key : DedupeKey) (request : Request) :
    Option (Except DedupeStoreError AdmissionResult) :=
  if request.ttlMs = 0 then some (.error .invalidArgument)
  else match partition[encodeDedupeKey key]? with
    | none => none
    | some valueBytes =>
      match decodeDedupeEntry valueBytes with
      | .error failure => some (.error failure)
      | .ok entry => if entry.isExpired request.nowMs then none else some (.ok (.duplicate entry.instanceId))

def insert (partition : Store Bytes Bytes) (key : DedupeKey) (request : Request) :
    Except DedupeStoreError AdmissionResult × Store Bytes Bytes :=
  match DedupeEntry.new key.value request.instanceId.text request.expiresAt >>= encodeDedupeEntry with
  | .error failure => (.error failure, partition)
  | .ok valueBytes => (.ok .admitted, partition.insert (encodeDedupeKey key) valueBytes)

def checkAndInsert (partition : Store Bytes Bytes) (key : DedupeKey) (request : Request) :
    Except DedupeStoreError AdmissionResult × Store Bytes Bytes :=
  match check partition key request with
  | some answer => (answer, partition)
  | none => insert partition key request

def stored (key : DedupeKey) (request : Request) : Bytes :=
  layout (utf8 key.value) (utf8 request.instanceId.text) request.expiresAt

theorem encode_new : (DedupeEntry.new key.value request.instanceId.text request.expiresAt >>= encodeDedupeEntry) =
    .ok (stored key request) := by
  have hn : ¬ (key.value = "" ∨ request.instanceId.text = "") :=
    not_or.mpr ⟨DedupeKey.ne_empty key, request.instanceId.text_ne_empty⟩
  have hk : ¬ (utf8 key.value).length > 65535 := Nat.not_lt.mpr (length_key_le key)
  have hi : ¬ (utf8 request.instanceId.text).length > 65535 := by
    rw [request.instanceId.length_text]
    decide
  rw [DedupeEntry.new, if_neg hn]
  show encodeDedupeEntry _ = _
  simp only [encodeDedupeEntry, if_neg hk, if_neg hi]
  rfl

theorem insert_eq (part : Store Bytes Bytes) (key : DedupeKey) (request : Request) : insert part key request =
    (.ok .admitted, part.insert (encodeDedupeKey key) (stored key request)) := by
  rw [insert, encode_new]

theorem decode_stored :
    decodeDedupeEntry (stored key request) = .ok ⟨key.value, request.instanceId.text, request.expiresAt⟩ := by
  have hi : (utf8 request.instanceId.text).length ≤ 65535 := by
    rw [request.instanceId.length_text]
    decide
  exact @decodeDedupeEntry_layout ⟨key.value, request.instanceId.text, request.expiresAt⟩ (DedupeKey.ne_empty key)
    request.instanceId.text_ne_empty (length_key_le key) hi

end

section

variable {Caller : Type}

/-- Where a concurrent call stands: before its read, between its read and its insertion, or answered. -/
inductive Phase
  | ready
  | checked
  | answered (result : Except DedupeStoreError AdmissionResult)
deriving DecidableEq

structure System (Caller : Type) where
  partition : Store Bytes Bytes
  phase : Caller → Phase

def System.start (partition : Store Bytes Bytes) : System Caller := ⟨partition, fun _ => .ready⟩

def Phase.outline : Phase → CheckThenAct.Phase
  | ready => .idle
  | checked => .passed
  | answered (.ok .admitted) => .acted
  | answered _ => .refused

theorem outline_eq_acted {phase : Phase} : phase.outline = .acted ↔ phase = .answered (.ok .admitted) := by
  cases phase with
  | ready | checked => simp [Phase.outline]
  | answered result => rcases result with err | _ | inst <;> simp [Phase.outline]

variable [Ulid] (request : Caller → Request)

def Vacant (partition : Store Bytes Bytes) (key : DedupeKey) (request : Caller → Request) : Prop :=
  ∀ bytes, partition[encodeDedupeKey key]? = some bytes →
    ∃ entry, decodeDedupeEntry bytes = .ok entry ∧ ∀ caller, entry.isExpired (request caller).nowMs = true

def InWindow : Prop := ∀ left right, (request right).nowMs < (request left).expiresAt

theorem InWindow.ttl_ne_zero {request : Caller → Request} (hw : InWindow request) (caller : Caller) :
    (request caller).ttlMs ≠ 0 := by
  intro zero
  have ha := hw caller caller
  rw [Request.expiresAt, zero, saturatingAdd_zero] at ha
  exact UInt64.lt_irrefl _ ha

theorem check_vacant {part : Store Bytes Bytes} {key : DedupeKey} {request : Caller → Request}
    (hw : InWindow request) (hv : Vacant part key request) (caller : Caller) :
    check part key (request caller) = none := by
  rw [check, if_neg (hw.ttl_ne_zero caller)]
  cases held : part[encodeDedupeKey key]? with
  | none => rfl
  | some bytes =>
    obtain ⟨entry, hd, he⟩ := hv bytes held
    simp only [hd, he caller, ↓reduceIte]

theorem check_held {part : Store Bytes Bytes} {key : DedupeKey} {request : Caller → Request}
    (hw : InWindow request) {holder : Caller}
    (held : part[encodeDedupeKey key]? = some (stored key (request holder))) (caller : Caller) :
    check part key (request caller) = some (.ok (.duplicate (request holder).instanceId.text)) := by
  have ha : ¬ (request caller).nowMs ≥ (request holder).expiresAt := UInt64.not_le.mpr (hw holder caller)
  rw [check, if_neg (hw.ttl_ne_zero caller), held]
  simp only [decode_stored, DedupeEntry.isExpired, ha, decide_false, Bool.false_eq_true, ↓reduceIte]

structure Refines (key : DedupeKey) (request : Caller → Request) (system : System Caller)
    (state : CheckThenAct.State Caller) : Prop where
  phase : ∀ caller, state.phase caller = (system.phase caller).outline
  vacant : state.closed = false → Vacant system.partition key request
  held : state.closed = true → ∃ holder, system.partition[encodeDedupeKey key]? = some (stored key (request holder))

variable [DecidableEq Caller]

def System.step (key : DedupeKey) (request : Caller → Request) (system : System Caller) (caller : Caller) :
    System Caller :=
  match system.phase caller with
  | .ready =>
    match check system.partition key (request caller) with
    | some answer => { system with phase := Function.update system.phase caller (.answered answer) }
    | none => { system with phase := Function.update system.phase caller .checked }
  | .checked =>
    let (answer, partition) := insert system.partition key (request caller)
    ⟨partition, Function.update system.phase caller (.answered answer)⟩
  | .answered _ => system

def System.run (key : DedupeKey) (request : Caller → Request) (system : System Caller) (schedule : List Caller) :
    System Caller :=
  schedule.foldl (System.step key request) system

theorem Refines.step {key : DedupeKey} {request : Caller → Request} (hw : InWindow request)
    {sys : System Caller} {state : CheckThenAct.State Caller} (hr : Refines key request sys state) (caller : Caller) :
    Refines key request (System.step key request sys caller) (CheckThenAct.step state caller) := by
  have here := hr.phase caller
  rw [System.step, CheckThenAct.step]
  cases hp : sys.phase caller with
  | ready =>
    rw [hp] at here
    simp only [here, Phase.outline]
    cases hc : state.closed with
    | false =>
      have hv := hr.vacant hc
      simp only [check_vacant hw hv caller, Bool.false_eq_true, ↓reduceIte]
      refine ⟨CheckThenAct.update_outline Phase.outline hr.phase caller .checked, fun _ => hv, fun hi => ?_⟩
      cases hi
    | true =>
      obtain ⟨holder, held⟩ := hr.held hc
      simp only [check_held hw held caller, ↓reduceIte]
      refine ⟨CheckThenAct.update_outline Phase.outline hr.phase caller (.answered (.ok (.duplicate _))), fun hi => ?_,
        fun _ => ⟨holder, held⟩⟩
      cases hi
  | checked =>
    rw [hp] at here
    simp only [here, Phase.outline, insert_eq]
    refine ⟨CheckThenAct.update_outline Phase.outline hr.phase caller (.answered (.ok .admitted)), fun hi => ?_,
      fun _ => ⟨caller, ?_⟩⟩
    · cases hi
    · rw [get_insert, if_pos rfl]
  | answered result =>
    rw [hp] at here
    rcases result with err | _ | inst
    all_goals
      simp only [here, Phase.outline]
      exact hr

theorem refines_run {key : DedupeKey} {request : Caller → Request} (hw : InWindow request)
    {part : Store Bytes Bytes} (hv : Vacant part key request) (schedule : List Caller) :
    Refines key request (System.run key request (System.start part) schedule)
      (CheckThenAct.run CheckThenAct.start schedule) :=
  foldl_rel ⟨fun _ => rfl, fun _ => hv, nofun⟩
    (fun caller _ _ _ hr => hr.step hw caller)

/-- At most one of the callers is admitted exactly in the interleavings without a race. -/
theorem admitted_at_most_once_iff {key : DedupeKey} {request : Caller → Request} (window : InWindow request)
    {partition : Store Bytes Bytes} (vacant : Vacant partition key request) (schedule : List Caller) :
    (∀ left right, (System.run key request (System.start partition) schedule).phase left = .answered (.ok .admitted) →
      (System.run key request (System.start partition) schedule).phase right = .answered (.ok .admitted) →
      left = right) ↔ ¬ CheckThenAct.Races schedule := by
  have hr := refines_run window vacant schedule
  rw [← CheckThenAct.acts_at_most_once_iff]
  simp only [hr.phase, outline_eq_acted]

end

section Sample

attribute [local instance] Ulid.Crockford.codec

def sampleKey : DedupeKey := ⟨"order-1", by decide⟩

def sampleRequest (caller : Bool) : Request := ⟨InstanceId.ofUlid (if caller then 2 else 1), 5000, 0⟩

theorem sample_inWindow : InWindow sampleRequest := by
  intro left right
  cases left <;> cases right <;> decide

theorem sample_vacant : Vacant ∅ sampleKey sampleRequest := fun _ held => (nomatch held)

theorem admitted_at_most_once_in_turn : InWindow sampleRequest ∧ Vacant ∅ sampleKey sampleRequest ∧ ∀ left right,
    (System.run sampleKey sampleRequest (System.start ∅) [false, false, true, true]).phase left =
      .answered (.ok .admitted) →
    (System.run sampleKey sampleRequest (System.start ∅) [false, false, true, true]).phase right =
      .answered (.ok .admitted) → left = right := by
  refine ⟨sample_inWindow, sample_vacant,
    (admitted_at_most_once_iff sample_inWindow sample_vacant [false, false, true, true]).mpr ?_⟩
  intro hr
  obtain ⟨before, first, after, hs, hi, ha, second, hc, hd, _⟩ := hr
  match before with
  | [] => simp at ha
  | [only] =>
    rw [mem_singleton.mp ha, mem_singleton.mp hc] at hd
    exact hd rfl
  | left :: right :: rest =>
    simp only [cons_append, List.cons.injEq] at hs
    rw [← hs.1, ← hs.2.1] at hi
    simp at hi

theorem both_admitted : InWindow sampleRequest ∧ Vacant ∅ sampleKey sampleRequest ∧
    ∀ caller, (System.run sampleKey sampleRequest (System.start ∅) [false, true, false, true]).phase caller =
      .answered (.ok .admitted) :=
  ⟨sample_inWindow, sample_vacant, by decide +kernel⟩

end Sample

end Veloxide.Dedupe
