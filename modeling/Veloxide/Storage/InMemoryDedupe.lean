import Veloxide.Library.Execution
import Veloxide.Library.StoreSimulation
import Veloxide.Library.Worklist
import Veloxide.Storage.Dedupe

namespace Veloxide.Dedupe

open ByteCodec OrderedStore Machine

section

theorem encodeDedupeKey_eq (key : DedupeKey) :
    encodeDedupeKey key = beBytes 2 (utf8 key.value).length ++ utf8 key.value := by
  have he := encodeDedupeKey_expected key
  rw [KeyEncoding.encodeLengthPrefixed, if_neg (Nat.not_lt.mpr (length_key_le key))] at he
  exact (Except.ok.inj he).symm

theorem encodeDedupeKey_injective : Function.Injective encodeDedupeKey := by
  intro left right same
  rw [encodeDedupeKey_eq, encodeDedupeKey_eq] at same
  exact Text.ext (utf8_injective (List.append_inj same (by simp)).2)

theorem value_injective : Function.Injective fun key : DedupeKey => key.value := fun _ _ same => Text.ext same

end

def contains (partition : Store Bytes Bytes) (key : DedupeKey) (nowMs : UInt64) : Except DedupeStoreError Bool :=
  match partition[encodeDedupeKey key]? with
  | some valueBytes => (decodeDedupeEntry valueBytes).map fun entry => !entry.isExpired nowMs
  | none => .ok false

def isPurged (nowMs : UInt64) (valueBytes : Bytes) : Bool := match decodeDedupeEntry valueBytes with
  | .ok entry => entry.isExpired nowMs
  | .error _ => false

def purgeExpired (partition : Store Bytes Bytes) (nowMs : UInt64) : Nat × Store Bytes Bytes :=
  let keysToDelete := (partition.toList.filter fun entry => isPurged nowMs entry.2).map Prod.fst
  (keysToDelete.length, commit partition (keysToDelete.map fun key => (key, none)))

section

variable [Ulid]

/-- A call of the `DedupeStore` trait, with the time that its clock shows or that it is given. -/
inductive Call
  | checkAndInsert (key : DedupeKey) (request : Request)
  | contains (key : DedupeKey) (nowMs : UInt64)
  | purgeExpired (nowMs : UInt64)

def Call.nowMs : Call → UInt64
  | checkAndInsert _ request => request.nowMs
  | contains _ nowMs => nowMs
  | purgeExpired nowMs => nowMs

omit [Ulid] in
inductive Reply
  | admission (result : Except DedupeStoreError AdmissionResult)
  | contained (result : Except DedupeStoreError Bool)
  | purged (result : Except DedupeStoreError Nat)

def step (partition : Store Bytes Bytes) : Call → Reply × Store Bytes Bytes
  | .checkAndInsert key request => (checkAndInsert partition key request).map .admission id
  | .contains key nowMs => (.contained (contains partition key nowMs), partition)
  | .purgeExpired nowMs => (purgeExpired partition nowMs).map (.purged ∘ .ok) id

namespace InMemory

abbrev Entries := Store String DedupeEntry

variable (entries : Entries)

def insertEntry (key : DedupeKey) (request : Request) : Except DedupeStoreError AdmissionResult × Entries :=
  match DedupeEntry.new key.value request.instanceId.text request.expiresAt with
  | .error failure => (.error failure, entries)
  | .ok entry => (.ok .admitted, entries.insert key.value entry)

def checkAndInsert (key : DedupeKey) (request : Request) : Except DedupeStoreError AdmissionResult × Entries :=
  if request.ttlMs = 0 then (.error .invalidArgument, entries)
  else match entries[key.value]? with
    | some entry =>
      if entry.isExpired request.nowMs then insertEntry entries key request
      else (.ok (.duplicate entry.instanceId), entries)
    | none => insertEntry entries key request

omit [Ulid] in
def contains (key : DedupeKey) (nowMs : UInt64) : Bool := (entries[key.value]?).any fun entry => !entry.isExpired nowMs

variable (hash : HashOrder (String × DedupeEntry))

omit [Ulid] in
def purgeExpired (entries : Entries) (nowMs : UInt64) : Nat × Entries :=
  let keysToRemove := ((hash.iterate entries.toList).filter fun entry => entry.2.isExpired nowMs).map Prod.fst
  (keysToRemove.length, commit entries (keysToRemove.map fun key => (key, none)))

def step (entries : Entries) : Call → Reply × Entries
  | .checkAndInsert key request => (checkAndInsert entries key request).map .admission id
  | .contains key nowMs => (.contained (.ok (contains entries key nowMs)), entries)
  | .purgeExpired nowMs => (purgeExpired hash entries nowMs).map (.purged ∘ .ok) id

end InMemory

def Request.entry (request : Request) (key : DedupeKey) : DedupeEntry :=
  ⟨key.value, request.instanceId.text, request.expiresAt⟩

theorem InMemory.insertEntry_eq (entries : InMemory.Entries) (key : DedupeKey) (req : Request) :
    InMemory.insertEntry entries key req = (.ok .admitted, entries.insert key.value (req.entry key)) := by
  have hn : ¬ (key.value = "" ∨ req.instanceId.text = "") :=
    not_or.mpr ⟨DedupeKey.ne_empty key, req.instanceId.text_ne_empty⟩
  rw [InMemory.insertEntry, DedupeEntry.new, if_neg hn]
  rfl

omit [Ulid] in
theorem InMemory.keysToRemove_perm (hash : HashOrder (String × DedupeEntry)) (entries : InMemory.Entries)
    (nowMs : UInt64) : (((hash.iterate entries.toList).filter fun entry => entry.2.isExpired nowMs).map Prod.fst).Perm
      (keysWhere entries fun entry => entry.isExpired nowMs) :=
  ((hash.perm entries.toList).filter _).map Prod.fst

end

section

variable [Ulid]

abbrev Simulates (partition : Store Bytes Bytes) (entries : InMemory.Entries) : Prop :=
  Related encodeDedupeKey (fun key : DedupeKey => key.value)
    (fun valueBytes entry => decodeDedupeEntry valueBytes = .ok entry) partition entries

variable {partition : Store Bytes Bytes} {entries : InMemory.Entries}

theorem Simulates.insertEntry (hs : Simulates partition entries) (key : DedupeKey) (req : Request) :
    (insert partition key req).1 = (InMemory.insertEntry entries key req).1 ∧
      Simulates (insert partition key req).2 (InMemory.insertEntry entries key req).2 := by
  rw [insert_eq, InMemory.insertEntry_eq]
  exact ⟨rfl, hs.insert encodeDedupeKey_injective value_injective key (decode_stored key req)⟩

theorem Simulates.checkAndInsert (hs : Simulates partition entries) (key : DedupeKey) (req : Request) :
    (checkAndInsert partition key req).1 = (InMemory.checkAndInsert entries key req).1 ∧
      Simulates (checkAndInsert partition key req).2 (InMemory.checkAndInsert entries key req).2 := by
  rw [Dedupe.checkAndInsert, check, InMemory.checkAndInsert]
  split_ifs with zero
  · exact ⟨rfl, hs⟩
  · cases kept : entries[key.value]? with
    | none =>
      rw [hs.left_absent kept]
      exact hs.insertEntry key req
    | some entry =>
      obtain ⟨valueBytes, held, hd⟩ := hs.left_of_right kept
      simp only [held, hd]
      split_ifs with expired
      · exact hs.insertEntry key req
      · exact ⟨rfl, hs⟩

omit [Ulid] in
theorem Simulates.contains (hs : Simulates partition entries) (key : DedupeKey) (nowMs : UInt64) :
    contains partition key nowMs = .ok (InMemory.contains entries key nowMs) := by
  rw [Dedupe.contains, InMemory.contains]
  cases kept : entries[key.value]? with
  | none =>
    rw [hs.left_absent kept]
    rfl
  | some entry =>
    obtain ⟨valueBytes, held, hd⟩ := hs.left_of_right kept
    simp only [held, hd]
    rfl

variable (hash : HashOrder (String × DedupeEntry))

omit [Ulid] in
theorem Simulates.purgeExpired (hs : Simulates partition entries) (nowMs : UInt64) :
    (purgeExpired partition nowMs).1 = (InMemory.purgeExpired hash entries nowMs).1 ∧
      Simulates (purgeExpired partition nowMs).2 (InMemory.purgeExpired hash entries nowMs).2 := by
  have ha : ∀ valueBytes entry, decodeDedupeEntry valueBytes = .ok entry →
      isPurged nowMs valueBytes = entry.isExpired nowMs := by
    intro valueBytes entry hd
    rw [isPurged, hd]
  have hr := InMemory.keysToRemove_perm hash entries nowMs
  refine ⟨?_, hs.remove ?_⟩
  · have hc := hs.length_keysWhere encodeDedupeKey_injective value_injective ha
    exact hc.trans hr.length_eq.symm
  · intro key
    rw [hr.mem_iff]
    exact hs.mem_keysWhere_iff ha key

theorem Simulates.step (hs : Simulates partition entries) (call : Call) :
    (step partition call).1 = (InMemory.step hash entries call).1 ∧
      Simulates (step partition call).2 (InMemory.step hash entries call).2 := by
  cases call with
  | checkAndInsert key req =>
    obtain ⟨same, ha⟩ := hs.checkAndInsert key req
    exact ⟨congrArg Reply.admission same, ha⟩
  | contains key nowMs => exact ⟨congrArg Reply.contained (hs.contains key nowMs), hs⟩
  | purgeExpired nowMs =>
    obtain ⟨same, ha⟩ := hs.purgeExpired hash nowMs
    exact ⟨congrArg (Reply.purged ∘ .ok) same, ha⟩

theorem replies_eq (calls : List Call) : (trace step ∅ calls).map Event.reply =
    (trace (InMemory.step hash) ∅ calls).map Event.reply := by
  have hs := Machine.simulation step (InMemory.step hash) Simulates Eq (fun _ => True)
    (fun _ _ call hi _ => hi.step hash call) Related.empty (fun (call : Call) (_ : call ∈ calls) => trivial)
  exact List.forall₂_eq_eq_eq ▸ hs.1

end

end Veloxide.Dedupe
