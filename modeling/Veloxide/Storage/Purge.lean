import Veloxide.Storage.EventWriters

namespace Veloxide.Purge

open ByteCodec OrderedStore KeyEncoding InstanceIndex EventLog EventWriters Machine List Except

def isTerminal (status : InstanceStatus) : Bool := match status with
  | .completed => true
  | .failed => true
  | .cancelled => true
  | _ => false

theorem prefix_append_iff {start first rest : Bytes} (hl : start.length = first.length) :
    start <+: first ++ rest ↔ start = first := by
  rw [prefix_iff_eq_take, hl, take_left]

section

variable [Ulid]

def eventPrefix (inst : InstanceId) : Bytes := (encodeEventKey inst 1).take 18

def purgeTarget (db : Database) (instanceIdStr : String) : Except StorageError (InstanceId × InstanceIndexEntry) :=
  if instanceIdStr = "" then .error (.invalidInstanceId (.empty "InstanceId"))
  else do
    let parsedId ← (InstanceId.parse instanceIdStr).mapError .invalidInstanceId
    let found ← ((scanAllInstances db).find? fun result =>
      match result with
      | .ok entry => entry.instanceId = parsedId
      | .error _ => false).okOr .instanceRunning
    let entry ← found.mapError fun _ => .scanFailed
    if isTerminal entry.status then return (parsedId, entry) else throw .instanceRunning

def purgeInstance (db : Database) (instanceIdStr : String) : Except StorageError (UInt64 × Database) := do
  let (parsedId, entry) ← purgeTarget db instanceIdStr
  let idBytes ← parsedId.toBytes.mapError fun _ => .corruptKey
  let eventKeys := (prefixScan db.events (eventPrefix parsedId)).map Prod.fst
  let snapshotKeys := (prefixScan db.snapshots idBytes).map Prod.fst
  let indexKey ← encodeInstanceIndexKey entry.status entry.createdAt parsedId
  return (UInt64.ofNat eventKeys.length, { db with
    events := commit db.events (eventKeys.map fun key => (key, none))
    snapshots := commit db.snapshots (snapshotKeys.map fun key => (key, none))
    instances := db.instances.erase indexKey })

theorem purgeTarget_id {db : Database} {text : String} {inst target : InstanceId}
    {entry : InstanceIndexEntry} (hp : InstanceId.parse text = .ok inst)
    (ok : purgeTarget db text = .ok (target, entry)) : target = inst := by
  rw [purgeTarget] at ok
  split_ifs at ok with empty
  obtain ⟨parsedId, ha, rest⟩ := bind_eq_ok.mp ok
  rw [hp] at ha
  cases ha
  obtain ⟨found, _, rest⟩ := bind_eq_ok.mp rest
  obtain ⟨item, _, rest⟩ := bind_eq_ok.mp rest
  split_ifs at rest with terminal
  cases rest
  rfl

theorem eventPrefix_eq (inst : InstanceId) : eventPrefix inst = 0 :: 16 :: inst.bytes := by
  have bytes : inst.toBytes.toOption.getD (List.replicate 16 0) = inst.bytes := by
    rw [inst.toBytes_eq]
    rfl
  simp only [eventPrefix, encodeEventKey, bytes, inst.length_bytes]
  rw [← append_assoc, take_left' (by simp)]
  rfl

theorem purgeInstance_ok {db after : Database} {text : String} {count : UInt64} {inst : InstanceId}
    (hp : InstanceId.parse text = .ok inst) (ok : purgeInstance db text = .ok (count, after)) (key : Bytes) :
    after.events[key]? = if eventPrefix inst <+: key then none else db.events[key]? := by
  obtain ⟨⟨target, entry⟩, hf, rest⟩ := bind_eq_ok.mp ok
  obtain ⟨idBytes, _, rest⟩ := bind_eq_ok.mp rest
  obtain ⟨indexKey, _, rest⟩ := bind_eq_ok.mp rest
  have same := purgeTarget_id hp hf
  subst same
  cases rest
  have hs := mem_prefixScan_keys db.events (eventPrefix target) key
  rw [get_commit_removals]
  by_cases ht : eventPrefix target <+: key
  · rw [if_pos ht]
    cases held : db.events[key]? with
    | none => simp
    | some value => rw [if_pos (hs.mpr ⟨by rw [held]; rfl, ht⟩)]
  · rw [if_neg ht, if_neg fun hl => ht (hs.mp hl).2]

end

section

variable [Ulid]

def currentPut (puts : List Put) (key : Bytes) : Option Put := puts.reverse.find? fun put => put.key = key

theorem get_puts (puts : List Put) (key : Bytes) :
    (commit ∅ (puts.map Put.write))[key]? = (currentPut puts key).map Put.value := by
  have keys : ((fun entry : Write Bytes Bytes => decide (entry.1 = key)) ∘ Put.write) =
      fun put => decide (put.key = key) := rfl
  rw [get_commit, ← map_reverse, find?_map, keys, ← currentPut]
  cases currentPut puts key <;> rfl

/-- No entry of the instance remains, and the entries of the others are as before. -/
structure Erased (puts : List Put) (inst : InstanceId) (before after : Store Bytes Bytes) : Prop where
  own : ∀ put, currentPut puts put.key = some put → put.owner = inst → after[put.key]? = none
  others : ∀ put, currentPut puts put.key = some put → put.owner ≠ inst → after[put.key]? = before[put.key]?

/-- The namespace that is spelled like the id, and plain keys that begin with `00 10` and the id. -/
def Reached (inst : InstanceId) (put : Put) : Prop := match put.layout with
  | .namespaced namespaceText => utf8 namespaceText = inst.bytes
  | .plain keyId => keyId = 0 :: 16 :: inst.bytes.take 14 ∧
      (beBytes 8 put.envelope.sequence.toNat).take 2 = inst.bytes.drop 14

theorem reached_iff {inst : InstanceId} {put : Put} (hf : put.layout.WellFormed) :
    Reached inst put ↔ eventPrefix inst <+: put.key := by
  rw [eventPrefix_eq]
  obtain ⟨owner, layout, env, value⟩ := put
  cases layout with
  | namespaced space =>
    have hh : (utf8 space).length ≤ 255 := hf
    simp only [Reached, Put.key, Layout.start, streamPrefix, sequenceKey, cons_append, cons_prefix_cons,
      append_assoc, eventKeyVersion, true_and]
    constructor
    · intro same
      have length : (utf8 space).length = 16 := by rw [same, inst.length_bytes]
      rw [length]
      exact ⟨rfl, (prefix_append_iff (by rw [same])).mpr same.symm⟩
    · intro ho
      obtain ⟨size, hs⟩ := ho
      have length : (utf8 space).length = 16 := by
        have hn := congrArg UInt8.toNat size
        rw [UInt8.toNat_ofNat_of_lt' (show _ < 2 ^ 8 by omega)] at hn
        exact hn.symm
      exact ((prefix_append_iff (by rw [length, inst.length_bytes])).mp hs).symm
  | plain keyId =>
    have hw : keyId.length = 16 := hf
    have ha : keyId ++ beBytes 8 env.sequence.toNat = (keyId ++
        (beBytes 8 env.sequence.toNat).take 2) ++ (beBytes 8 env.sequence.toNat).drop 2 := by
      rw [append_assoc, take_append_drop]
    have hp : 0 :: 16 :: inst.bytes = (0 :: 16 :: inst.bytes.take 14) ++ inst.bytes.drop 14 := by
      rw [cons_append, cons_append, take_append_drop]
    have hl : (0 :: 16 :: inst.bytes.take 14).length = keyId.length := by simp [hw]
    simp only [Reached, Put.key, Layout.start, sequenceKey]
    rw [ha, prefix_append_iff (by simp [hw]), hp]
    constructor
    · intro same
      rw [same.1, same.2]
    · intro same
      obtain ⟨hi, he⟩ := append_inj same hl
      exact ⟨hi.symm, he.symm⟩

/-- A purge erases the instance, and only it, exactly when the entries that it reaches are the
    instance's own. -/
theorem purge_erases_iff [JsonCodec] {calls : List Call} {text : String} {inst : InstanceId}
    {count : UInt64} {after : Database} (parsed : InstanceId.parse text = .ok inst)
    (purged : purgeInstance (final System.step System.empty calls).db text = .ok (count, after)) :
    Erased (written calls) inst (final System.step System.empty calls).db.events after.events ↔
      ∀ put, currentPut (written calls) put.key = some put → (Reached inst put ↔ put.owner = inst) := by
  have hr := purgeInstance_ok parsed purged
  have held : ∀ put, currentPut (written calls) put.key = some put →
      (final System.step System.empty calls).db.events[put.key]? = some put.value := by
    intro put hc
    rw [final_events, get_puts, hc]
    rfl
  have hb : ∀ put, currentPut (written calls) put.key = some put →
      (Reached inst put ↔ eventPrefix inst <+: put.key) := by
    intro put hc
    exact reached_iff (written_wellFormed (mem_reverse.mp (mem_of_find?_eq_some hc)))
  constructor
  · intro he put hc
    rw [hb put hc]
    constructor
    · intro hs
      by_contra hf
      have kept := he.others put hc hf
      rw [hr, if_pos hs, held put hc] at kept
      cases kept
    · intro own
      by_contra ha
      have gone := he.own put hc own
      rw [hr, if_neg ha, held put hc] at gone
      cases gone
  · intro hm
    refine ⟨fun put hc own => ?_, fun put hc hf => ?_⟩
    · rw [hr, if_pos ((hb put hc).mp ((hm put hc).mpr own))]
    · rw [hr, if_neg fun hs => hf ((hm put hc).mp ((hb put hc).mpr hs))]

end

section Sample

attribute [local instance] Ulid.Crockford.codec Json.Text.codec

def sampleRun : List Call := [.admitWorkflow sampleParams 0]

theorem purge_leaves_admission_event : written sampleRun = [samplePut] ∧ samplePut.owner = sampleId ∧
    (purgeInstance (final System.step System.empty sampleRun).db sampleId.text).map
      (fun purged => (purged.1, purged.2.events[samplePut.key]?)) = .ok (0, some samplePut.value) := by
  refine ⟨rfl, rfl, by decide +kernel⟩

theorem purge_erases_iff_admitted :
    ∃ count after, purgeInstance (final System.step System.empty sampleRun).db sampleId.text = .ok (count, after) ∧
      (Erased (written sampleRun) sampleId (final System.step System.empty sampleRun).db.events after.events ↔
        ∀ put, currentPut (written sampleRun) put.key = some put → (Reached sampleId put ↔ put.owner = sampleId)) := by
  have hs : (purgeInstance (final System.step System.empty sampleRun).db
      sampleId.text).toOption.isSome := by decide +kernel
  cases hp : purgeInstance (final System.step System.empty sampleRun).db sampleId.text with
  | error reason =>
    rw [hp] at hs
    cases hs
  | ok result => exact ⟨result.1, result.2, rfl, purge_erases_iff (InstanceId.parse_text (by decide +kernel)) hp⟩

end Sample

end Veloxide.Purge
