import Veloxide.Replay.UpcastPath

namespace Veloxide.Replay

open Walk List Function

structure VersionRegistry where
  upcasters : UInt8 × UInt8 → Option Upcaster

namespace VersionRegistry

def new : VersionRegistry := ⟨fun _ => none⟩

def register (reg : VersionRegistry) (upcaster : Upcaster) : VersionRegistry :=
  ⟨update reg.upcasters (upcaster.sourceVersion, upcaster.targetVersion) (some upcaster)⟩

def get (reg : VersionRegistry) (source toVersion : UInt8) : Option Upcaster :=
  reg.upcasters (source, toVersion)

/-- The loop of `upcast_payload`, which goes up by one version in a round. -/
def upcastRounds (reg : VersionRegistry) (toVersion : UInt8) :
    (rounds : Nat) → Json → UInt8 → Except Events.Error Json
  | 0, payload, _ => .ok payload
  | rounds + 1, payload, source =>
    if source < toVersion then
      match reg.get source (source + 1) with
      | none => .error (.upcasterNotFound source (source + 1))
      | some upcaster =>
        match upcaster.upcast payload with
        | .error failure => .error (.upcastFailed failure.toText)
        | .ok payload => upcastRounds reg toVersion rounds payload (source + 1)
    else .ok payload

def upcastPayload (reg : VersionRegistry) (payload : Json) (source toVersion : UInt8) :
    Except Events.Error Json :=
  if source = toVersion then .ok payload
  else if source > toVersion then .error .invalidSchemaVersionFormat
  else reg.upcastRounds toVersion (toVersion.toNat - source.toNat) payload source

theorem get_registerAll (upcasters : List Upcaster) (source toVersion : UInt8) :
    (upcasters.foldl register new).get source toVersion = upcasters.reverse.find? fun upcaster =>
      (upcaster.sourceVersion, upcaster.targetVersion) == (source, toVersion) := by
  induction upcasters using reverseRecOn with
  | nil => rfl
  | append_singleton upcasters upcaster ih =>
    rw [foldl_append, reverse_append, foldl_cons, foldl_nil, reverse_singleton, singleton_append, find?_cons]
    simp only [get, register, update_apply] at ih ⊢
    split_ifs with same
    · rw [same, beq_self_eq_true]
    · rw [beq_eq_false_iff_ne.mpr (Ne.symm same)]
      exact ih

end VersionRegistry

namespace UpcasterRegistry

variable {upcasters : List Upcaster}

theorem upcasters_registerAll {reg : UpcasterRegistry}
    (hb : ∀ upcaster ∈ upcasters, upcaster.targetVersion ≤ reg.maxVersion)
    (hd : ((upcasters.reverse ++ reg.upcasters).map Upcaster.sourceVersion).Nodup) :
    (reg.registerAll upcasters).upcasters = upcasters.reverse ++ reg.upcasters := by
  induction upcasters generalizing reg with
  | nil => rfl
  | cons upcaster upcasters ih =>
    rw [reverse_cons, append_assoc, singleton_append] at hd ⊢
    have hf : upcaster.sourceVersion ∉ reg.upcasters.map Upcaster.sourceVersion := by
      rw [map_append, map_cons] at hd
      exact (nodup_cons.mp (nodup_append.mp hd).2.1).1
    rw [registerAll, foldl_cons, ← registerAll, register, if_neg (UInt8.not_lt.mpr (hb upcaster mem_cons_self)),
      dif_neg hf]
    exact ih (fun other mem => hb other (mem_cons_of_mem _ mem)) hd

variable {reg : UpcasterRegistry} {versions : VersionRegistry}

/-- The two registries find the same upcasters, which go up by one version. -/
structure Matches (reg : UpcasterRegistry) (versions : VersionRegistry) : Prop where
  get : ∀ version, reg.get version = versions.get version (version + 1)
  target : ∀ version upcaster, reg.get version = some upcaster → upcaster.targetVersion = version + 1

variable {ver : UInt8}

theorem exists_path_iff {next : UInt8} {upcaster : Upcaster} (ho : ver < reg.maxVersion)
    (ht : advance reg ver = some (upcaster, next)) (goal : List Upcaster → Prop) :
    (∃ path, VersionPath reg ver path reg.maxVersion ∧ goal (path.map Prod.snd)) ↔
      ∃ path, VersionPath reg next path reg.maxVersion ∧ goal (upcaster :: path.map Prod.snd) := by
  constructor
  · rintro ⟨path, hf, hg⟩
    cases hf with
    | nil => exact absurd ho (UInt8.lt_irrefl _)
    | cons ha rest =>
      cases ht.symm.trans ha
      exact ⟨_, rest, hg⟩
  · rintro ⟨path, hf, hg⟩
    exact ⟨_, .cons ht hf, hg⟩

theorem upcastRounds_ok_iff (same : Matches reg versions) {rounds : Nat}
    (left : reg.maxVersion.toNat = ver.toNat + rounds) (body result : Json) :
    versions.upcastRounds reg.maxVersion rounds body ver = .ok result ↔
      ∃ path, VersionPath reg ver path reg.maxVersion ∧ composition (path.map Prod.snd) body = .ok result := by
  induction rounds generalizing ver body with
  | zero =>
    have last : ver = reg.maxVersion := UInt8.toNat_inj.mp (by omega)
    subst last
    rw [VersionRegistry.upcastRounds]
    constructor
    · intro he
      cases he
      exact ⟨[], .nil _, rfl⟩
    · intro ⟨path, hf, hc⟩
      obtain ⟨rfl, _⟩ := hf.unique_of_terminal (.nil _) advance_maxVersion advance_maxVersion
      cases hc
      rfl
  | succ rounds ih =>
    have ho : ver < reg.maxVersion := UInt8.lt_iff_toNat_lt.mpr (by omega)
    have next : (ver + 1).toNat = ver.toNat + 1 := by
      have := reg.maxVersion.toNat_lt
      rw [UInt8.toNat_add]
      exact Nat.mod_eq_of_lt (by change _ + 1 < _; omega)
    rw [VersionRegistry.upcastRounds, if_pos ho, ← same.get]
    cases ha : reg.get ver with
    | none =>
      refine ⟨fun hi => (by cases hi), ?_⟩
      rintro ⟨path, hf, _⟩
      cases hf with
      | nil => exact absurd ho (UInt8.lt_irrefl _)
      | cons ht rest => cases ht.symm.trans (advance_of_missing ha)
    | some upcaster =>
      have ht := advance_of_get ho ha
      rw [same.target ver upcaster ha] at ht
      rw [exists_path_iff ho ht fun path => composition path body = .ok result]
      simp only [composition, foldlM_cons]
      cases upcaster.upcast body with
      | error err =>
        refine ⟨fun hi => (by cases hi), ?_⟩
        rintro ⟨_, _, hi⟩
        cases hi
      | ok body => exact ih (by omega) body

theorem matches_registered {top : UInt8} (hd : (upcasters.map Upcaster.sourceVersion).Nodup)
    (hb : ∀ upcaster ∈ upcasters, upcaster.targetVersion ≤ top)
    (ht : ∀ upcaster ∈ upcasters, upcaster.targetVersion = upcaster.sourceVersion + 1) :
    Matches ((new top).registerAll upcasters) (upcasters.foldl .register .new) := by
  have all : ((new top).registerAll upcasters).upcasters = upcasters.reverse := by
    rw [upcasters_registerAll hb, new, append_nil]
    rw [new, append_nil, map_reverse]
    exact nodup_reverse.mpr hd
  constructor
  · intro ver
    rw [VersionRegistry.get_registerAll, UpcasterRegistry.get, all]
    refine find?_congr fun upcaster mem => ?_
    rw [ht upcaster (mem_reverse.mp mem), Bool.eq_iff_iff, beq_iff_eq, beq_iff_eq, Prod.mk.injEq]
    exact ⟨fun same => ⟨same, by rw [same]⟩, And.left⟩
  · intro ver upcaster hf
    rw [UpcasterRegistry.get, all] at hf
    rw [ht upcaster (mem_reverse.mp (mem_of_find?_eq_some hf))]
    have hs := find?_some hf
    rw [beq_iff_eq.mp hs]

/-- Upcasting an envelope and upcasting its payload succeed together, with one payload. -/
theorem upcaster_registries_agree (maxVersion : UInt8) (upcasters : List Upcaster)
    (distinct : (upcasters.map Upcaster.sourceVersion).Nodup)
    (bounded : ∀ upcaster ∈ upcasters, upcaster.targetVersion ≤ maxVersion)
    (steps : ∀ upcaster ∈ upcasters, upcaster.targetVersion = upcaster.sourceVersion + 1)
    (envelope : EventEnvelope) (older : envelope.schemaVersion ≤ maxVersion) (result : EventEnvelope) :
    ((new maxVersion).registerAll upcasters).upcastEnvelope envelope = .ok result ↔
      ∃ payload, (upcasters.foldl VersionRegistry.register .new).upcastPayload envelope.payload
          envelope.schemaVersion maxVersion = .ok payload ∧
        result = { envelope with schemaVersion := maxVersion, payload } := by
  have hm := maxVersion_registerAll (new maxVersion) upcasters
  have same := matches_registered distinct bounded steps
  have ht := target_le_of_registerAll (new maxVersion) upcasters nofun
  generalize (new maxVersion).registerAll upcasters = reg at hm same ht ⊢
  change reg.maxVersion = maxVersion at hm
  subst hm
  rw [VersionRegistry.upcastPayload]
  split_ifs with equal newer
  · rw [upcastEnvelope, if_pos (UInt8.le_of_eq equal.symm), ← equal]
    simp only [Except.ok.injEq, exists_eq_left']
    exact eq_comm
  · exact absurd newer (UInt8.not_lt.mpr older)
  · have hb := UInt8.lt_of_le_of_ne older equal
    rw [upcastEnvelope_ok_iff ht hb]
    have left : reg.maxVersion.toNat = envelope.schemaVersion.toNat +
        (reg.maxVersion.toNat - envelope.schemaVersion.toNat) := by
      have := UInt8.lt_iff_toNat_lt.mp hb
      omega
    simp only [upcastRounds_ok_iff same left]
    constructor
    · rintro ⟨path, payload, hf, hc, rfl⟩
      exact ⟨payload, ⟨path, hf, hc⟩, rfl⟩
    · rintro ⟨payload, ⟨path, hf, hc⟩, rfl⟩
      exact ⟨path, payload, hf, hc, rfl⟩

/-- An envelope of version 0 goes up to version 2 in both registries. -/
theorem upcaster_registries_agree_twice : ∃ result, ((new 2).registerAll [⟨1, 2, .ok⟩, wrapUpcaster]).upcastEnvelope
    oldEnvelope = .ok result ∧ result.payload = .array [.null] :=
  ⟨_, (upcaster_registries_agree 2 _ (by decide) (by decide) (by decide) oldEnvelope (by decide) _).mpr
    ⟨.array [.null], rfl, rfl⟩, rfl⟩

end UpcasterRegistry

end Veloxide.Replay
