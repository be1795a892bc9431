import Veloxide.Library.Walk
import Veloxide.Replay.Upcaster

namespace Veloxide.Replay.UpcasterRegistry

open Walk List

def registerAll (registry : UpcasterRegistry) (upcasters : List Upcaster) : UpcasterRegistry :=
  upcasters.foldl (fun registry upcaster =>
    match registry.register upcaster with
    | .ok after => after
    | .error _ => registry) registry

/-- A run of the loop of `build_upcast_chain` to its end, from the versions visited so far. -/
inductive Builds (registry : UpcasterRegistry) : List UInt8 → UInt8 → Except UpcasterError (List Upcaster) → Prop
  | done {visited version} (reached : ¬ version < registry.maxVersion) : Builds registry visited version (.ok [])
  | circular {visited version} (older : version < registry.maxVersion) (known : version ∈ visited) :
      Builds registry visited version (.error (.circularChain version))
  | missing {visited version} (older : version < registry.maxVersion) (fresh : version ∉ visited)
      (absent : registry.get version = none) :
      Builds registry visited version (.error (.noUpcasterRegistered version))
  | next {visited version upcaster result} (older : version < registry.maxVersion) (fresh : version ∉ visited)
      (found : registry.get version = some upcaster)
      (rest : Builds registry (version :: visited) upcaster.targetVersion result) :
      Builds registry visited version (result.map (upcaster :: ·))

def advance (registry : UpcasterRegistry) (version : UInt8) : Option (Upcaster × UInt8) :=
  if version < registry.maxVersion then
    (registry.get version).map fun upcaster => (upcaster, upcaster.targetVersion)
  else none

/-- Follows the registered upcasters from one version to another, as long as versions are below the maximum. -/
abbrev VersionPath (registry : UpcasterRegistry) := Path registry.advance

def composition (chain : List Upcaster) (payload : Json) : Except UpcastFailure Json :=
  chain.foldlM (fun payload upcaster => upcaster.upcast payload) payload

def Revisits (registry : UpcasterRegistry) (start : UInt8) : Prop :=
  ∃ path version, VersionPath registry start path version ∧ version ∈ path.map Prod.fst

def StopsShort (registry : UpcasterRegistry) (start : UInt8) : Prop :=
  ∃ path version, VersionPath registry start path version ∧ version < registry.maxVersion ∧ registry.get version = none

section

variable (reg : UpcasterRegistry) (upcasters : List Upcaster)

theorem maxVersion_registerAll : (reg.registerAll upcasters).maxVersion = reg.maxVersion := by
  induction upcasters generalizing reg with
  | nil => rfl
  | cons upcaster upcasters ih =>
    rw [registerAll, foldl_cons, ← registerAll, ih, register]
    split_ifs with tooNew present
    · rfl
    · rfl
    · rfl

theorem target_le_of_registerAll (bounded : ∀ upcaster ∈ reg.upcasters, upcaster.targetVersion ≤ reg.maxVersion) :
    ∀ upcaster ∈ (reg.registerAll upcasters).upcasters, upcaster.targetVersion ≤ reg.maxVersion := by
  induction upcasters generalizing reg with
  | nil => exact bounded
  | cons upcaster upcasters ih =>
    rw [registerAll, foldl_cons, ← registerAll, register]
    split_ifs with tooNew present
    · exact ih reg bounded
    · exact ih reg bounded
    · exact ih _ (forall_mem_cons.mpr ⟨UInt8.not_lt.mp tooNew, bounded⟩)

end

variable {upcaster : Upcaster}

section

variable {reg : UpcasterRegistry} {visited : List UInt8}

theorem length_le_of_nodup (hd : visited.Nodup) : visited.length ≤ 256 := by
  have hi : (visited.map UInt8.toNat).Nodup := hd.map fun _ _ same => UInt8.toNat_inj.mp same
  have bounded : ∀ number ∈ visited.map UInt8.toNat, number ∈ List.range 256 := by
    intro number mem
    obtain ⟨version, _, rfl⟩ := mem_map.mp mem
    exact mem_range.mpr version.toNat_lt
  have hl := (hi.subperm bounded).length_le
  rwa [length_map, length_range] at hl

theorem builds_of_rounds (hd : visited.Nodup) {rounds : Nat} (he : 257 ≤ rounds + visited.length)
    (version : UInt8) : Builds reg visited version (reg.buildUpcastChain rounds visited version) := by
  induction rounds generalizing visited version with
  | zero =>
    have hs := length_le_of_nodup hd
    omega
  | succ rounds ih =>
    rw [buildUpcastChain]
    split_ifs with older known
    · exact .circular older known
    · cases hf : reg.get version with
      | none => exact .missing older known hf
      | some upcaster =>
        apply Builds.next older known hf
        apply ih (nodup_cons.mpr ⟨known, hd⟩)
        rw [length_cons]
        omega
    · exact .done older

variable {version : UInt8}

theorem advance_of_get (older : version < reg.maxVersion) (hf : reg.get version = some upcaster) :
    reg.advance version = some (upcaster, upcaster.targetVersion) := by
  rw [advance, if_pos older, hf]
  rfl

theorem Builds.cases {result : Except UpcasterError (List Upcaster)} (hb : Builds reg visited version result) :
    (∃ path last, VersionPath reg version path last ∧ ¬ last < reg.maxVersion ∧ result = .ok (path.map Prod.snd)) ∨
      (∃ path last, VersionPath reg version path last ∧ (last ∈ visited ∨ last ∈ path.map Prod.fst) ∧
        result = .error (.circularChain last)) ∨
      ∃ path last, VersionPath reg version path last ∧ last < reg.maxVersion ∧
        reg.get last = none ∧ result = .error (.noUpcasterRegistered last) := by
  induction hb with
  | done hr => exact .inl ⟨[], _, .nil _, hr, rfl⟩
  | circular older hk => exact .inr (.inl ⟨[], _, .nil _, .inl hk, rfl⟩)
  | missing older hc ha => exact .inr (.inr ⟨[], _, .nil _, older, ha, rfl⟩)
  | next older hc ho rest ih =>
    have ht := advance_of_get older ho
    rcases ih with ⟨path, last, hf, hr, rfl⟩ | ⟨path, last, hf, hk, rfl⟩ |
      ⟨path, last, hf, older, ha, rfl⟩
    · exact .inl ⟨_, last, .cons ht hf, hr, rfl⟩
    · refine .inr (.inl ⟨_, last, .cons ht hf, ?_, rfl⟩)
      rw [mem_cons] at hk
      rw [map_cons, mem_cons]
      rcases hk with (same | past) | passed
      · exact .inr (.inl same)
      · exact .inl past
      · exact .inr (.inr passed)
    · exact .inr (.inr ⟨_, last, .cons ht hf, older, ha, rfl⟩)

end

section

variable {reg : UpcasterRegistry} {start version : UInt8} {path : List (UInt8 × Upcaster)}

theorem mem_of_get (hf : reg.get version = some upcaster) : upcaster ∈ reg.upcasters := mem_of_find?_eq_some hf

theorem advance_eq_some {next : UInt8} (ht : reg.advance version = some (upcaster, next)) :
    upcaster ∈ reg.upcasters ∧ next = upcaster.targetVersion := by
  rw [advance] at ht
  split_ifs at ht with older
  obtain ⟨found, hp, same⟩ := Option.map_eq_some_iff.mp ht
  cases same
  exact ⟨mem_of_get hp, rfl⟩

theorem advance_maxVersion : reg.advance reg.maxVersion = none := by
  rw [advance, if_neg (UInt8.lt_irrefl _)]

theorem advance_of_missing (ha : reg.get version = none) : reg.advance version = none := by
  rw [advance, ha]
  simp

theorem last_le_of_path (bounded : ∀ upcaster ∈ reg.upcasters, upcaster.targetVersion ≤ reg.maxVersion)
    (older : start ≤ reg.maxVersion) (hf : VersionPath reg start path version) : version ≤ reg.maxVersion := by
  induction hf with
  | nil => exact older
  | cons ht _ ih =>
    obtain ⟨mem, rfl⟩ := advance_eq_some ht
    exact ih (bounded _ mem)

theorem not_revisits_of_reaches (he : VersionPath reg start path reg.maxVersion) : ¬ reg.Revisits start := by
  intro hr
  obtain ⟨loop, again, hf, left⟩ := hr
  exact hf.not_terminal_of_revisit left he advance_maxVersion

theorem not_stopsShort_of_reaches (hr : VersionPath reg start path reg.maxVersion) : ¬ reg.StopsShort start := by
  intro hs
  obtain ⟨other, last, hf, older, ha⟩ := hs
  obtain ⟨_, same⟩ := hr.unique_of_terminal hf advance_maxVersion (advance_of_missing ha)
  rw [same] at older
  exact UInt8.lt_irrefl _ older

theorem not_stopsShort_of_revisits (hr : reg.Revisits start) : ¬ reg.StopsShort start := by
  intro hs
  obtain ⟨other, last, ends, _, ha⟩ := hs
  obtain ⟨loop, again, hf, left⟩ := hr
  exact hf.not_terminal_of_revisit left ends (advance_of_missing ha)

theorem version_cons (upcaster : Upcaster) (chain : List Upcaster) (start : UInt8) :
    ((upcaster :: chain).getLast?.map Upcaster.targetVersion).getD start =
      (chain.getLast?.map Upcaster.targetVersion).getD upcaster.targetVersion := by
  rw [getLast?_cons]
  cases chain.getLast? with
  | none | some last => rfl

variable (env : EventEnvelope)

theorem applyUpcastChain_eq (hc : List Upcaster) : applyUpcastChain env hc = match composition hc env.payload with
    | .error err => .error (.upcastingFailed err.toText) | .ok payload => .ok { env with
        schemaVersion := (hc.getLast?.map Upcaster.targetVersion).getD env.schemaVersion
        payload := payload } := by
  induction hc generalizing env with
  | nil => rfl
  | cons upcaster hc ih =>
    rw [applyUpcastChain, composition, foldlM_cons, version_cons]
    cases upcaster.upcast env.payload with
    | error err => rfl
    | ok payload => exact ih _

theorem getLast?_path (hf : VersionPath reg start path version) :
    ((path.map Prod.snd).getLast?.map Upcaster.targetVersion).getD start = version := by
  induction hf with
  | nil => rfl
  | cons ht _ ih =>
    obtain ⟨_, rfl⟩ := advance_eq_some ht
    rw [map_cons, version_cons]
    exact ih

theorem apply_path (hf : VersionPath reg env.schemaVersion path version) :
    applyUpcastChain env (path.map Prod.snd) = match composition (path.map Prod.snd) env.payload with
      | .error err => .error (.upcastingFailed err.toText)
      | .ok payload => .ok { env with schemaVersion := version, payload := payload } := by
  rw [applyUpcastChain_eq, getLast?_path hf]

end

section

variable {reg : UpcasterRegistry} {env : EventEnvelope}

theorem upcastEnvelope_cases (bounded : ∀ upcaster ∈ reg.upcasters, upcaster.targetVersion ≤ reg.maxVersion)
    (older : env.schemaVersion < reg.maxVersion) : (∃ path, VersionPath reg env.schemaVersion path reg.maxVersion ∧
        reg.upcastEnvelope env = match composition (path.map Prod.snd) env.payload with
          | .error err => .error (.upcastingFailed err.toText)
          | .ok payload => .ok { env with schemaVersion := reg.maxVersion, payload := payload }) ∨
      (reg.Revisits env.schemaVersion ∧ ∃ version, reg.upcastEnvelope env = .error (.circularChain version)) ∨
      (reg.StopsShort env.schemaVersion ∧
        ∃ version, reg.upcastEnvelope env = .error (.noUpcasterRegistered version)) := by
  have hb : Builds reg [] env.schemaVersion _ := builds_of_rounds nodup_nil (Nat.le_refl 257) _
  rw [upcastEnvelope, if_neg (UInt8.not_le.mpr older)]
  rcases hb.cases with ⟨path, last, hf, hr, hu⟩ | ⟨path, last, hf, hk, hu⟩ |
    ⟨path, last, hf, he, ha, hu⟩
  · have ho := last_le_of_path bounded (UInt8.le_of_lt older) hf
    have same : last = reg.maxVersion := UInt8.le_antisymm ho (UInt8.not_lt.mp hr)
    subst same
    refine .inl ⟨path, hf, ?_⟩
    rw [hu]
    exact apply_path env hf
  · rw [hu]
    exact .inr (.inl ⟨⟨path, last, hf, hk.resolve_left not_mem_nil⟩, last, rfl⟩)
  · rw [hu]
    exact .inr (.inr ⟨⟨path, last, hf, he, ha⟩, last, rfl⟩)

variable (bounded : ∀ upcaster ∈ reg.upcasters, upcaster.targetVersion ≤ reg.maxVersion)
  (older : env.schemaVersion < reg.maxVersion)

include bounded older

theorem upcastEnvelope_ok_iff (hu : EventEnvelope) : reg.upcastEnvelope env = .ok hu ↔
    ∃ path payload, VersionPath reg env.schemaVersion path reg.maxVersion ∧
      composition (path.map Prod.snd) env.payload = .ok payload ∧
      hu = { env with schemaVersion := reg.maxVersion, payload := payload } := by
  rcases upcastEnvelope_cases bounded older with ⟨path, he, ha⟩ | ⟨hr, version, ha⟩ |
    ⟨ht, version, ha⟩
  · rw [ha]
    constructor
    · intro hs
      cases hc : composition (path.map Prod.snd) env.payload with
      | error err =>
        rw [hc] at hs
        cases hs
      | ok payload =>
        rw [hc] at hs
        cases hs
        exact ⟨path, payload, he, hc, rfl⟩
    · intro ho
      obtain ⟨other, payload, hf, hc, rfl⟩ := ho
      obtain ⟨rfl, _⟩ := he.unique_of_terminal hf advance_maxVersion advance_maxVersion
      rw [hc]
  · rw [ha]
    refine ⟨nofun, fun ho => ?_⟩
    obtain ⟨path, _, hf, _⟩ := ho
    exact absurd hr (not_revisits_of_reaches hf)
  · rw [ha]
    refine ⟨nofun, fun ho => ?_⟩
    obtain ⟨path, _, hf, _⟩ := ho
    exact absurd ht (not_stopsShort_of_reaches hf)

theorem circularChain_iff : (∃ version, reg.upcastEnvelope env = .error (.circularChain version)) ↔
    reg.Revisits env.schemaVersion := by
  rcases upcastEnvelope_cases bounded older with ⟨path, he, ha⟩ | ⟨hr, ho⟩ |
    ⟨hs, version, ha⟩
  · refine iff_of_false (fun ho => ?_) (not_revisits_of_reaches he)
    obtain ⟨version, hf⟩ := ho
    rw [ha] at hf
    split at hf
    · cases hf
    · cases hf
  · exact iff_of_true ho hr
  · refine iff_of_false (fun ho => ?_) fun hr => not_stopsShort_of_revisits hr hs
    obtain ⟨other, hf⟩ := ho
    rw [ha] at hf
    cases hf

theorem noUpcasterRegistered_iff : (∃ version, reg.upcastEnvelope env = .error (.noUpcasterRegistered version)) ↔
    reg.StopsShort env.schemaVersion := by
  rcases upcastEnvelope_cases bounded older with ⟨path, he, ha⟩ | ⟨hr, version, ha⟩ |
    ⟨hs, ho⟩
  · refine iff_of_false (fun ho => ?_) (not_stopsShort_of_reaches he)
    obtain ⟨version, hf⟩ := ho
    rw [ha] at hf
    split at hf
    · cases hf
    · cases hf
  · refine iff_of_false (fun ho => ?_) (not_stopsShort_of_revisits hr)
    obtain ⟨other, hf⟩ := ho
    rw [ha] at hf
    cases hf
  · exact iff_of_true ho hs

end

theorem upcastEnvelope_follows_path (maxVersion : UInt8) (upcasters : List Upcaster) (envelope : EventEnvelope)
    (registry : UpcasterRegistry) (registered : registry = (new maxVersion).registerAll upcasters) :
    Builds registry [] envelope.schemaVersion (registry.buildUpcastChain 257 [] envelope.schemaVersion) ∧
      (envelope.schemaVersion < maxVersion → (∀ path other, VersionPath registry envelope.schemaVersion path maxVersion →
          VersionPath registry envelope.schemaVersion other maxVersion → path = other) ∧
        (∀ upcast, registry.upcastEnvelope envelope = .ok upcast ↔
          ∃ path payload, VersionPath registry envelope.schemaVersion path maxVersion ∧
            composition (path.map Prod.snd) envelope.payload = .ok payload ∧
            upcast = { envelope with schemaVersion := maxVersion, payload := payload }) ∧
        ((∃ version, registry.upcastEnvelope envelope = .error (.circularChain version)) ↔
          registry.Revisits envelope.schemaVersion) ∧
        ((∃ version, registry.upcastEnvelope envelope = .error (.noUpcasterRegistered version)) ↔
          registry.StopsShort envelope.schemaVersion)) := by
  have hm : registry.maxVersion = maxVersion := by
    rw [registered]
    exact maxVersion_registerAll (new maxVersion) upcasters
  have bounded : ∀ upcaster ∈ registry.upcasters, upcaster.targetVersion ≤ registry.maxVersion := by
    rw [hm, registered]
    exact target_le_of_registerAll (new maxVersion) upcasters nofun
  clear registered
  subst hm
  refine ⟨builds_of_rounds nodup_nil (Nat.le_refl 257) _, fun older => ⟨fun path other left hr =>
    (left.unique_of_terminal hr advance_maxVersion advance_maxVersion).1, ?_⟩⟩
  exact ⟨upcastEnvelope_ok_iff bounded older, circularChain_iff bounded older, noUpcasterRegistered_iff bounded older⟩

section Sample

def wrapUpcaster : Upcaster := ⟨0, 1, fun payload => .ok (.array [payload])⟩

def tagUpcaster : Upcaster := ⟨1, 3, fun payload => .ok (.object [("v3", payload)])⟩

def sampleRegistry : UpcasterRegistry := (new 3).registerAll [tagUpcaster, ⟨2, 1, .ok⟩, wrapUpcaster, ⟨0, 0, .ok⟩]

def oldEnvelope : EventEnvelope := ⟨0, "id", 1, 5, .null, .default⟩

/-- An envelope of version 0 goes through version 1 to version 3; the second registration for 0 was refused. -/
theorem upcastEnvelope_follows_path_twice : oldEnvelope.schemaVersion < 3 ∧ sampleRegistry.upcastEnvelope oldEnvelope =
    .ok { oldEnvelope with schemaVersion := 3, payload := .object [("v3", .array [.null])] } := by
  refine ⟨by decide, ?_⟩
  have hf := (upcastEnvelope_follows_path 3 _ oldEnvelope sampleRegistry rfl).2 (by decide)
  refine (hf.2.1 _).mpr ⟨[(0, wrapUpcaster), (1, tagUpcaster)], _, ?_, rfl, rfl⟩
  exact .cons rfl (.cons rfl (.nil 3))

end Sample

end Veloxide.Replay.UpcasterRegistry
