import RingWallet.Proofs.Seed.Codec
import RingWallet.Seed.Parts

/-!
# Which seed records are complete

A level has some of four key fields (`PrivacyLevel.keyFields`). A record is complete if its scheme
has its level, exactly the key fields of the level are present, each has the size of a field, and
the public randomness fits its kind and scheme (`SeedParts.IsComplete`).

The key seeds of a record come from fields that are those of the key seeds, and from no others
(`KeySeeds.ofFields_eq_ok_iff`). So a record describes the seed whose record it is, and complete
records are those of seeds (`toSeed_eq_ok_iff`, `exists_toSeed_iff`). What is wrong with the key
fields of a record decides how it is refused, whatever else is in it (`seed_record_exact`).
-/

set_option autoImplicit false

namespace RingWallet

/-! ## Fields and records -/

/-- The key fields of a seed record. -/
inductive KeyField
  | spend
  | serialNumber
  | value
  | detector
  deriving DecidableEq

/-- The key fields that seeds of a level have. -/
def PrivacyLevel.keyFields : PrivacyLevel → List KeyField
  | ringCtPre => [.spend, .value]
  | ringCt => [.spend, .serialNumber, .value, .detector]
  | pseudonym => [.spend, .detector]

namespace SeedParts

/-- A key field of a record, if it is present. -/
def field? (parts : SeedParts) : KeyField → Option Bytes
  | .spend => parts.spend?
  | .serialNumber => parts.serialNumber?
  | .value => parts.value?
  | .detector => parts.detector?

/-- Exactly the key fields of the record's level are present. -/
def HasLevelFields (parts : SeedParts) : Prop :=
  ∀ field, (parts.field? field).isSome = true ↔ field ∈ parts.level.keyFields

/-- Every key field that is present has 64 bytes. -/
def FieldsSized (parts : SeedParts) : Prop :=
  ∀ field data, parts.field? field = some data → data.length = 64

/-- The public randomness is what kind and scheme ask for: none for a root seed, which only the
current scheme has, none for a one-time seed of the legacy scheme, and 64 bytes for one of the
current scheme. -/
def RandFits (parts : SeedParts) : Prop :=
  match parts.kind, parts.scheme with
  | .root, .pqRingCt => False
  | .root, .pqRingCtX | .oneTime, .pqRingCt => parts.publicRand? = none
  | .oneTime, .pqRingCtX => ∃ rand, parts.publicRand? = some rand ∧ rand.length = 64

/-- The record has everything that a seed of its kind, scheme and level has, and nothing else. -/
structure IsComplete (parts : SeedParts) : Prop where
  supported : parts.scheme.supports parts.level = true
  fields : parts.HasLevelFields
  sized : parts.FieldsSized
  rand : parts.RandFits

end SeedParts

/-! ## Key seeds -/

namespace KeySeeds

/-- A field is checked by its size alone. -/
theorem checkedField_eq_ok_iff {data : Bytes} {field : SeedField} :
    checkedField data = .ok field ↔ data = field.toList := by
  unfold checkedField
  constructor
  · intro h
    split at h
    · rename_i found hfound
      cases h
      exact FixedBytes.ofList?_eq_some_iff.mp hfound
    · cases h
  · rintro rfl
    rw [FixedBytes.ofList?_toList]

theorem checkedField_toList (field : SeedField) : checkedField field.toList = .ok field :=
  checkedField_eq_ok_iff.mpr rfl

/-- The fields are those of the key seeds: present exactly where the level has them. -/
structure HasFields (keys : KeySeeds) (spend? serialNumber? value? detector? : Option Bytes) :
    Prop where
  spend : spend? = some keys.spend.toList
  serialNumber : serialNumber? = keys.serialNumber?.map FixedBytes.toList
  value : value? = keys.value?.map FixedBytes.toList
  detector : detector? = keys.detector?.map FixedBytes.toList

variable {scheme : CryptoScheme} {level : PrivacyLevel}
  {spend? serialNumber? value? detector? : Option Bytes} {keys : KeySeeds}

/-- Key seeds are made from their fields, under their scheme and level. -/
theorem ofFields_eq_ok_iff :
    ofFields scheme level spend? serialNumber? value? detector? = .ok keys ↔
      keys.scheme = scheme ∧ keys.level = level ∧
        keys.HasFields spend? serialNumber? value? detector? := by
  constructor
  · intro h
    unfold ofFields at h
    split at h
    · rename_i hsupported
      have hscheme : level.scheme = scheme := eq_of_beq hsupported
      split at h
      · simp only [ofLegacy, bind_eq_ok_iff, checkedField_eq_ok_iff] at h
        obtain ⟨spend, rfl, value, rfl, h⟩ := h
        cases h
        exact ⟨hscheme, rfl, rfl, rfl, rfl, rfl⟩
      · simp only [ofFullPrivacy, bind_eq_ok_iff, checkedField_eq_ok_iff] at h
        obtain ⟨spend, rfl, serialNumber, rfl, value, rfl, detector, rfl, h⟩ := h
        cases h
        exact ⟨hscheme, rfl, rfl, rfl, rfl, rfl⟩
      · simp only [ofPseudonym, bind_eq_ok_iff, checkedField_eq_ok_iff] at h
        obtain ⟨spend, rfl, detector, rfl, h⟩ := h
        cases h
        exact ⟨hscheme, rfl, rfl, rfl, rfl, rfl⟩
      · cases h
    · cases h
  · rintro ⟨rfl, rfl, rfl, rfl, rfl, rfl⟩
    have hsupported : keys.scheme.supports keys.level = true := beq_self_eq_true _
    unfold ofFields
    rw [if_pos hsupported]
    cases keys with
    | legacy spend value =>
      change ofLegacy spend.toList value.toList = _
      rw [ofLegacy, checkedField_toList, checkedField_toList]
      rfl
    | fullPrivacy spend serialNumber value detector =>
      change ofFullPrivacy spend.toList serialNumber.toList value.toList detector.toList = _
      rw [ofFullPrivacy, checkedField_toList, checkedField_toList, checkedField_toList,
        checkedField_toList]
      rfl
    | pseudonym spend detector =>
      change ofPseudonym spend.toList detector.toList = _
      rw [ofPseudonym, checkedField_toList, checkedField_toList]
      rfl

end KeySeeds

/-! ## Failures -/

/-- The computation can fail in one way only. -/
def FailsOnly {ε α : Type} (e : ε) (result : Except ε α) : Prop :=
  ∀ cause, result = .error cause → cause = e

namespace FailsOnly

variable {ε α β : Type} {e : ε}

theorem ok (a : α) : FailsOnly e (.ok a) := fun _ h => nomatch h

theorem bind {first : Except ε α} {next : α → Except ε β} (hfirst : FailsOnly e first)
    (hnext : ∀ a, FailsOnly e (next a)) : FailsOnly e (first >>= next) := by
  intro cause h
  cases first with
  | error other => exact hfirst cause (congrArg Except.error (Except.error.inj h))
  | ok a => exact hnext a cause h

end FailsOnly

namespace KeySeeds

theorem checkedField_failsOnly (data : Bytes) :
    FailsOnly .corruptedSeed (checkedField data) := by
  intro cause h
  unfold checkedField at h
  split at h
  · cases h
  · cases h
    rfl

theorem ofLegacy_failsOnly (spend value : Bytes) :
    FailsOnly .corruptedSeed (ofLegacy spend value) :=
  (checkedField_failsOnly spend).bind fun _ => (checkedField_failsOnly value).bind fun _ => .ok _

theorem ofFullPrivacy_failsOnly (spend serialNumber value detector : Bytes) :
    FailsOnly .corruptedSeed (ofFullPrivacy spend serialNumber value detector) :=
  (checkedField_failsOnly spend).bind fun _ => (checkedField_failsOnly serialNumber).bind fun _ =>
    (checkedField_failsOnly value).bind fun _ => (checkedField_failsOnly detector).bind fun _ =>
      .ok _

theorem ofPseudonym_failsOnly (spend detector : Bytes) :
    FailsOnly .corruptedSeed (ofPseudonym spend detector) :=
  (checkedField_failsOnly spend).bind fun _ => (checkedField_failsOnly detector).bind fun _ => .ok _

end KeySeeds

namespace SeedParts

variable {parts : SeedParts}

/-! ## The key fields of a record -/

/-- The key seeds that the key fields of a record make. -/
def keySeeds (parts : SeedParts) : Except WalletError KeySeeds :=
  KeySeeds.ofFields parts.scheme parts.level parts.spend? parts.serialNumber? parts.value?
    parts.detector?

/-- The key fields of the record are those of key seeds. -/
abbrev HasFieldsOf (parts : SeedParts) (keys : KeySeeds) : Prop :=
  keys.HasFields parts.spend? parts.serialNumber? parts.value? parts.detector?

/-- The fields of key seeds are those of their level. -/
theorem HasFieldsOf.hasLevelFields {keys : KeySeeds} (h : parts.HasFieldsOf keys)
    (hlevel : keys.level = parts.level) : parts.HasLevelFields := by
  intro field
  rw [← hlevel]
  cases keys <;> cases field <;>
    simp [field?, h.spend, h.serialNumber, h.value, h.detector, KeySeeds.serialNumber?,
      KeySeeds.value?, KeySeeds.detector?, KeySeeds.level, PrivacyLevel.keyFields]

/-- The fields of key seeds have their size. -/
theorem HasFieldsOf.fieldsSized {keys : KeySeeds} (h : parts.HasFieldsOf keys) :
    parts.FieldsSized := by
  have hpresent : ∀ (own : Option SeedField) data, own.map FixedBytes.toList = some data →
      data.length = 64 := by
    intro own data hdata
    obtain ⟨field, -, rfl⟩ := Option.map_eq_some_iff.mp hdata
    exact field.length_eq
  intro field data hdata
  cases field with
  | spend => exact hpresent (some keys.spend) data (h.spend.symm.trans hdata)
  | serialNumber => exact hpresent keys.serialNumber? data (h.serialNumber.symm.trans hdata)
  | value => exact hpresent keys.value? data (h.value.symm.trans hdata)
  | detector => exact hpresent keys.detector? data (h.detector.symm.trans hdata)

/-- The fields of a level are those that one of the three constructors of key seeds takes. -/
theorem HasLevelFields.cases (h : parts.HasLevelFields) :
    (∃ spend value, parts.level = .ringCtPre ∧ parts.spend? = some spend ∧
      parts.serialNumber? = none ∧ parts.value? = some value ∧ parts.detector? = none) ∨
    (∃ spend serialNumber value detector, parts.level = .ringCt ∧ parts.spend? = some spend ∧
      parts.serialNumber? = some serialNumber ∧ parts.value? = some value ∧
      parts.detector? = some detector) ∨
    (∃ spend detector, parts.level = .pseudonym ∧ parts.spend? = some spend ∧
      parts.serialNumber? = none ∧ parts.value? = none ∧ parts.detector? = some detector) := by
  -- A field is present if the level has it, and missing if the level has it not.
  have hsome : ∀ field, field ∈ parts.level.keyFields → ∃ data, parts.field? field = some data :=
    fun field hmem => Option.isSome_iff_exists.mp ((h field).mpr hmem)
  have hnone : ∀ field, field ∉ parts.level.keyFields → parts.field? field = none :=
    fun field hnot => Option.not_isSome_iff_eq_none.mp fun hsome => hnot ((h field).mp hsome)
  cases hlevel : parts.level with
  | ringCtPre =>
    rw [hlevel] at hsome hnone
    obtain ⟨spend, hspend⟩ := hsome .spend (by decide)
    obtain ⟨value, hvalue⟩ := hsome .value (by decide)
    exact .inl ⟨spend, value, rfl, hspend, hnone .serialNumber (by decide), hvalue,
      hnone .detector (by decide)⟩
  | ringCt =>
    rw [hlevel] at hsome
    obtain ⟨spend, hspend⟩ := hsome .spend (by decide)
    obtain ⟨serialNumber, hserial⟩ := hsome .serialNumber (by decide)
    obtain ⟨value, hvalue⟩ := hsome .value (by decide)
    obtain ⟨detector, hdetector⟩ := hsome .detector (by decide)
    exact .inr (.inl ⟨spend, serialNumber, value, detector, rfl, hspend, hserial, hvalue,
      hdetector⟩)
  | pseudonym =>
    rw [hlevel] at hsome hnone
    obtain ⟨spend, hspend⟩ := hsome .spend (by decide)
    obtain ⟨detector, hdetector⟩ := hsome .detector (by decide)
    exact .inr (.inr ⟨spend, detector, rfl, hspend, hnone .serialNumber (by decide),
      hnone .value (by decide), hdetector⟩)

/-- Fields of the level that have their size are those of key seeds. -/
theorem HasLevelFields.exists_keys (h : parts.HasLevelFields) (hsized : parts.FieldsSized) :
    ∃ keys : KeySeeds, keys.level = parts.level ∧ parts.HasFieldsOf keys := by
  have hfield : ∀ field data, parts.field? field = some data →
      ∃ own : SeedField, data = own.toList :=
    fun field data hdata => ⟨⟨data, hsized field data hdata⟩, rfl⟩
  rcases h.cases with ⟨spend, value, hlevel, hspend, hserial, hvalue, hdetector⟩ |
    ⟨spend, serialNumber, value, detector, hlevel, hspend, hserial, hvalue, hdetector⟩ |
    ⟨spend, detector, hlevel, hspend, hserial, hvalue, hdetector⟩
  · obtain ⟨spend, rfl⟩ := hfield .spend _ hspend
    obtain ⟨value, rfl⟩ := hfield .value _ hvalue
    exact ⟨.legacy spend value, hlevel.symm, hspend, hserial, hvalue, hdetector⟩
  · obtain ⟨spend, rfl⟩ := hfield .spend _ hspend
    obtain ⟨serialNumber, rfl⟩ := hfield .serialNumber _ hserial
    obtain ⟨value, rfl⟩ := hfield .value _ hvalue
    obtain ⟨detector, rfl⟩ := hfield .detector _ hdetector
    exact ⟨.fullPrivacy spend serialNumber value detector, hlevel.symm, hspend, hserial, hvalue,
      hdetector⟩
  · obtain ⟨spend, rfl⟩ := hfield .spend _ hspend
    obtain ⟨detector, rfl⟩ := hfield .detector _ hdetector
    exact ⟨.pseudonym spend detector, hlevel.symm, hspend, hserial, hvalue, hdetector⟩

/-! ## The order of the checks -/

theorem keySeeds_of_unsupported (h : parts.scheme.supports parts.level = false) :
    parts.keySeeds = .error .invalidPrivacyLevel := by
  unfold keySeeds KeySeeds.ofFields
  rw [h]
  rfl

/-- Where the fields are not those of the level, this alone is the failure. -/
theorem keySeeds_of_not_hasLevelFields (hsupported : parts.scheme.supports parts.level = true)
    (h : ¬ parts.HasLevelFields) : parts.keySeeds = .error .mismatchedSchemePrivacyLevel := by
  unfold keySeeds KeySeeds.ofFields
  rw [if_pos hsupported]
  split
  case h_4 => rfl
  -- In each of the three forms that are accepted, the fields are those of the level.
  all_goals
    rename_i hlevel hspend hserial hvalue hdetector
    refine absurd (fun field => ?_) h
    cases field <;>
      simp [field?, hlevel, hspend, hserial, hvalue, hdetector, PrivacyLevel.keyFields]

/-- The fields of the level can only be of a wrong size. -/
theorem keySeeds_failsOnly (hsupported : parts.scheme.supports parts.level = true)
    (h : parts.HasLevelFields) : FailsOnly .corruptedSeed parts.keySeeds := by
  unfold keySeeds KeySeeds.ofFields
  rw [if_pos hsupported]
  rcases h.cases with ⟨spend, value, hlevel, hspend, hserial, hvalue, hdetector⟩ |
    ⟨spend, serialNumber, value, detector, hlevel, hspend, hserial, hvalue, hdetector⟩ |
    ⟨spend, detector, hlevel, hspend, hserial, hvalue, hdetector⟩
  · rw [hlevel, hspend, hserial, hvalue, hdetector]
    exact KeySeeds.ofLegacy_failsOnly spend value
  · rw [hlevel, hspend, hserial, hvalue, hdetector]
    exact KeySeeds.ofFullPrivacy_failsOnly spend serialNumber value detector
  · rw [hlevel, hspend, hserial, hvalue, hdetector]
    exact KeySeeds.ofPseudonym_failsOnly spend detector

/-- Key seeds are made from a record exactly if their scheme, level and fields are those of the
record. -/
theorem keySeeds_eq_ok_iff {keys : KeySeeds} :
    parts.keySeeds = .ok keys ↔
      keys.scheme = parts.scheme ∧ keys.level = parts.level ∧ parts.HasFieldsOf keys :=
  KeySeeds.ofFields_eq_ok_iff

theorem exists_keySeeds_iff :
    (∃ keys, parts.keySeeds = .ok keys) ↔
      parts.scheme.supports parts.level = true ∧ parts.HasLevelFields ∧ parts.FieldsSized := by
  constructor
  · rintro ⟨keys, hkeys⟩
    obtain ⟨hscheme, hlevel, hfields⟩ := keySeeds_eq_ok_iff.mp hkeys
    refine ⟨?_, hfields.hasLevelFields hlevel, hfields.fieldsSized⟩
    rw [← hscheme, ← hlevel]
    exact beq_self_eq_true _
  · rintro ⟨hsupported, hfields, hsized⟩
    obtain ⟨keys, hlevel, hown⟩ := hfields.exists_keys hsized
    have hscheme : parts.level.scheme = parts.scheme := eq_of_beq hsupported
    refine ⟨keys, keySeeds_eq_ok_iff.mpr ⟨?_, hlevel, hown⟩⟩
    rw [← hscheme, ← hlevel]
    rfl

/-- Fields of the level of which one has not its size are corrupted. -/
theorem keySeeds_of_not_fieldsSized (hsupported : parts.scheme.supports parts.level = true)
    (hfields : parts.HasLevelFields) (h : ¬ parts.FieldsSized) :
    parts.keySeeds = .error .corruptedSeed := by
  cases hkeys : parts.keySeeds with
  | error cause => rw [keySeeds_failsOnly hsupported hfields cause hkeys]
  | ok keys => exact absurd (exists_keySeeds_iff.mp ⟨keys, hkeys⟩).2.2 h

/-- What fails with the key fields fails with the record, whatever its kind and its public
randomness. -/
theorem toSeed_of_keySeeds_eq_error {cause : WalletError} (h : parts.keySeeds = .error cause) :
    parts.toSeed = .error cause := by
  unfold keySeeds at h
  unfold toSeed
  rw [h]
  rfl

/-! ## Records and seeds -/

/-- A record describes the seed whose record it is. -/
theorem toSeed_eq_ok_iff {seed : Seed} : parts.toSeed = .ok seed ↔ ofSeed seed = parts := by
  obtain ⟨kind, scheme, level, spend?, serialNumber?, value?, detector?, publicRand?⟩ := parts
  constructor
  · intro h
    obtain ⟨keys, hkeys, h⟩ := bind_eq_ok_iff.mp h
    obtain ⟨rfl, rfl, rfl, rfl, rfl, rfl⟩ := KeySeeds.ofFields_eq_ok_iff.mp hkeys
    -- All but the public randomness is that of the key seeds now.
    dsimp only at h
    split at h
    · cases h
    · obtain ⟨root, hroot, rfl⟩ := map_eq_ok_iff.mp h
      obtain rfl := RootSeed.ofKeys_eq_ok_iff.mp hroot
      rfl
    · obtain ⟨own, hown, rfl⟩ := map_eq_ok_iff.mp h
      obtain ⟨rfl, rfl⟩ := OneTimeSeed.ofKeys_eq_ok_iff.mp hown
      rfl
  · intro h
    cases h
    have hkeys := KeySeeds.ofFields_eq_ok_iff.mpr
      ⟨(rfl : seed.keys.scheme = _), (rfl : seed.keys.level = _), rfl, rfl, rfl, rfl⟩
    refine bind_eq_ok_iff.mpr ⟨seed.keys, hkeys, ?_⟩
    cases seed with
    | root root =>
      have hroot := RootSeed.ofKeys_eq_ok_iff.mpr (rfl : root.keys = _)
      exact map_eq_ok_iff.mpr ⟨root, hroot, rfl⟩
    | oneTime own =>
      have hown := OneTimeSeed.ofKeys_eq_ok_iff.mpr ⟨(rfl : own.keys = _), rfl⟩
      exact map_eq_ok_iff.mpr ⟨own, hown, rfl⟩

/-- The public randomness of a seed is what its kind and scheme ask for. -/
theorem randFits_ofSeed (seed : Seed) : (ofSeed seed).RandFits := by
  unfold RandFits
  cases seed with
  | root root =>
    have hscheme : (ofSeed (.root root)).scheme = .pqRingCtX := root.scheme_eq
    rw [hscheme]
    rfl
  | oneTime own =>
    have hsome := own.isSome_eq
    cases hscheme : own.keys.scheme with
    | pqRingCt =>
      rw [hscheme] at hsome
      rw [show (ofSeed (.oneTime own)).scheme = .pqRingCt from hscheme]
      have hnone := Option.not_isSome_iff_eq_none.mp (Bool.eq_false_iff.mp hsome)
      exact Option.map_eq_none_iff.mpr hnone
    | pqRingCtX =>
      rw [hscheme] at hsome
      obtain ⟨rand, hrand⟩ := Option.isSome_iff_exists.mp hsome
      rw [show (ofSeed (.oneTime own)).scheme = .pqRingCtX from hscheme]
      exact ⟨rand.toList, Option.map_eq_some_iff.mpr ⟨rand, hrand, rfl⟩, rand.length_eq⟩

theorem isComplete_ofSeed (seed : Seed) : (ofSeed seed).IsComplete := by
  have hkeys : (ofSeed seed).keySeeds = .ok seed.keys :=
    keySeeds_eq_ok_iff.mpr ⟨rfl, rfl, rfl, rfl, rfl, rfl⟩
  obtain ⟨hsupported, hfields, hsized⟩ := exists_keySeeds_iff.mp ⟨seed.keys, hkeys⟩
  exact ⟨hsupported, hfields, hsized, randFits_ofSeed seed⟩

/-- Exactly the complete records describe a seed. -/
theorem exists_toSeed_iff : (∃ seed, parts.toSeed = .ok seed) ↔ parts.IsComplete := by
  constructor
  · rintro ⟨seed, hseed⟩
    rw [← toSeed_eq_ok_iff.mp hseed]
    exact isComplete_ofSeed seed
  · intro h
    obtain ⟨keys, hkeys⟩ := exists_keySeeds_iff.mpr ⟨h.supported, h.fields, h.sized⟩
    have hrand := h.rand
    simp only [toSeed_eq_ok_iff]
    obtain ⟨kind, scheme, level, spend?, serialNumber?, value?, detector?, publicRand?⟩ := parts
    obtain ⟨hscheme : keys.scheme = scheme, rfl, rfl, rfl, rfl, rfl⟩ := keySeeds_eq_ok_iff.mp hkeys
    -- The key seeds are those of the record: what is left to find is the public randomness.
    cases kind <;> cases scheme
    case root.pqRingCt => exact hrand.elim
    case root.pqRingCtX =>
      obtain rfl : publicRand? = none := hrand
      exact ⟨.root ⟨keys, hscheme⟩, by rw [← hscheme]; rfl⟩
    case oneTime.pqRingCt =>
      obtain rfl : publicRand? = none := hrand
      have hnone : (none : Option SeedField).isSome = keys.scheme.publicRandLength?.isSome := by
        rw [hscheme]
        rfl
      exact ⟨.oneTime ⟨keys, none, hnone⟩, by rw [← hscheme]; rfl⟩
    case oneTime.pqRingCtX =>
      obtain ⟨rand, rfl, hlength⟩ := hrand
      have hsome : (some (⟨rand, hlength⟩ : SeedField)).isSome =
          keys.scheme.publicRandLength?.isSome := by
        rw [hscheme]
        rfl
      exact ⟨.oneTime ⟨keys, some ⟨rand, hlength⟩, hsome⟩, by rw [← hscheme]; rfl⟩

/-- A record is serialized as the seed it describes. -/
theorem serialize_of_toSeed_eq_ok {seed : Seed} (h : parts.toSeed = .ok seed) :
    parts.serialize = .ok seed.serialize := by
  unfold serialize
  rw [h]
  rfl

/-- A record becomes a seed exactly if it is complete; the record of that seed is the one it came
from, both have one serialized form, and every seed comes back from its record. Of the failures,
an unsupported level comes first, then a key field that is missing or too many, then one of a wrong
size, whatever the rest of the record is. -/
theorem seed_record_exact (parts : SeedParts) :
    ((∃ seed, parts.toSeed = .ok seed) ↔ parts.IsComplete) ∧
    (∀ seed, parts.toSeed = .ok seed →
      ofSeed seed = parts ∧ parts.serialize = .ok seed.serialize) ∧
    (∀ seed, (ofSeed seed).toSeed = .ok seed) ∧
    (parts.scheme.supports parts.level = false → parts.toSeed = .error .invalidPrivacyLevel) ∧
    (parts.scheme.supports parts.level = true → ¬ parts.HasLevelFields →
      parts.toSeed = .error .mismatchedSchemePrivacyLevel) ∧
    (parts.scheme.supports parts.level = true → parts.HasLevelFields → ¬ parts.FieldsSized →
      parts.toSeed = .error .corruptedSeed) := by
  refine ⟨exists_toSeed_iff, fun seed h => ?_, fun seed => ?_, fun h => ?_, fun hsupported h => ?_,
    fun hsupported hfields h => ?_⟩
  · exact ⟨toSeed_eq_ok_iff.mp h, serialize_of_toSeed_eq_ok h⟩
  · exact toSeed_eq_ok_iff.mpr rfl
  · exact toSeed_of_keySeeds_eq_error (keySeeds_of_unsupported h)
  · exact toSeed_of_keySeeds_eq_error (keySeeds_of_not_hasLevelFields hsupported h)
  · exact toSeed_of_keySeeds_eq_error (keySeeds_of_not_fieldsSized hsupported hfields h)

/-- The record of a pseudonymous root seed. -/
def pseudonymRecord : SeedParts where
  kind := .root
  scheme := .pqRingCtX
  level := .pseudonym
  spend? := some (List.replicate 64 1)
  serialNumber? := none
  value? := none
  detector? := some (List.replicate 64 4)
  publicRand? := none

/-- The record is that of a seed, and each of the three defects is told by its own failure, also
where public randomness is too many at the same time. -/
theorem pseudonym_record_defects :
    (∃ seed, pseudonymRecord.toSeed = .ok seed ∧ ofSeed seed = pseudonymRecord ∧
      pseudonymRecord.serialize = .ok seed.serialize) ∧
    ({ pseudonymRecord with scheme := .pqRingCt, publicRand? := some [] } : SeedParts).toSeed =
      .error .invalidPrivacyLevel ∧
    ({ pseudonymRecord with detector? := none, publicRand? := some [] } : SeedParts).toSeed =
      .error .mismatchedSchemePrivacyLevel ∧
    ({ pseudonymRecord with spend? := some [], publicRand? := some [] } : SeedParts).toSeed =
      .error .corruptedSeed := by
  obtain ⟨hwhole, hback, -⟩ := seed_record_exact pseudonymRecord
  obtain ⟨-, -, -, hunsupported, -⟩ :=
    seed_record_exact { pseudonymRecord with scheme := .pqRingCt, publicRand? := some [] }
  obtain ⟨-, -, -, -, hmissing, -⟩ :=
    seed_record_exact { pseudonymRecord with detector? := none, publicRand? := some [] }
  obtain ⟨-, -, -, -, -, hsize⟩ :=
    seed_record_exact { pseudonymRecord with spend? := some [], publicRand? := some [] }
  have hcomplete : pseudonymRecord.IsComplete := by
    refine ⟨rfl, fun field => ?_, fun field data hdata => ?_, rfl⟩
    · cases field <;> decide
    · cases field <;> cases hdata <;> rfl
  refine ⟨?_, hunsupported rfl, hmissing rfl fun h => ?_, hsize rfl (fun field => ?_) fun h => ?_⟩
  · obtain ⟨seed, hseed⟩ := hwhole.mpr hcomplete
    exact ⟨seed, hseed, hback seed hseed⟩
  · exact absurd ((h .detector).mpr (by decide)) (by decide)
  · cases field <;> decide
  · exact absurd (h .spend [] rfl) (by decide)

end SeedParts

end RingWallet
