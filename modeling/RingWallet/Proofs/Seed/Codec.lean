import RingWallet.Proofs.Except
import RingWallet.Proofs.Scheme
import RingWallet.Seed.Codec

/-!
# Seeds and their serialized form

Each part of the reader is described by what stands in front of its bytes: the header
(`readHeader_eq_ok_iff`), the key seeds (`takeFields_eq_some_iff`), and the public randomness behind
them (`ofKeysAndRest_eq_ok_iff`). Put together, a seed is read from its serialized form and from
nothing else (`deserialize_eq_ok_iff`), and the bytes that are read at all are those with a header
and one of the header's two lengths (`exists_deserialize_iff`).
-/

set_option autoImplicit false

namespace RingWallet

/-! ## The constructors -/

/-- A long-lived seed is built from its key seeds. -/
theorem RootSeed.ofKeys_eq_ok_iff {keys : KeySeeds} {root : RootSeed} :
    RootSeed.ofKeys keys = .ok root ↔ root.keys = keys := by
  obtain ⟨own, hscheme⟩ := root
  constructor
  · intro h
    unfold RootSeed.ofKeys at h
    split at h
    · cases h
      rfl
    · cases h
  · rintro rfl
    simp [RootSeed.ofKeys, hscheme]

/-- A one-time seed is built from its key seeds and its public randomness. -/
theorem OneTimeSeed.ofKeys_eq_ok_iff {keys : KeySeeds} {publicRand? : Option Bytes}
    {seed : OneTimeSeed} :
    OneTimeSeed.ofKeys keys publicRand? = .ok seed ↔
      seed.keys = keys ∧ seed.publicRand?.map FixedBytes.toList = publicRand? := by
  constructor
  · intro h
    unfold OneTimeSeed.ofKeys at h
    split at h
    · cases h
      exact ⟨rfl, rfl⟩
    · cases h
    · cases h
    · split at h
      · cases h
      · rename_i publicRand hrand
        cases h
        rw [FixedBytes.ofList?_eq_some_iff.mp hrand]
        exact ⟨rfl, rfl⟩
  · obtain ⟨own, own?, hsome⟩ := seed
    change own = keys ∧ own?.map FixedBytes.toList = publicRand? → _
    rintro ⟨rfl, rfl⟩
    unfold OneTimeSeed.ofKeys
    -- The presence of public randomness is tied to the scheme, which leaves two of the four cases.
    split
    · rename_i hscheme hnone
      rw [Option.map_eq_none_iff] at hnone
      subst hnone
      rfl
    · rename_i hscheme hsurplus
      obtain ⟨rand, rfl, -⟩ := Option.map_eq_some_iff.mp hsurplus
      rw [hscheme] at hsome
      cases hsome
    · rename_i hscheme hmissing
      rw [Option.map_eq_none_iff] at hmissing
      subst hmissing
      rw [hscheme] at hsome
      cases hsome
    · rename_i hscheme hrand
      obtain ⟨rand, rfl, rfl⟩ := Option.map_eq_some_iff.mp hrand
      simp [FixedBytes.ofList?_toList]

/-! ## Key seeds -/

namespace KeySeeds

/-- A level fixes the number of fields, and each field has its size. -/
theorem length_fields (keys : KeySeeds) :
    (keys.fields.flatMap FixedBytes.toList).length =
      keys.level.fieldCount * CryptoScheme.seedLength := by
  cases keys <;>
    simp [fields, spend, serialNumber?, value?, detector?, level, PrivacyLevel.fieldCount] <;>
    omega

/-- A field is taken exactly where its bytes stand in front. -/
theorem takeField_eq_some_iff {data rest : Bytes} {field : SeedField} :
    takeField data = some (field, rest) ↔ data = field.toList ++ rest := by
  constructor
  · intro h
    unfold takeField at h
    split at h
    · rename_i found hfound
      cases h
      rw [← FixedBytes.ofList?_eq_some_iff.mp hfound, List.take_append_drop]
    · cases h
  · rintro rfl
    simp [takeField, FixedBytes.ofList?_toList]

theorem takeField_append (field : SeedField) (rest : Bytes) :
    takeField (field.toList ++ rest) = some (field, rest) :=
  takeField_eq_some_iff.mpr rfl

/-- The key seeds of a level are taken exactly where their fields stand in front. -/
theorem takeFields_eq_some_iff {level : PrivacyLevel} {data rest : Bytes} {keys : KeySeeds} :
    takeFields level data = some (keys, rest) ↔
      keys.level = level ∧ data = keys.fields.flatMap FixedBytes.toList ++ rest := by
  constructor
  · intro h
    -- One field after the other is split off, in the order of the level.
    cases level with
    | ringCtPre =>
      simp only [takeFields, Option.bind_eq_bind, Option.bind_eq_some_iff, Prod.exists,
        takeField_eq_some_iff] at h
      obtain ⟨spend, _, rfl, value, _, rfl, h⟩ := h
      cases h
      simp [KeySeeds.level, fields, KeySeeds.spend, serialNumber?, value?, detector?]
    | ringCt =>
      simp only [takeFields, Option.bind_eq_bind, Option.bind_eq_some_iff, Prod.exists,
        takeField_eq_some_iff] at h
      obtain ⟨spend, _, rfl, serialNumber, _, rfl, value, _, rfl, detector, _, rfl, h⟩ := h
      cases h
      simp [KeySeeds.level, fields, KeySeeds.spend, serialNumber?, value?, detector?]
    | pseudonym =>
      simp only [takeFields, Option.bind_eq_bind, Option.bind_eq_some_iff, Prod.exists,
        takeField_eq_some_iff] at h
      obtain ⟨spend, _, rfl, detector, _, rfl, h⟩ := h
      cases h
      simp [KeySeeds.level, fields, KeySeeds.spend, serialNumber?, value?, detector?]
  · rintro ⟨rfl, rfl⟩
    cases keys <;>
      simp [takeFields, KeySeeds.level, fields, KeySeeds.spend, serialNumber?, value?, detector?,
        takeField_append]

/-- Bytes that are long enough start with a field. -/
theorem exists_field_append (data : Bytes) (h : CryptoScheme.seedLength ≤ data.length) :
    ∃ field : SeedField, ∃ rest, data = field.toList ++ rest ∧
      rest.length + CryptoScheme.seedLength = data.length := by
  refine ⟨⟨data.take CryptoScheme.seedLength, List.length_take_of_le h⟩,
    data.drop CryptoScheme.seedLength, (List.take_append_drop _ _).symm, ?_⟩
  rw [List.length_drop]
  omega

/-- Bytes that are long enough start with the key seeds of any level. -/
theorem exists_takeFields {level : PrivacyLevel} {data : Bytes}
    (h : level.fieldCount * CryptoScheme.seedLength ≤ data.length) :
    ∃ keys rest, takeFields level data = some (keys, rest) := by
  -- The fields are split off in the order of the level, and what is left stays long enough.
  cases level with
  | ringCtPre =>
    simp only [PrivacyLevel.fieldCount] at h
    obtain ⟨spend, rest, rfl, hspend⟩ := exists_field_append data (by omega)
    obtain ⟨value, rest, rfl, -⟩ := exists_field_append rest (by omega)
    exact ⟨legacy spend value, rest, by simp [takeFields, takeField_append]⟩
  | ringCt =>
    simp only [PrivacyLevel.fieldCount] at h
    obtain ⟨spend, rest, rfl, hspend⟩ := exists_field_append data (by omega)
    obtain ⟨serialNumber, rest, rfl, hserial⟩ := exists_field_append rest (by omega)
    obtain ⟨value, rest, rfl, hvalue⟩ := exists_field_append rest (by omega)
    obtain ⟨detector, rest, rfl, -⟩ := exists_field_append rest (by omega)
    exact ⟨fullPrivacy spend serialNumber value detector, rest,
      by simp [takeFields, takeField_append]⟩
  | pseudonym =>
    simp only [PrivacyLevel.fieldCount] at h
    obtain ⟨spend, rest, rfl, hspend⟩ := exists_field_append data (by omega)
    obtain ⟨detector, rest, rfl, -⟩ := exists_field_append rest (by omega)
    exact ⟨pseudonym spend detector, rest, by simp [takeFields, takeField_append]⟩

end KeySeeds

/-! ## The header -/

theorem PrivacyLevel.length_header (level : PrivacyLevel) :
    level.header.length =
      CryptoScheme.tagLength + if level.scheme.hasLevelByte then 1 else 0 := by
  cases level <;> rfl

namespace Seed

/-- A level is declared exactly by its header. -/
theorem readHeader_eq_ok_iff {data body : Bytes} {level : PrivacyLevel} :
    readHeader data = .ok (level, body) ↔ data = level.header ++ body := by
  constructor
  · intro h
    unfold readHeader at h
    split at h
    · cases h
    · rename_i htag
      obtain ⟨rest, rfl⟩ := CryptoScheme.ofTag?_eq_some_iff.mp htag
      cases h
      simp [PrivacyLevel.header, PrivacyLevel.scheme, CryptoScheme.hasLevelByte, CryptoScheme.tag]
    · rename_i htag
      obtain ⟨rest, rfl⟩ := CryptoScheme.ofTag?_eq_some_iff.mp htag
      rw [CryptoScheme.drop_tag_append] at h
      cases rest with
      | nil => cases h
      | cons code rest =>
        dsimp only at h
        split at h
        · cases h
        · cases h
        · rename_i declared hne hcode
          cases h
          rw [PrivacyLevel.ofCode?_eq_some_iff.mp hcode]
          cases level with
          | ringCtPre => exact absurd rfl hne
          | ringCt => rfl
          | pseudonym => rfl
  · rintro rfl
    cases level <;> rfl

/-! ## The kind of seed -/

/-- A seed is told by its key seeds and by the public randomness that stands behind them. -/
theorem ofKeysAndRest_eq_ok_iff {keys : KeySeeds} {rest : Bytes} {seed : Seed} :
    ofKeysAndRest keys rest = .ok seed ↔
      seed.keys = keys ∧ (seed.publicRand?.map FixedBytes.toList).getD [] = rest := by
  constructor
  · intro h
    unfold ofKeysAndRest at h
    split at h
    · rename_i hempty
      obtain rfl := List.isEmpty_iff.mp hempty
      split at h
      · obtain ⟨own, hown, rfl⟩ := map_eq_ok_iff.mp h
        obtain ⟨hkeys, hnone⟩ := OneTimeSeed.ofKeys_eq_ok_iff.mp hown
        exact ⟨hkeys, by simp [publicRand?, hnone]⟩
      · obtain ⟨own, hown, rfl⟩ := map_eq_ok_iff.mp h
        exact ⟨RootSeed.ofKeys_eq_ok_iff.mp hown, rfl⟩
    · obtain ⟨own, hown, rfl⟩ := map_eq_ok_iff.mp h
      obtain ⟨hkeys, hsome⟩ := OneTimeSeed.ofKeys_eq_ok_iff.mp hown
      exact ⟨hkeys, by simp [publicRand?, hsome]⟩
  · rintro ⟨rfl, rfl⟩
    cases seed with
    | root own =>
      have hscheme : own.keys.scheme = .pqRingCtX := own.scheme_eq
      have hbuilt := RootSeed.ofKeys_eq_ok_iff.mpr (rfl : own.keys = own.keys)
      simp [ofKeysAndRest, publicRand?, keys, hscheme, hbuilt, Except.map]
    | oneTime own =>
      have hbuilt := OneTimeSeed.ofKeys_eq_ok_iff.mpr ⟨(rfl : own.keys = own.keys), rfl⟩
      have hsome := own.isSome_eq
      cases hrand : own.publicRand? with
      | none =>
        -- Without public randomness the scheme is the legacy one, which has no other kind.
        have hscheme : own.keys.scheme = .pqRingCt := by
          cases hown : own.keys.scheme <;> simp_all [CryptoScheme.publicRandLength?]
        rw [hrand, Option.map_none] at hbuilt
        simp [ofKeysAndRest, publicRand?, keys, hrand, hscheme, hbuilt, Except.map]
      | some rand =>
        have hne : rand.toList ≠ [] := by
          intro hnil
          have hlength := rand.length_eq
          simp [hnil] at hlength
        rw [hrand, Option.map_some] at hbuilt
        simp [ofKeysAndRest, publicRand?, keys, hrand, hne, hbuilt, Except.map]

/-! ## The whole seed -/

theorem serialize_eq (seed : Seed) :
    seed.serialize = seed.level.header ++ (seed.keys.fields.flatMap FixedBytes.toList ++
      (seed.publicRand?.map FixedBytes.toList).getD []) := by
  simp [serialize, KeySeeds.serialize, level]

/-- Only the current scheme has public randomness. -/
theorem length_publicRand (seed : Seed) :
    ((seed.publicRand?.map FixedBytes.toList).getD []).length =
      if seed.publicRand?.isSome then seed.scheme.publicRandLength?.getD 0 else 0 := by
  cases seed with
  | root own => rfl
  | oneTime own =>
    have hsome := own.isSome_eq
    cases hrand : own.publicRand? with
    | none => simp [publicRand?, hrand]
    | some rand =>
      cases hscheme : own.keys.scheme <;>
        simp_all [publicRand?, scheme, keys, CryptoScheme.publicRandLength?]

theorem length_serialize (seed : Seed) :
    seed.serialize.length = serializedLength seed.scheme seed.level seed.publicRand?.isSome := by
  have hheader := seed.level.length_header
  have hfields := seed.keys.length_fields
  have hrand := seed.length_publicRand
  rw [serialize_eq, List.length_append, List.length_append, hheader, hfields, hrand]
  exact (Nat.add_assoc _ _ _).symm

/-- A serialized seed has one of the lengths of its level. -/
theorem length_serialize_mem (seed : Seed) :
    seed.serialize.length ∈ serializedLengths seed.level := by
  rw [length_serialize]
  cases seed with
  | root own => exact List.mem_cons_self
  | oneTime own =>
    have hsome := own.isSome_eq
    cases hrand : own.publicRand? with
    | none =>
      rw [publicRand?, hrand]
      exact List.mem_cons_self
    | some rand =>
      rw [hrand] at hsome
      obtain ⟨length, hlength⟩ := Option.isSome_iff_exists.mp hsome.symm
      rw [publicRand?, hrand]
      apply List.mem_cons_of_mem
      rw [Option.mem_toList]
      exact Option.map_eq_some_iff.mpr ⟨length, hlength, rfl⟩

theorem deserialize_eq_ok_iff {data : Bytes} {seed : Seed} :
    deserialize data = .ok seed ↔ data = seed.serialize := by
  unfold deserialize
  constructor
  · intro h
    obtain ⟨⟨level, body⟩, hheader, h⟩ := bind_eq_ok_iff.mp h
    dsimp only at h
    split at h
    · split at h
      · rename_i keys rest hfields
        obtain ⟨rfl, rfl⟩ := KeySeeds.takeFields_eq_some_iff.mp hfields
        obtain ⟨rfl, rfl⟩ := ofKeysAndRest_eq_ok_iff.mp h
        rw [readHeader_eq_ok_iff.mp hheader, serialize_eq]
        rfl
      · cases h
    · cases h
  · rintro rfl
    -- All three parts are read as they were written, and the length is one of the two.
    have hfields := KeySeeds.takeFields_eq_some_iff.mpr
      ⟨(rfl : seed.keys.level = seed.keys.level),
        (rfl : _ = _ ++ (seed.publicRand?.map FixedBytes.toList).getD [])⟩
    have hkind := ofKeysAndRest_eq_ok_iff.mpr ⟨(rfl : seed.keys = seed.keys), rfl⟩
    have hlength := List.contains_iff_mem.mpr seed.length_serialize_mem
    refine bind_eq_ok_iff.mpr ⟨_, readHeader_eq_ok_iff.mpr seed.serialize_eq, ?_⟩
    dsimp only
    rw [if_pos hlength, level, hfields]
    exact hkind

/-- Behind key seeds of a scheme may stand nothing, or public randomness if the scheme has any. -/
theorem exists_ofKeysAndRest {keys : KeySeeds} {rest : Bytes}
    (h : rest.length = 0 ∨ keys.scheme.publicRandLength? = some rest.length) :
    ∃ seed, ofKeysAndRest keys rest = .ok seed := by
  simp only [ofKeysAndRest_eq_ok_iff]
  rcases h with hempty | hrand
  · obtain rfl := List.length_eq_zero_iff.mp hempty
    cases hscheme : keys.scheme with
    | pqRingCt => exact ⟨.oneTime ⟨keys, none, by rw [hscheme]; rfl⟩, rfl, rfl⟩
    | pqRingCtX => exact ⟨.root ⟨keys, hscheme⟩, rfl, rfl⟩
  · cases hscheme : keys.scheme with
    | pqRingCt =>
      rw [hscheme] at hrand
      cases hrand
    | pqRingCtX =>
      rw [hscheme] at hrand
      have hlength : rest.length = CryptoScheme.seedLength := (Option.some.inj hrand).symm
      exact ⟨.oneTime ⟨keys, some ⟨rest, hlength⟩, by rw [hscheme]; rfl⟩, rfl, rfl⟩

/-- Bytes are a serialized seed exactly if they have a header and one of the header's lengths. -/
theorem exists_deserialize_iff {data : Bytes} :
    (∃ seed, deserialize data = .ok seed) ↔
      ∃ level body, data = PrivacyLevel.header level ++ body ∧
        data.length ∈ serializedLengths level := by
  constructor
  · rintro ⟨seed, hseed⟩
    obtain rfl := deserialize_eq_ok_iff.mp hseed
    exact ⟨seed.level, _, seed.serialize_eq, seed.length_serialize_mem⟩
  · rintro ⟨level, body, hdata, hmem⟩
    have hlength := congrArg List.length hdata
    rw [List.length_append, level.length_header] at hlength
    -- The body has the length of the key seeds, or that of key seeds and public randomness.
    have hbody : body.length = level.fieldCount * CryptoScheme.seedLength ∨
        ∃ extra, level.scheme.publicRandLength? = some extra ∧
          body.length = level.fieldCount * CryptoScheme.seedLength + extra := by
      rcases List.mem_cons.mp hmem with hshort | hlong
      · left
        simp [serializedLength] at hshort
        omega
      · right
        obtain ⟨extra, hextra, hlong⟩ := Option.map_eq_some_iff.mp (Option.mem_toList.mp hlong)
        refine ⟨extra, hextra, ?_⟩
        simp [serializedLength, hextra] at hlong
        omega
    have hlong : level.fieldCount * CryptoScheme.seedLength ≤ body.length := by
      rcases hbody with hbody | ⟨extra, -, hbody⟩ <;> omega
    obtain ⟨keys, rest, hfields⟩ := KeySeeds.exists_takeFields hlong
    obtain ⟨rfl, rfl⟩ := KeySeeds.takeFields_eq_some_iff.mp hfields
    rw [List.length_append, keys.length_fields] at hbody
    obtain ⟨seed, hseed⟩ : ∃ seed, ofKeysAndRest keys rest = .ok seed := by
      apply exists_ofKeysAndRest
      rcases hbody with hbody | ⟨extra, hextra, hbody⟩
      · left
        omega
      · right
        rw [show rest.length = extra by omega]
        exact hextra
    obtain ⟨rfl, rfl⟩ := ofKeysAndRest_eq_ok_iff.mp hseed
    exact ⟨seed, deserialize_eq_ok_iff.mpr (hdata.trans seed.serialize_eq.symm)⟩

/-- Reading and writing seeds undo each other. A seed is read from its serialized form and from no
other bytes; that form has the length of the seed's scheme, level and kind, and belongs to no other
seed; and of all bytes exactly those with a level's header and one of that level's lengths are
read. -/
theorem seed_serialization_bijective (seed : Seed) (data : Bytes) :
    (deserialize data = .ok seed ↔ data = seed.serialize) ∧
    seed.serialize.length = serializedLength seed.scheme seed.level seed.publicRand?.isSome ∧
    (∀ other : Seed, other.serialize = seed.serialize ↔ other = seed) ∧
    ((∃ read, deserialize data = .ok read) ↔
      ∃ level body, data = PrivacyLevel.header level ++ body ∧
        data.length ∈ serializedLengths level) := by
  refine ⟨deserialize_eq_ok_iff, seed.length_serialize, fun other => ?_, exists_deserialize_iff⟩
  constructor
  · intro hsame
    have hother := deserialize_eq_ok_iff.mpr (rfl : other.serialize = other.serialize)
    rw [hsame, deserialize_eq_ok_iff.mpr rfl] at hother
    exact (Except.ok.inj hother).symm
  · rintro rfl
    rfl

end Seed

end RingWallet
