import RingWallet.Proofs.Address.Short
import RingWallet.Proofs.HashScheme.Addresses

/-!
# What a short address says of the address it refers to

The header of a short address records a network, and in version two a scheme and a level as well.
Fingerprint and hash are taken of the address and do not cover the header, so each recorded field is
right only if the comparison asks for it, and it asks for the network alone.

A header that was read stands for itself (`ShortHeader.reread_eq_self_iff`): in version two the
scheme is the current one, and it is the level's. So a short address that was read and that refers
to an address misdescribes it in one way only, by the level of a version-two header: it is the form
of the address under another level of the current scheme (`ShortAddress.misdescribes_iff`).
-/

set_option autoImplicit false

namespace RingWallet

/-! ## Headers that are read -/

namespace ShortMetadata

/-- The second metadata byte is zero for the legacy scheme and its level only. -/
theorem second_eq_zero_iff {metadata : ShortMetadata}
    (h : metadata.level.scheme = metadata.scheme) :
    metadata.bytes.2 = 0 ↔ metadata.scheme = .pqRingCt := by
  obtain ⟨version, network, scheme, level⟩ := metadata
  obtain rfl : level.scheme = scheme := h
  simp only [bytes]
  cases level <;> decide

end ShortMetadata

namespace ShortHeader

/-- Whether everything that a header records is so of an address. -/
def Describes : ShortHeader → AppAddress → Prop
  | v1 network, address => network = address.network
  | v2 metadata, address =>
    metadata.network = address.network ∧ metadata.scheme = address.scheme ∧
      metadata.level = address.level
  | v2Unspecified _, _ => True

/-- Whether a header has the version that is written now, and the scheme and the level of version
two. -/
def IsCurrent : ShortHeader → Prop
  | v1 _ => True
  | v2 metadata =>
    metadata.version = ShortMetadata.currentVersion ∧ metadata.scheme = .pqRingCtX ∧
      metadata.level.scheme = .pqRingCtX
  | v2Unspecified version => version = ShortMetadata.currentVersion

/-- The headers that are read from their own bytes. -/
theorem reread_eq_self_iff (header : ShortHeader) :
    header.reread = .ok header ↔ header.IsCurrent := by
  cases header with
  | v1 network => simp [reread, IsCurrent]
  | v2Unspecified version => simp [reread, ofMetadata, IsCurrent]
  | v2 metadata =>
    obtain ⟨version, network, scheme, level⟩ := metadata
    simp only [reread, ofMetadata, IsCurrent]
    constructor
    · intro h
      split at h
      · -- A header without fields is read.
        split at h <;> cases h
      · rename_i hsecond
        obtain ⟨metadata, hread, hsame⟩ := map_eq_ok_iff.mp h
        cases hsame
        obtain ⟨hversion, hscheme, -⟩ := ShortMetadata.ofBytes_eq_ok_iff.mp hread
        rw [ShortMetadata.second_eq_zero_iff hscheme] at hsecond
        dsimp only at hversion hscheme hsecond
        cases scheme with
        | pqRingCt => exact absurd rfl hsecond
        | pqRingCtX => exact ⟨hversion, rfl, hscheme⟩
    · rintro ⟨rfl, rfl, hscheme⟩
      have hsecond : ¬ (ShortMetadata.mk ShortMetadata.currentVersion network .pqRingCtX
          level).bytes.2 = 0 := by
        rw [ShortMetadata.second_eq_zero_iff hscheme]
        simp
      rw [if_neg hsecond, map_eq_ok_iff]
      exact ⟨_, ShortMetadata.ofBytes_eq_ok_iff.mpr ⟨rfl, hscheme, rfl⟩, rfl⟩

end ShortHeader

/-! ## References -/

namespace ShortAddress

theorem refersTo_iff (short : ShortAddress) (address : AppAddress) :
    short.refersTo address = true ↔
      (∀ network, short.network? = some network → network = address.network) ∧
        short.fingerprint = address.crypto.fingerprint ∧ short.hash = sha256 address.bytes := by
  simp [refersTo, Option.all_eq_true, and_assoc]

/-- A short address refers to an address exactly if it is the form of the address behind some
header that records no other network. -/
theorem refersTo_iff_ofHeader (short : ShortAddress) (address : AppAddress) :
    short.refersTo address = true ↔
      (∀ network, short.network? = some network → network = address.network) ∧
        short = ofHeader short.header address := by
  rw [refersTo_iff]
  obtain ⟨header, fingerprint, hash⟩ := short
  simp [ofHeader]

/-- The version-two form of an address under a level of the current scheme, which need not be the
address's. -/
def v2Under (level : PrivacyLevel) (address : AppAddress) : ShortAddress :=
  ofHeader (.v2 ⟨ShortMetadata.currentVersion, address.network, .pqRingCtX, level⟩) address

theorem parse_v2Under {level : PrivacyLevel} (h : level.scheme = .pqRingCtX)
    (address : AppAddress) : parse (v2Under level address).bytes = .ok (v2Under level address) :=
  (parse_bytes_eq_iff _).mpr ((ShortHeader.reread_eq_self_iff _).mpr ⟨rfl, rfl, h⟩)

theorem v2Under_refersTo (level : PrivacyLevel) (address : AppAddress) :
    (v2Under level address).refersTo address = true := by
  simp [refersTo_iff, v2Under, ofHeader, network?, ShortHeader.network?]

/-- The form under a level describes the address exactly if the level is the address's. -/
theorem v2Under_describes_iff {level : PrivacyLevel} (h : level.scheme = .pqRingCtX)
    (address : AppAddress) :
    (v2Under level address).header.Describes address ↔ level = address.level := by
  constructor
  · exact fun hdescribes => hdescribes.2.2
  · intro hlevel
    have hscheme : address.level.scheme = address.scheme := rfl
    exact ⟨rfl, by rw [← h, hlevel, hscheme], hlevel⟩

/-- A header that was read and that agrees on the network misdescribes an address by its level or
not at all. -/
theorem describes_or_eq_v2Under {short : ShortAddress} {address : AppAddress}
    (hcurrent : short.header.IsCurrent) (hrefers : short.refersTo address = true) :
    short.header.Describes address ∨
      ∃ level, level.scheme = .pqRingCtX ∧ level ≠ address.level ∧
        short = v2Under level address := by
  obtain ⟨hnetwork, hform⟩ := (refersTo_iff_ofHeader short address).mp hrefers
  obtain ⟨header, fingerprint, hash⟩ := short
  cases header with
  | v1 network => exact .inl (hnetwork network rfl)
  | v2Unspecified version => exact .inl trivial
  | v2 metadata =>
    obtain ⟨version, network, scheme, level⟩ := metadata
    obtain ⟨rfl, rfl, hscheme⟩ := hcurrent
    obtain rfl := hnetwork network rfl
    by_cases hlevel : level = address.level
    · exact .inl ((v2Under_describes_iff hscheme address).mpr hlevel)
    · exact .inr ⟨level, hscheme, hlevel, hform⟩

/-- For every byte string and every address: a short address that is read from the bytes and refers
to the address records no other network than the address's. It records a scheme or a level that is
not the address's exactly if the bytes are the version-two form of the address under a level of the
current scheme that is not its own. -/
theorem misdescribes_iff (data : Bytes) (address : AppAddress) :
    (∀ short, parse data = .ok short → short.refersTo address = true →
      ∀ network, short.network? = some network → network = address.network) ∧
    ((∃ short, parse data = .ok short ∧ short.refersTo address = true ∧
        ¬ short.header.Describes address) ↔
      ∃ level, level.scheme = .pqRingCtX ∧ level ≠ address.level ∧
        data = (v2Under level address).bytes) := by
  refine ⟨fun short _ hrefers => ((refersTo_iff short address).mp hrefers).1, ?_, ?_⟩
  · rintro ⟨short, hparse, hrefers, hwrong⟩
    have hbytes : short.bytes = data := bytes_of_parse hparse
    -- What was read is read again from its own bytes, so its header is a current one.
    have hcurrent : short.header.IsCurrent := by
      rw [← ShortHeader.reread_eq_self_iff, ← parse_bytes_eq_iff, hbytes]
      exact hparse
    obtain ⟨level, hscheme, hlevel, rfl⟩ :=
      (describes_or_eq_v2Under hcurrent hrefers).resolve_left hwrong
    exact ⟨level, hscheme, hlevel, hbytes.symm⟩
  · rintro ⟨level, hscheme, hlevel, rfl⟩
    refine ⟨v2Under level address, parse_v2Under hscheme address,
      v2Under_refersTo level address, ?_⟩
    rw [v2Under_describes_iff hscheme]
    exact hlevel

/-- The address of a pseudonym under a header that records full privacy, and a legacy address under
a header that records the current scheme: both are read, both refer to the address, and neither
describes it. -/
theorem not_every_reference_describes :
    (∃ short, parse (v2Under .ringCt (HashScheme.pseudonymAddress .test)).bytes = .ok short ∧
      short.refersTo (HashScheme.pseudonymAddress .test) = true ∧
      ¬ short.header.Describes (HashScheme.pseudonymAddress .test)) ∧
    ∃ short, parse (v2Under .pseudonym (blankLegacy .main)).bytes = .ok short ∧
      short.refersTo (blankLegacy .main) = true ∧
      ¬ short.header.Describes (blankLegacy .main) := by
  have hpseudonym : (HashScheme.pseudonymAddress .test).level = .pseudonym := rfl
  have hlegacy : (blankLegacy .main).level = .ringCtPre := rfl
  refine ⟨⟨_, parse_v2Under rfl _, v2Under_refersTo _ _, ?_⟩,
    ⟨_, parse_v2Under rfl _, v2Under_refersTo _ _, ?_⟩⟩
  · rw [v2Under_describes_iff rfl, hpseudonym]
    decide
  · rw [v2Under_describes_iff rfl, hlegacy]
    decide

end ShortAddress

end RingWallet
