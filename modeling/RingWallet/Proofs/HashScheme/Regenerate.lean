import RingWallet.Proofs.HashScheme.OneTime

/-!
# Keys made again from an address

A root seed keeps nothing about the addresses it has. The public randomness of an address stands in
front of its coin address (`publicRandOf_ownAddress`), so the keys can be derived again, and they
are the keys behind the address if they have that address.

An account makes keys again for exactly the addresses that its root seed has with some public
randomness. They are the keys that were derived with it, and those of the one-time seed that is
bound to it (`regenerates_exactly_own_addresses`).
-/

set_option autoImplicit false

namespace RingWallet

namespace HashScheme

/-! ## The randomness inside an address -/

/-- The address that a root seed has with public randomness. -/
def ownAddress (root : RootSeed) (publicRand : SeedField) : CryptoAddress :=
  addressOf (randomize root publicRand.toList) (some publicRand)

theorem level_ownAddress (root : RootSeed) (publicRand : SeedField) :
    (ownAddress root publicRand).level = root.level :=
  level_randomize root publicRand.toList

theorem publicRandOf_of_split {address : Bytes} {parts : SplitAddress}
    (hsplit : split address = .ok parts) (hlevel : parts.level ≠ .ringCtPre) :
    publicRandOf address = .ok (parts.coin.take CryptoScheme.seedLength) := by
  unfold publicRandOf
  rw [hsplit]
  change (if parts.level = .ringCtPre then _ else _) = _
  rw [if_neg hlevel]
  rfl

/-- The randomness that an address was made with is found in it. -/
theorem publicRandOf_ownAddress (root : RootSeed) (publicRand : SeedField) :
    publicRandOf (ownAddress root publicRand).bytes = .ok publicRand.toList := by
  have hlevel : (randomize root publicRand.toList).level ≠ .ringCtPre := by
    rw [level_randomize]
    exact root.level_ne_ringCtPre
  have hcoin : (ownAddress root publicRand).coin.bytes.take CryptoScheme.seedLength =
      publicRand.toList :=
    take_coinAddress (detector?_randomize root publicRand.toList) publicRand
  rw [← hcoin]
  exact publicRandOf_of_split (split_addressOf _ _) hlevel

/-! ## Keys behind an address -/

variable {supply : RandSupply} {root : RootSeed} {address : CryptoAddress}

/-- An account makes keys again for the addresses of its root seed. -/
theorem regenerate_answers (supply : RandSupply) (root : RootSeed) (publicRand : SeedField) :
    Answers (root.regenerate (provider supply) (ownAddress root publicRand))
      (deriveFromRand root publicRand.toList) := by
  unfold RootSeed.regenerate
  rw [if_pos (level_ownAddress root publicRand)]
  apply (consult_answers (publicRandOf_ownAddress root publicRand)).bind
  apply (consult_answers rfl).bind
  rw [if_pos (show (deriveFromRand root publicRand.toList).address =
    (ownAddress root publicRand).bytes from rfl)]
  exact .pure _

/-- Keys that were made again are derived from what the address has for its randomness. -/
theorem of_returns_regenerate {keys : OneTimeKeys}
    (h : Returns (root.regenerate (provider supply) address) keys) :
    address.level = root.level ∧ ∃ found, publicRandOf address.bytes = .ok found ∧
      deriveFromRand root found = keys ∧ keys.address = address.bytes := by
  unfold RootSeed.regenerate at h
  obtain ⟨hlevel, h⟩ := h.of_check
  obtain ⟨found, hfound, h⟩ := h.bind
  obtain ⟨derived, hderived, h⟩ := h.bind
  obtain ⟨hsame, h⟩ := h.of_check
  obtain rfl := h.eq_of_pure
  exact ⟨hlevel, found, eq_ok_of_returns hfound.of_adapt,
    Except.ok.inj (eq_ok_of_returns hderived.of_adapt), hsame⟩

/-- In an address that was read, the randomness is what its coin address starts with. -/
theorem exists_publicRandOf {raw : Bytes}
    (hread : Returns (CryptoAddress.parse (provider supply) raw) address)
    (hlevel : address.level ≠ .ringCtPre) :
    ∃ publicRand : SeedField, publicRandOf address.bytes = .ok publicRand.toList := by
  obtain ⟨rfl, hsplit⟩ := CryptoAddress.of_parse hread
  obtain ⟨parts, hparts, hpair⟩ := map_eq_ok_iff.mp (eq_ok_of_returns hsplit)
  obtain ⟨hpartsLevel, hcoin⟩ := Prod.mk.inj hpair
  have hroom := room_in_coinAddress address.coin.level
  have hlong : CryptoScheme.seedLength ≤ parts.coin.length := by
    rw [hcoin, address.coin.length_eq]
    omega
  exact ⟨⟨parts.coin.take CryptoScheme.seedLength, List.length_take_of_le hlong⟩,
    publicRandOf_of_split hparts (by rwa [hpartsLevel])⟩

/-- An address that was read is the one of a root seed if it has its bytes. -/
theorem eq_ownAddress_of_bytes_eq {raw : Bytes} {publicRand : SeedField}
    (hread : Returns (CryptoAddress.parse (provider supply) raw) address)
    (hbytes : (ownAddress root publicRand).bytes = address.bytes) :
    address = ownAddress root publicRand := by
  have hown : Answers (CryptoAddress.parse (provider supply) (ownAddress root publicRand).bytes)
      (ownAddress root publicRand) :=
    parse_addressOf_answers _ _ supply
  rw [hbytes] at hown
  exact hown.eq_of_returns ((parse_answers_of_returns hread).returns .start)

/-! ## The addresses of an account -/

/-- From a root seed and public randomness the scheme derives the keys, which have the address. -/
def DerivesAt (supply : RandSupply) (root : RootSeed) (publicRand : SeedField) (keys : OneTimeKeys)
    (address : Bytes) : Prop :=
  Answers ((provider supply).deriveFromRand root publicRand.toList) keys ∧ keys.address = address

theorem derivesAt_iff {publicRand : SeedField} {keys : OneTimeKeys} {address : Bytes} :
    DerivesAt supply root publicRand keys address ↔
      keys = deriveFromRand root publicRand.toList ∧
        (ownAddress root publicRand).bytes = address := by
  have hderive : Answers ((provider supply).deriveFromRand root publicRand.toList)
      (deriveFromRand root publicRand.toList) :=
    answer_answers rfl
  constructor
  · rintro ⟨hkeys, rfl⟩
    obtain rfl := hderive.eq_of_returns (hkeys.returns .start)
    exact ⟨rfl, rfl⟩
  · rintro ⟨rfl, rfl⟩
    exact ⟨hderive, rfl⟩

/-- What is made again from an address that was read has been derived at it. -/
theorem exists_derivesAt_of_returns {raw : Bytes} {keys : OneTimeKeys}
    (hread : Returns (CryptoAddress.parse (provider supply) raw) address)
    (h : Returns (root.regenerate (provider supply) address) keys) :
    ∃ publicRand, DerivesAt supply root publicRand keys address.bytes := by
  obtain ⟨hlevel, found, hfound, rfl, hsame⟩ := of_returns_regenerate h
  obtain ⟨publicRand, hrand⟩ := exists_publicRandOf hread (hlevel ▸ root.level_ne_ringCtPre)
  obtain rfl := Except.ok.inj (hfound.symm.trans hrand)
  exact ⟨publicRand, answer_answers rfl, hsame⟩

/-- An account makes keys again for exactly its own addresses.

Whatever address the scheme has read, the account of a root seed makes keys again for it if it is
the address of keys that are derived from the root seed and some public randomness, and fails
otherwise. It returns those keys. The randomness is the one found in the address, and it gives a
one-time seed with the same keys. -/
theorem regenerates_exactly_own_addresses (supply : RandSupply) (root : RootSeed) {raw : Bytes}
    {address : CryptoAddress}
    (hread : Returns (CryptoAddress.parse (provider supply) raw) address) :
    ((∃ keys, Answers ((Account.seedBacked root).regenerate (provider supply) address) keys) ↔
      ∃ publicRand keys, DerivesAt supply root publicRand keys address.bytes) ∧
    ((¬ ∃ publicRand keys, DerivesAt supply root publicRand keys address.bytes) →
      Fails ((Account.seedBacked root).regenerate (provider supply) address)) ∧
    ∀ publicRand keys, DerivesAt supply root publicRand keys address.bytes →
      Answers ((provider supply).publicRandOf address.bytes) publicRand.toList ∧
      Answers ((Account.seedBacked root).regenerate (provider supply) address) keys ∧
      ∃ seed, Answers (root.rederive (provider supply) publicRand.toList) seed ∧
        Answers ((provider supply).derive (.oneTime seed)) keys := by
  have hown : ∀ publicRand keys, DerivesAt supply root publicRand keys address.bytes →
      address = ownAddress root publicRand ∧ keys = deriveFromRand root publicRand.toList := by
    intro publicRand keys hderives
    obtain ⟨hkeys, hbytes⟩ := derivesAt_iff.mp hderives
    exact ⟨eq_ownAddress_of_bytes_eq hread hbytes, hkeys⟩
  refine ⟨⟨?_, ?_⟩, ?_, ?_⟩
  · rintro ⟨keys, hkeys⟩
    obtain ⟨publicRand, hderives⟩ := exists_derivesAt_of_returns hread (hkeys.returns .start)
    exact ⟨publicRand, keys, hderives⟩
  · rintro ⟨publicRand, keys, hderives⟩
    obtain ⟨rfl, rfl⟩ := hown publicRand keys hderives
    exact ⟨_, regenerate_answers supply root publicRand⟩
  · intro hnone
    apply Fails.of_not_returns
    intro keys hkeys
    obtain ⟨publicRand, hderives⟩ := exists_derivesAt_of_returns hread hkeys
    exact hnone ⟨publicRand, keys, hderives⟩
  · intro publicRand keys hderives
    obtain ⟨rfl, rfl⟩ := hown publicRand keys hderives
    -- The one-time seed has the key seeds and the randomness that the keys were assembled from.
    have hsame : deriveOneTime (boundSeed root publicRand) =
        deriveFromRand root publicRand.toList := rfl
    exact ⟨answer_answers (publicRandOf_ownAddress root publicRand),
      regenerate_answers supply root publicRand, boundSeed root publicRand,
      rederive_answers supply root publicRand, answer_answers (congrArg Except.ok hsame)⟩

/-- A root seed of a pseudonym. -/
def pseudonymRoot : RootSeed := ⟨.pseudonym (.replicate 64 1) (.replicate 64 4), rfl⟩

/-- With one randomness, a root seed of full privacy and one of a pseudonym have an address each.
The account of the first makes keys again for its own address and fails for the other. -/
theorem full_privacy_regenerates_own_address :
    (∃ keys, Answers ((Account.seedBacked soleRoot).regenerate (provider countingSupply)
      (ownAddress soleRoot (.replicate 64 5))) keys) ∧
    Fails ((Account.seedBacked soleRoot).regenerate (provider countingSupply)
      (ownAddress pseudonymRoot (.replicate 64 5))) := by
  have hread : ∀ root, Returns (CryptoAddress.parse (provider countingSupply)
      (ownAddress root (.replicate 64 5)).bytes) (ownAddress root (.replicate 64 5)) :=
    fun root => (parse_addressOf_answers _ _ countingSupply).returns .start
  obtain ⟨hown, -, -⟩ := regenerates_exactly_own_addresses countingSupply soleRoot (hread soleRoot)
  obtain ⟨-, hother, -⟩ :=
    regenerates_exactly_own_addresses countingSupply soleRoot (hread pseudonymRoot)
  constructor
  · exact hown.mpr ⟨.replicate 64 5, _, derivesAt_iff.mpr ⟨rfl, rfl⟩⟩
  · apply hother
    rintro ⟨publicRand, keys, hderives⟩
    -- The addresses of the two levels differ in length.
    have hlength := congrArg List.length (derivesAt_iff.mp hderives).2
    rw [CryptoAddress.length_eq, CryptoAddress.length_eq] at hlength
    change (ownAddress _ _).level.cryptoAddressLength =
      (ownAddress _ _).level.cryptoAddressLength at hlength
    rw [level_ownAddress, level_ownAddress] at hlength
    exact absurd hlength (by decide)

end HashScheme

end RingWallet
