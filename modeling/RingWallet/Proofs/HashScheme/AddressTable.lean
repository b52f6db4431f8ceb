import RingWallet.Proofs.HashScheme.Addresses

/-!
# The table of crypto addresses

Three combinations of scheme, level and length exist (`CryptoAddress.table`). A reader of crypto
addresses looks at the tag and the length itself and has level and coin address from the provider.
What it accepts is in the table, whatever the provider says (`CryptoAddress.listed_of_parse`).

The stand-in scheme reports what stands in the bytes, the level behind the tag and the coin address
behind the level. So under it an address is read from exactly the bytes that start with the header
of its level and its coin address (`returns_parse_iff`), and bytes are read exactly if they have
tag, level byte and length of an entry of the table (`crypto_address_exact`).
-/

set_option autoImplicit false

namespace RingWallet

namespace CryptoAddress

/-- The crypto addresses that exist, by scheme, level and length. -/
def table : List (CryptoScheme × PrivacyLevel × Nat) :=
  [(.pqRingCt, .ringCtPre, 10696), (.pqRingCtX, .ringCt, 10826), (.pqRingCtX, .pseudonym, 198)]

theorem mem_table_iff {scheme : CryptoScheme} {level : PrivacyLevel} {length : Nat} :
    (scheme, level, length) ∈ table ↔
      level.scheme = scheme ∧ level.cryptoAddressLength = length := by
  cases level <;>
    simp [table, PrivacyLevel.scheme, PrivacyLevel.cryptoAddressLength, eq_comm]

/-- The address is one of the table: the scheme of the bytes' tag, the level of the address and the
number of bytes are an entry, the coin address has the length of that level, and the address has
just these bytes. -/
structure Listed (data : Bytes) (address : CryptoAddress) : Prop where
  entry : ∃ scheme : CryptoScheme, scheme.tag <+: data ∧
    (scheme, address.level, data.length) ∈ table
  coin_length : address.coin.bytes.length = address.level.coinAddressLength
  bytes_eq : address.bytes = data

/-- Whatever a provider says about bytes, an address that was read from them is one of the table. -/
theorem listed_of_parse {σ : Type} {provider : Provider σ} {data : Bytes} {address : CryptoAddress}
    (h : Returns (parse provider data) address) : Listed data address := by
  obtain ⟨rfl, -⟩ := of_parse h
  obtain ⟨rest, htag⟩ := CryptoScheme.ofTag?_eq_some_iff.mp address.tag_eq
  exact {
    entry := ⟨address.level.scheme, ⟨rest, htag.symm⟩,
      mem_table_iff.mpr ⟨rfl, address.length_eq.symm⟩⟩
    coin_length := address.coin.length_eq
    bytes_eq := rfl }

/-- The bytes have tag, level byte and length of an entry of the table; the legacy scheme has no
level byte. -/
def DeclaresEntry (data : Bytes) : Prop :=
  CryptoScheme.pqRingCt.tag <+: data ∧ data.length = 10696 ∨
    CryptoScheme.pqRingCtX.tag <+: data ∧
      (data[4]? = some 1 ∧ data.length = 10826 ∨ data[4]? = some 2 ∧ data.length = 198)

/-- A tag and the byte behind it. -/
theorem tag_byte_prefix_iff {scheme : CryptoScheme} {code : UInt8} {data : Bytes} :
    scheme.tag ++ [code] <+: data ↔ scheme.tag <+: data ∧ data[4]? = some code := by
  have hlength : scheme.tag.length = 4 := Bytes.length_ofUInt32 _
  constructor
  · rintro ⟨rest, rfl⟩
    simp [hlength]
  · rintro ⟨⟨rest, rfl⟩, hcode⟩
    rw [List.prefix_append_right_inj]
    rw [List.getElem?_append_right (Nat.le_of_eq hlength), hlength] at hcode
    cases rest with
    | nil => cases hcode
    | cons first behind =>
      cases hcode
      exact ⟨behind, rfl⟩

/-- Headers are tags, with a level byte behind those of the current scheme. -/
theorem declaresEntry_iff {data : Bytes} :
    DeclaresEntry data ↔ ∃ level, PrivacyLevel.header level <+: data ∧
      data.length = PrivacyLevel.cryptoAddressLength level := by
  have hlegacy : PrivacyLevel.ringCtPre.header = CryptoScheme.pqRingCt.tag := rfl
  have hfull : PrivacyLevel.ringCt.header = CryptoScheme.pqRingCtX.tag ++ [1] := rfl
  have hpseudonym : PrivacyLevel.pseudonym.header = CryptoScheme.pqRingCtX.tag ++ [2] := rfl
  constructor
  · rintro (⟨htag, hlength⟩ | ⟨htag, ⟨hcode, hlength⟩ | ⟨hcode, hlength⟩⟩)
    · exact ⟨.ringCtPre, hlegacy ▸ htag, hlength⟩
    · exact ⟨.ringCt, hfull ▸ tag_byte_prefix_iff.mpr ⟨htag, hcode⟩, hlength⟩
    · exact ⟨.pseudonym, hpseudonym ▸ tag_byte_prefix_iff.mpr ⟨htag, hcode⟩, hlength⟩
  · rintro ⟨level, hheader, hlength⟩
    cases level with
    | ringCtPre => exact .inl ⟨hlegacy ▸ hheader, hlength⟩
    | ringCt =>
      obtain ⟨htag, hcode⟩ := tag_byte_prefix_iff.mp (hfull ▸ hheader)
      exact .inr ⟨htag, .inl ⟨hcode, hlength⟩⟩
    | pseudonym =>
      obtain ⟨htag, hcode⟩ := tag_byte_prefix_iff.mp (hpseudonym ▸ hheader)
      exact .inr ⟨htag, .inr ⟨hcode, hlength⟩⟩

end CryptoAddress

namespace HashScheme

/-! ## What the scheme finds in bytes -/

/-- A declared level stands behind the tag, where the scheme has a byte for it. -/
theorem eq_of_readHeader {data body : Bytes} {scheme : CryptoScheme} {level : PrivacyLevel}
    (h : readHeader data = .ok (scheme, level, body)) :
    data = scheme.tag ++ ((if scheme.hasLevelByte then [level.code] else []) ++ body) := by
  unfold readHeader at h
  split at h
  · cases h
  · rename_i htag
    obtain ⟨rest, rfl⟩ := CryptoScheme.ofTag?_eq_some_iff.mp htag
    cases h
    rw [CryptoScheme.drop_tag_append]
    rfl
  · rename_i htag
    obtain ⟨rest, rfl⟩ := CryptoScheme.ofTag?_eq_some_iff.mp htag
    rw [CryptoScheme.drop_tag_append] at h
    cases rest with
    | nil => cases h
    | cons code behind =>
      dsimp only at h
      split at h
      · cases h
      · rename_i found hcode
        cases h
        rw [PrivacyLevel.ofCode?_eq_some_iff.mp hcode]
        rfl

/-- The parts of an address stand in it one behind the other. -/
theorem eq_of_split {data : Bytes} {parts : SplitAddress} (h : split data = .ok parts) :
    data = parts.scheme.tag ++ ((if parts.scheme.hasLevelByte then [parts.level.code] else []) ++
      (parts.coin ++ parts.rest)) := by
  obtain ⟨⟨scheme, level, body⟩, hheader, h⟩ := bind_eq_ok_iff.mp h
  dsimp only at h
  split at h
  · cases h
  · cases h
    rw [List.take_append_drop]
    exact eq_of_readHeader hheader

variable {supply : RandSupply} {data : Bytes} {address : CryptoAddress}

/-- An address is read from its bytes, which start with the header of its level and with its coin
address. -/
theorem returns_parse_iff :
    Returns (CryptoAddress.parse (provider supply) data) address ↔
      address.bytes = data ∧ ∃ rest, data = address.level.header ++ address.coin.bytes ++ rest := by
  constructor
  · intro h
    obtain ⟨rfl, hsplit⟩ := CryptoAddress.of_parse h
    obtain ⟨parts, hparts, hpair⟩ := map_eq_ok_iff.mp (eq_ok_of_returns hsplit)
    obtain ⟨hlevel, hcoin⟩ := Prod.mk.inj hpair
    have hbytes := eq_of_split hparts
    -- The scheme of the tag is that of the address's level, although other levels can be declared.
    have hscheme : parts.scheme = address.level.scheme := by
      have htag := address.tag_eq
      rw [hbytes, CryptoScheme.ofTag?_tag_append] at htag
      exact Option.some.inj htag
    refine ⟨rfl, parts.rest, ?_⟩
    rw [hscheme, hlevel, hcoin] at hbytes
    simpa [PrivacyLevel.header] using hbytes
  · rintro ⟨rfl, rest, hbytes⟩
    have hsplit := split_header_append address.coin.length_eq rest
    refine (CryptoAddress.parse_answers (answer_answers ?_)).returns .start
    rw [hbytes]
    exact congrArg (Except.map _) hsplit

/-- Bytes that start with the header of a level and are as long as crypto addresses of the level are
have room for a coin address behind the header. -/
theorem exists_address_of_header {level : PrivacyLevel} (hheader : level.header <+: data)
    (hlength : data.length = level.cryptoAddressLength) :
    ∃ address : CryptoAddress, address.bytes = data ∧
      ∃ rest, data = address.level.header ++ address.coin.bytes ++ rest := by
  obtain ⟨body, rfl⟩ := hheader
  have hroom : level.coinAddressLength ≤ body.length := by
    have hparts := length_parts level
    rw [List.length_append] at hlength
    omega
  have htag : CryptoScheme.ofTag? (level.header ++ body) = some level.scheme := by
    rw [PrivacyLevel.header, List.append_assoc]
    exact CryptoScheme.ofTag?_tag_append _ _
  refine ⟨⟨level.header ++ body, ⟨level, body.take level.coinAddressLength,
    List.length_take_of_le hroom⟩, htag, hlength⟩, rfl, body.drop level.coinAddressLength, ?_⟩
  change level.header ++ body = level.header ++ body.take _ ++ body.drop _
  rw [List.append_assoc, List.take_append_drop]

theorem exists_returns_parse_iff :
    (∃ address, Returns (CryptoAddress.parse (provider supply) data) address) ↔
      CryptoAddress.DeclaresEntry data := by
  rw [CryptoAddress.declaresEntry_iff]
  constructor
  · rintro ⟨address, h⟩
    obtain ⟨rfl, rest, hbytes⟩ := returns_parse_iff.mp h
    exact ⟨address.level, ⟨address.coin.bytes ++ rest, by rw [← List.append_assoc, ← hbytes]⟩,
      address.length_eq⟩
  · rintro ⟨level, hheader, hlength⟩
    obtain ⟨address, hparts⟩ := exists_address_of_header hheader hlength
    exact ⟨address, returns_parse_iff.mpr hparts⟩

/-- What was read once is read from every state. -/
theorem parse_echoes (supply : RandSupply) (data : Bytes) :
    Echoes (CryptoAddress.parse (provider supply) data)
      (CryptoAddress.parse (provider supply) data) := by
  intro address h
  obtain ⟨rfl, -⟩ := returns_parse_iff.mp h
  exact parse_answers_of_returns h

/-- Crypto addresses are accepted by the table and only by the table.

What is read from bytes, whatever the provider and whatever it says about them, is an address of the
table. Under the stand-in scheme, bytes are read exactly if tag, level byte and length are those of
an entry, and reading fails for all others. The coin address that was read stands right behind the
header of its level. -/
theorem crypto_address_exact :
    (∀ (σ : Type) (provider : Provider σ) (data : Bytes) (address : CryptoAddress),
      Returns (CryptoAddress.parse provider data) address → address.Listed data) ∧
    ∀ (supply : RandSupply) (data : Bytes),
      ((∃ address, Answers (CryptoAddress.parse (provider supply) data) address) ↔
        CryptoAddress.DeclaresEntry data) ∧
      (Fails (CryptoAddress.parse (provider supply) data) ↔ ¬ CryptoAddress.DeclaresEntry data) ∧
      ∀ address, Returns (CryptoAddress.parse (provider supply) data) address →
        address.coin.bytes =
          (data.drop address.level.header.length).take address.level.coinAddressLength := by
  refine ⟨fun σ provider data address h => CryptoAddress.listed_of_parse h,
    fun supply data => ⟨?_, ?_, fun address h => ?_⟩⟩
  · exact ((parse_echoes supply data).exists_answers_iff .start).trans exists_returns_parse_iff
  · rw [fails_iff, exists_returns_parse_iff]
  · obtain ⟨-, rest, hbytes⟩ := returns_parse_iff.mp h
    rw [hbytes, List.append_assoc, List.drop_left' rfl]
    exact (List.take_left' address.coin.length_eq).symm

/-- The address of a pseudonym is one of the table. With the number of full privacy in its header it
is refused, as full privacy has longer addresses. -/
theorem pseudonym_address_listed :
    (pseudonymAddress .main).crypto.Listed (pseudonymAddress .main).crypto.bytes ∧
    Fails (CryptoAddress.parse (provider countingSupply)
      (PrivacyLevel.ringCt.header ++ (pseudonymAddress .main).crypto.coin.bytes)) := by
  obtain ⟨hlisted, hexact⟩ := crypto_address_exact
  constructor
  · apply hlisted Tally (provider countingSupply)
    exact (parse_addressOf_answers _ _ countingSupply).returns .start
  · have hlength : (PrivacyLevel.ringCt.header ++
        (pseudonymAddress .main).crypto.coin.bytes).length = 198 := by
      rw [List.length_append, (pseudonymAddress .main).crypto.coin.length_eq]
      rfl
    apply (hexact countingSupply _).2.1.mpr
    rintro (⟨-, hlong⟩ | ⟨-, ⟨-, hlong⟩ | ⟨hcode, -⟩⟩)
    · exact absurd (hlength.symm.trans hlong) (by decide)
    · exact absurd (hlength.symm.trans hlong) (by decide)
    · -- The level byte is the one of full privacy.
      have hone : (1 : UInt8) = 2 := Option.some.inj hcode
      exact absurd hone (by decide)

end HashScheme

end RingWallet
