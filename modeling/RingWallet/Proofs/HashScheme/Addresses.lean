import RingWallet.Proofs.HashScheme.Answers

/-!
# Addresses of the stand-in scheme

Every set of key seeds has an address (`addressOf`), with public randomness in front of its coin
address where there is any. The scheme takes it apart again and finds it well formed, so such an
address is read from its bytes (`parse_addressOf_answers`).

The answers of the scheme follow from the arguments. What it has read once, it reads again, and an
application address is therefore read from exactly the bytes that a network and a well-formed crypto
address are written as (`app_address_exact`).
-/

set_option autoImplicit false

namespace RingWallet

namespace HashScheme

/-! ## Taking addresses apart -/

theorem readHeader_header_append (level : PrivacyLevel) (rest : Bytes) :
    readHeader (level.header ++ rest) = .ok (level.scheme, level, rest) := by
  cases level <;> rfl

theorem split_header_append {level : PrivacyLevel} {coin : Bytes}
    (hlength : coin.length = level.coinAddressLength) (rest : Bytes) :
    split (level.header ++ coin ++ rest) = .ok ⟨level.scheme, level, coin, rest⟩ := by
  have hlong : ¬ (coin ++ rest).length < level.coinAddressLength := by
    rw [List.length_append, hlength]
    omega
  simp only [split, List.append_assoc, readHeader_header_append]
  change (if (coin ++ rest).length < level.coinAddressLength then _ else _) = _
  rw [if_neg hlong, List.take_left' hlength, List.drop_left' hlength]
  rfl

theorem isWellFormedCoin_append_check (body : Bytes) :
    isWellFormedCoin (body ++ (checkOf body).toList) = true := by
  simp [isWellFormedCoin]

/-! ## The address of key seeds -/

/-- The tables of lengths agree: header, coin address and view key make a crypto address. -/
theorem length_parts (level : PrivacyLevel) :
    level.header.length + level.coinAddressLength +
      (if level.isPseudonym then 0 else viewKeyLength) = level.cryptoAddressLength := by
  cases level <;> decide

/-- Coin addresses of every level have room for public randomness, a tag and the check. -/
theorem room_in_coinAddress (level : PrivacyLevel) :
    CryptoScheme.seedLength + tagLength + checkLength ≤ level.coinAddressLength := by
  cases level <;> decide

variable (keys : KeySeeds) (publicRand? : Option SeedField)

/-- What stands in front of a coin address is public randomness and a tag, or nothing. -/
theorem length_addressHead_le :
    (addressHead keys (publicRand?.map FixedBytes.toList)).length ≤
      CryptoScheme.seedLength + tagLength := by
  cases publicRand? with
  | none => cases keys <;> simp [addressHead]
  | some publicRand => cases keys <;> simp [addressHead, KeySeeds.detector?]

/-- The filler makes a coin address as long as those of its level. -/
theorem length_coinAddress :
    (coinAddress keys (publicRand?.map FixedBytes.toList)).length =
      keys.level.coinAddressLength := by
  have hhead := length_addressHead_le keys publicRand?
  have hroom := room_in_coinAddress keys.level
  have hcheck : checkLength = 32 := rfl
  simp only [coinAddress, List.length_append, FixedBytes.length_toList]
  omega

/-- The view key behind the coin address of key seeds. -/
def viewKeyOf : Bytes :=
  match keys.value? with
  | some value => (expand "vpk" [value.toList] viewKeyLength).toList
  | none => []

theorem length_viewKeyOf :
    (viewKeyOf keys).length = if keys.level.isPseudonym then 0 else viewKeyLength := by
  cases keys with
  | legacy spend value => exact FixedBytes.length_toList _
  | fullPrivacy spend serialNumber value detector => exact FixedBytes.length_toList _
  | pseudonym spend detector => rfl

theorem address_assemble (publicRand? : Option Bytes) :
    (assemble keys publicRand?).address =
      keys.level.header ++ coinAddress keys publicRand? ++ viewKeyOf keys :=
  rfl

/-- The crypto address of key seeds. -/
def addressOf : CryptoAddress where
  bytes := (assemble keys (publicRand?.map FixedBytes.toList)).address
  coin := ⟨keys.level, coinAddress keys (publicRand?.map FixedBytes.toList),
    length_coinAddress keys publicRand?⟩
  tag_eq := by
    rw [address_assemble, PrivacyLevel.header, List.append_assoc, List.append_assoc]
    exact CryptoScheme.ofTag?_tag_append _ _
  length_eq := by
    rw [address_assemble, List.length_append, List.length_append, length_coinAddress,
      length_viewKeyOf]
    exact length_parts keys.level

theorem split_addressOf :
    split (addressOf keys publicRand?).bytes =
      .ok ⟨keys.level.scheme, keys.level, (addressOf keys publicRand?).coin.bytes,
        viewKeyOf keys⟩ :=
  split_header_append (length_coinAddress keys publicRand?) (viewKeyOf keys)

theorem isWellFormed_addressOf : isWellFormed (addressOf keys publicRand?).bytes = true := by
  have hcoin : isWellFormedCoin (addressOf keys publicRand?).coin.bytes = true :=
    isWellFormedCoin_append_check _
  simp [isWellFormed, split_addressOf, CryptoScheme.supports, length_viewKeyOf, hcoin]

variable (supply : RandSupply)

/-- The address of key seeds is read from its bytes. -/
theorem parse_addressOf_answers :
    Answers (CryptoAddress.parse (provider supply) (addressOf keys publicRand?).bytes)
      (addressOf keys publicRand?) := by
  apply CryptoAddress.parse_answers
  apply answer_answers
  rw [split_addressOf]
  rfl

/-- The address of key seeds is found well formed. -/
theorem validateAddress_addressOf_answers :
    Answers ((provider supply).validateAddress (addressOf keys publicRand?).bytes) true := by
  have hwell := isWellFormed_addressOf keys publicRand?
  exact answer_answers (congrArg Except.ok hwell)

/-! ## Addresses that were read -/

variable {supply}

/-- A crypto address that the scheme has read is read again from its bytes. -/
theorem parse_answers_of_returns {raw : Bytes} {crypto : CryptoAddress}
    (h : Returns (CryptoAddress.parse (provider supply) raw) crypto) :
    Answers (CryptoAddress.parse (provider supply) crypto.bytes) crypto := by
  obtain ⟨rfl, hsplit⟩ := CryptoAddress.of_parse h
  exact CryptoAddress.parse_answers (answer_answers (eq_ok_of_returns hsplit))

/-- An address that the scheme has found well formed is found well formed again. -/
theorem validateAddress_answers_of_returns {address : Bytes} {approved : Bool}
    (h : Returns ((provider supply).validateAddress address) approved) :
    Answers ((provider supply).validateAddress address) approved := by
  have hwell : (.ok (isWellFormed address) : Except Failure Bool) = .ok approved :=
    eq_ok_of_returns h
  exact answer_answers hwell

variable (supply)

/-- Application addresses are read from exactly what they are written as.

Behind every network, a crypto address that the scheme reads and finds well formed makes an
application address that is read from its bytes. Whatever is read from a byte string is written as
that byte string, and the scheme reads its crypto address and finds it well formed. So another body
in front of its checksum is refused, unless the two bodies collide, and so is another checksum
behind its body. -/
theorem app_address_exact :
    (∀ (network : Network) (raw : Bytes) (crypto : CryptoAddress),
      Returns (CryptoAddress.parse (provider supply) raw) crypto →
      Returns ((provider supply).validateAddress crypto.bytes) true →
        Answers (AppAddress.parse (provider supply) (AppAddress.mk network crypto).bytes)
          ⟨network, crypto⟩) ∧
    ∀ (data : Bytes) (address : AppAddress),
      Returns (AppAddress.parse (provider supply) data) address →
        address.bytes = data ∧
        Answers (CryptoAddress.parse (provider supply) address.crypto.bytes) address.crypto ∧
        Answers ((provider supply).validateAddress address.crypto.bytes) true ∧
        (∀ body, body ≠ address.body →
          Collision sha3 body address.body ∨
            Fails (AppAddress.parse (provider supply) (body ++ address.checksum.toList))) ∧
        ∀ checksum : Digest, checksum ≠ address.checksum →
          Fails (AppAddress.parse (provider supply) (address.body ++ checksum.toList)) := by
  constructor
  · intro network raw crypto hcrypto happroved
    apply AppAddress.parse_answers
    · exact parse_answers_of_returns hcrypto
    · exact validateAddress_answers_of_returns happroved
  · intro data address h
    obtain ⟨hbytes, hcrypto, happroved⟩ := AppAddress.of_parse h
    refine ⟨hbytes, parse_answers_of_returns hcrypto,
      validateAddress_answers_of_returns happroved, ?_, ?_⟩
    · intro body hne
      exact address.parse_other_body hne
    · intro checksum hne
      apply address.parse_other_checksum checksum.length_eq
      intro hsame
      exact hne (FixedBytes.ext hsame)

/-- The address of a pseudonym on a network. -/
def pseudonymAddress (network : Network) : AppAddress :=
  ⟨network, addressOf (.pseudonym (.replicate 64 1) (.replicate 64 2)) (some (.replicate 64 3))⟩

/-- A checksum with every byte raised by one. -/
def raised (checksum : Digest) : Digest := ⟨checksum.toList.map (· + 1), by simp⟩

theorem raised_ne (checksum : Digest) : raised checksum ≠ checksum := by
  intro hsame
  have hmap : checksum.toList.map (· + 1) = checksum.toList := congrArg FixedBytes.toList hsame
  cases hbytes : checksum.toList with
  | nil => exact digest_ne_nil checksum hbytes
  | cons byte rest =>
    rw [hbytes, List.map_cons] at hmap
    simp at hmap

/-- The address of a pseudonym is read from its bytes. The byte of another network in front of it is
refused, unless the bodies collide, and so is a raised checksum behind it. -/
theorem pseudonym_address_exact :
    Answers (AppAddress.parse (provider countingSupply) (pseudonymAddress .main).bytes)
      (pseudonymAddress .main) ∧
    (Collision sha3 (pseudonymAddress .regression).body (pseudonymAddress .main).body ∨
      Fails (AppAddress.parse (provider countingSupply)
        ((pseudonymAddress .regression).body ++ (pseudonymAddress .main).checksum.toList))) ∧
    Fails (AppAddress.parse (provider countingSupply)
      ((pseudonymAddress .main).body ++ (raised (pseudonymAddress .main).checksum).toList)) := by
  obtain ⟨hread, hexact⟩ := app_address_exact countingSupply
  have haddress : Answers (AppAddress.parse (provider countingSupply)
      (pseudonymAddress .main).bytes) (pseudonymAddress .main) := by
    apply hread
    · exact (parse_addressOf_answers _ _ countingSupply).returns .start
    · exact (validateAddress_addressOf_answers _ _ countingSupply).returns .start
  obtain ⟨-, -, -, hbody, hchecksum⟩ := hexact _ _ (haddress.returns .start)
  refine ⟨haddress, hbody _ ?_, hchecksum _ (raised_ne _)⟩
  -- The bodies differ in the network's byte.
  intro hsame
  have hcode : Network.regression.code = Network.main.code := (List.cons.inj hsame).1
  exact absurd hcode (by decide)

end HashScheme

end RingWallet
