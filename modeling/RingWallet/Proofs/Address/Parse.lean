import RingWallet.Address.Parse
import RingWallet.Proofs.Digest
import RingWallet.Proofs.Except
import RingWallet.Proofs.Returns
import RingWallet.Proofs.Scheme

/-!
# Addresses are read from what they are written as

Whatever the provider, an address that was read has the bytes it was read from, and its crypto
address was read and found well formed by the provider (`AppAddress.of_parse`). The other way round,
an application address is read from its bytes if the provider reads its crypto address and finds it
well formed (`AppAddress.parse_answers`). Since checksum and body determine each other, up to
collisions of the checksum's hash, a change of one of them alone is noticed
(`AppAddress.parse_other_body`, `AppAddress.parse_other_checksum`).
-/

set_option autoImplicit false

namespace RingWallet

variable {σ : Type} {provider : Provider σ}

theorem Network.ofCode?_eq_some_iff {code : UInt8} {network : Network} :
    ofCode? code = some network ↔ code = network.code := by
  constructor
  · intro h
    unfold ofCode? at h
    split at h
    · cases h
      assumption
    · split at h
      · cases h
        assumption
      · split at h
        · cases h
          assumption
        · split at h
          · cases h
            assumption
          · cases h
  · rintro rfl
    exact ofCode?_code network

/-! ## Coin addresses -/

/-- A coin address is read from exactly its bytes, since their length is that of its level alone. -/
theorem CoinAddress.ofBytes_eq_ok_iff {data : Bytes} {coin : CoinAddress} :
    ofBytes data = .ok coin ↔ coin.bytes = data := by
  constructor
  · intro h
    unfold ofBytes at h
    split at h
    · cases h
      rfl
    · split at h
      · cases h
        rfl
      · split at h
        · cases h
          rfl
        · cases h
  · rintro rfl
    obtain ⟨level, bytes, hlength⟩ := coin
    cases level <;> simp [ofBytes, hlength, PrivacyLevel.coinAddressLength]

/-! ## Crypto addresses -/

namespace CryptoAddress

theorem ofCoin_eq_ok_iff {data : Bytes} {coin : CoinAddress} {address : CryptoAddress} :
    ofCoin data coin = .ok address ↔ address.bytes = data ∧ address.coin = coin := by
  constructor
  · intro h
    unfold ofCoin at h
    split at h
    · split at h
      · cases h
        exact ⟨rfl, rfl⟩
      · cases h
    · cases h
  · rintro ⟨rfl, rfl⟩
    simp [ofCoin, address.tag_eq, address.length_eq]

theorem isPlausibleLength_iff {scheme : CryptoScheme} {length : Nat} :
    isPlausibleLength scheme length = true ↔
      ∃ level, PrivacyLevel.scheme level = scheme ∧ level.cryptoAddressLength = length := by
  simp [isPlausibleLength, length?, CryptoScheme.supports, PrivacyLevel.mem_all]

/-- An address that was read has the bytes it was read from, and the provider has taken them apart
into its coin address. -/
theorem of_parse {data : Bytes} {address : CryptoAddress}
    (h : Returns (parse provider data) address) :
    address.bytes = data ∧
      Returns (provider.splitAddress data) (address.level, address.coin.bytes) := by
  unfold parse at h
  split at h
  · dsimp only at h
    obtain ⟨-, h⟩ := h.of_check
    obtain ⟨⟨level, coinBytes⟩, hsplit, h⟩ := h.bind
    obtain ⟨coin, hcoin, h⟩ := h.bind
    obtain ⟨rfl, hchecked⟩ := h.of_check
    obtain ⟨hbytes, rfl⟩ := ofCoin_eq_ok_iff.mp hchecked.of_lift
    obtain rfl := CoinAddress.ofBytes_eq_ok_iff.mp hcoin.of_lift
    exact ⟨hbytes, hsplit.of_adapt⟩
  · exact absurd h Returns.not_throw

/-- An address is read from its bytes if the provider takes them apart into its coin address. -/
theorem parse_answers {address : CryptoAddress}
    (hsplit : Answers (provider.splitAddress address.bytes) (address.level, address.coin.bytes)) :
    Answers (parse provider address.bytes) address := by
  have hlisted : isPlausibleLength address.coin.level.scheme address.bytes.length = true :=
    isPlausibleLength_iff.mpr ⟨address.coin.level, rfl, address.length_eq.symm⟩
  unfold parse
  rw [address.tag_eq]
  dsimp only
  rw [if_pos hlisted]
  apply hsplit.consult.bind
  apply (Answers.lift (CoinAddress.ofBytes_eq_ok_iff.mpr rfl)).bind
  rw [if_pos (show address.coin.level = address.level from rfl)]
  exact .lift (ofCoin_eq_ok_iff.mpr ⟨rfl, rfl⟩)

end CryptoAddress

/-! ## Application addresses -/

namespace AppAddress

theorem isPlausibleLength_iff {scheme : CryptoScheme} {length : Nat} :
    isPlausibleLength scheme length = true ↔
      ∃ level, PrivacyLevel.scheme level = scheme ∧ level.appAddressLength = length := by
  simp [isPlausibleLength, length?, CryptoScheme.supports, PrivacyLevel.mem_all]

/-- What passes the checks that need no provider is a network's number, a crypto address and the
checksum of both. -/
theorem eq_of_splitChecked {data cryptoBytes : Bytes} {network : Network}
    (h : splitChecked data = .ok (network, cryptoBytes)) :
    data = network.code :: cryptoBytes ++ (sha3 (network.code :: cryptoBytes)).toList := by
  unfold splitChecked at h
  split at h
  · cases h
  · rename_i code behind
    split at h
    · cases h
    · rename_i hlong
      split at h
      · cases h
      · rename_i found hfound
        split at h
        · cases h
        · dsimp only at h
          split at h
          · cases h
          · split at h
            · cases h
            · rename_i hchecksum
              cases h
              obtain rfl := Network.ofCode?_eq_some_iff.mp hfound
              -- The body is one byte longer than the crypto address.
              have hbody : (network.code :: behind).length - PrivacyLevel.checksumLength =
                  (behind.length - PrivacyLevel.checksumLength) + 1 := by
                rw [List.length_cons] at hlong ⊢
                omega
              rw [hbody, List.take_succ_cons, List.drop_succ_cons, Decidable.not_not] at hchecksum
              rw [hbody, Nat.add_sub_cancel, hchecksum, List.cons_append, List.take_append_drop]

/-- The bytes of an application address pass the checks that need no provider. -/
theorem splitChecked_bytes (address : AppAddress) :
    splitChecked address.bytes = .ok (address.network, address.crypto.bytes) := by
  have hlength := address.length_bytes
  have hlisted : isPlausibleLength address.scheme address.bytes.length = true :=
    isPlausibleLength_iff.mpr ⟨address.level, rfl, hlength.symm⟩
  have hbehind : address.bytes =
      address.network.code :: (address.crypto.bytes ++ address.checksum.toList) := rfl
  obtain ⟨rest, htag⟩ := CryptoScheme.ofTag?_eq_some_iff.mp address.crypto.tag_eq
  have hscheme : CryptoScheme.ofTag? (address.crypto.bytes ++ address.checksum.toList) =
      some address.scheme := by
    rw [htag, List.append_assoc]
    exact CryptoScheme.ofTag?_tag_append _ _
  have hlong : ¬ address.bytes.length <
      1 + CryptoScheme.tagLength + PrivacyLevel.checksumLength := by
    rw [hlength]
    cases address.level <;> decide
  -- The checksum is cut off behind the crypto address.
  have hbody : (address.network.code :: (address.crypto.bytes ++ address.checksum.toList)).length -
      PrivacyLevel.checksumLength = address.crypto.bytes.length + 1 := by
    rw [List.length_cons, List.length_append, address.checksum.length_toList]
    change address.crypto.bytes.length + 32 + 1 - 32 = _
    omega
  have hchecksum : (sha3 (address.network.code :: address.crypto.bytes)).toList =
      address.checksum.toList := rfl
  unfold splitChecked
  rw [hbehind] at hlong hlisted ⊢
  dsimp only
  rw [if_neg hlong, Network.ofCode?_code]
  dsimp only
  rw [hscheme]
  dsimp only
  rw [hlisted, hbody, List.take_succ_cons, List.drop_succ_cons, List.take_left' rfl,
    List.drop_left' rfl, Bool.not_true, if_neg Bool.false_ne_true, if_neg (not_not_intro hchecksum),
    Nat.add_sub_cancel, List.take_left' rfl]

/-- Application addresses with the same bytes are on one network, with the same crypto address
bytes. -/
theorem parts_eq_of_bytes_eq {a b : AppAddress} (h : a.bytes = b.bytes) :
    a.network = b.network ∧ a.crypto.bytes = b.crypto.bytes := by
  have hparts : splitChecked a.bytes = .ok (b.network, b.crypto.bytes) := h ▸ b.splitChecked_bytes
  rw [a.splitChecked_bytes] at hparts
  exact Prod.mk.inj (Except.ok.inj hparts)

/-- An application address that was read has the bytes it was read from, and the provider has read
its crypto address and found it well formed. -/
theorem of_parse {data : Bytes} {address : AppAddress}
    (h : Returns (parse provider data) address) :
    address.bytes = data ∧
      Returns (CryptoAddress.parse provider address.crypto.bytes) address.crypto ∧
      Returns (provider.validateAddress address.crypto.bytes) true := by
  obtain ⟨⟨network, cryptoBytes⟩, hchecked, h⟩ := h.bind
  obtain ⟨crypto, hcrypto, h⟩ := h.bind
  obtain ⟨approved, happroved, h⟩ := h.bind
  obtain ⟨hbytes, -⟩ := CryptoAddress.of_parse hcrypto
  rw [← hbytes] at hchecked hcrypto
  dsimp only at h
  obtain ⟨rfl, h⟩ := h.of_check
  obtain rfl := h.eq_of_pure
  exact ⟨(eq_of_splitChecked hchecked.of_lift).symm, hcrypto, happroved.of_adapt⟩

/-- An application address is read from its bytes if the provider reads its crypto address and finds
it well formed. -/
theorem parse_answers {address : AppAddress}
    (hcrypto : Answers (CryptoAddress.parse provider address.crypto.bytes) address.crypto)
    (happroved : Answers (provider.validateAddress address.crypto.bytes) true) :
    Answers (parse provider address.bytes) address := by
  unfold parse
  apply (Answers.lift address.splitChecked_bytes).bind
  apply hcrypto.bind
  apply happroved.consult.bind
  exact .pure address

/-! ### Changed addresses -/

/-- Body and checksum of an address that was read are told apart by the length of the checksum. -/
theorem body_eq_of_parse {body checksum : Bytes} (hlength : checksum.length = 32)
    {address : AppAddress} (h : Returns (parse provider (body ++ checksum)) address) :
    address.body = body ∧ (sha3 body).toList = checksum := by
  obtain ⟨hbytes, -, -⟩ := of_parse h
  obtain ⟨hbody, hsum⟩ := List.append_inj' hbytes (address.checksum.length_eq.trans hlength.symm)
  refine ⟨hbody, ?_⟩
  rw [← hsum, ← hbody]
  rfl

/-- Another body in front of an address's checksum is refused, unless both bodies have the same
checksum. -/
theorem parse_other_body (address : AppAddress) {body : Bytes} (hne : body ≠ address.body) :
    Collision sha3 body address.body ∨
      Fails (parse provider (body ++ address.checksum.toList)) := by
  by_cases hsame : sha3 body = sha3 address.body
  · exact .inl ⟨hne, hsame⟩
  · right
    apply Fails.of_not_returns
    intro other hother
    obtain ⟨-, hsum⟩ := body_eq_of_parse address.checksum.length_eq hother
    exact hsame (FixedBytes.ext hsum)

/-- Another checksum behind an address's body is refused. -/
theorem parse_other_checksum (address : AppAddress) {checksum : Bytes}
    (hlength : checksum.length = 32) (hne : checksum ≠ address.checksum.toList) :
    Fails (parse provider (address.body ++ checksum)) := by
  apply Fails.of_not_returns
  intro other hother
  obtain ⟨-, hsum⟩ := body_eq_of_parse hlength hother
  exact hne hsum.symm

end AppAddress

end RingWallet
