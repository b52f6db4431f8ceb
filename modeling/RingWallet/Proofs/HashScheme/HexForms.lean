import RingWallet.Proofs.Address.Short
import RingWallet.Proofs.HashScheme.Addresses
import RingWallet.Proofs.Hex
import RingWallet.Proofs.Seed.Codec

/-!
# Hexadecimal forms of identifiers, seeds and addresses

Every hexadecimal form is that of a serialized form, and reading it is reading the bytes that it
spells (`readHex_encode_bind`). So whatever is read from its serialized form is read from its
hexadecimal form as well, and the case of the digits of a text plays no part in what is read
(`Hex.SameUpToCase.readHex_eq`).

`hex_forms_exact` says so of identifiers, seeds, short addresses and the application addresses that
the stand-in scheme finds well formed. Of identifiers it also says which texts can be read.
-/

set_option autoImplicit false

namespace RingWallet

/-! ## Through the bytes -/

/-- Reading the hexadecimal form of bytes goes on with the bytes. -/
theorem readHex_encode_bind {α : Type} (data : Bytes) (read : Bytes → Except WalletError α) :
    readHex (Hex.encode data) >>= read = read data := by
  have hdata : readHex (Hex.encode data) = .ok data :=
    mapError_eq_ok_iff.mpr (Hex.decode_encode data)
  rw [hdata]
  rfl

theorem Hex.SameUpToCase.readHex_eq {text variant : String} (h : SameUpToCase text variant) :
    readHex text = readHex variant := by
  unfold readHex
  rw [h.decode_eq]

/-! ## Each kind of value -/

namespace HashId

variable {kind : IdKind}

theorem ofHex_toHex (id : HashId kind) : ofHex kind id.toHex = .ok id :=
  (readHex_encode_bind id.bytes (ofBytes kind)).trans (ofBytes_eq_ok_iff.mpr rfl)

theorem toHex_eq_toLower {text : String} {id : HashId kind} (h : ofHex kind text = .ok id) :
    id.toHex = text.toLower :=
  (ofHex_eq_ok_iff.mp h).encode_eq_toLower

end HashId

theorem Seed.ofHex_toHex (seed : Seed) : ofHex seed.toHex = .ok seed :=
  (readHex_encode_bind seed.serialize deserialize).trans (deserialize_eq_ok_iff.mpr rfl)

/-- A short address that was read from bytes has these bytes, so it is read from their text. -/
theorem ShortAddress.ofHex_toHex {data : Bytes} {short : ShortAddress}
    (h : parse data = .ok short) : ofHex short.toHex = .ok short := by
  have hbytes : parse short.bytes = .ok short := by rwa [bytes_of_parse h]
  exact (readHex_encode_bind short.bytes parse).trans hbytes

theorem AppAddress.ofHex_toHex_answers {σ : Type} {provider : Provider σ} {address : AppAddress}
    (h : Answers (parse provider address.bytes) address) :
    Answers (ofHex provider address.toHex) address := by
  have hdata : readHex address.toHex = .ok address.bytes :=
    mapError_eq_ok_iff.mpr (Hex.decode_encode address.bytes)
  exact (Answers.lift hdata).bind h

namespace HashScheme

variable (supply : RandSupply)

/-- Hexadecimal forms are faithful, and the case of their digits does not matter.

Every identifier and every seed is read from its hexadecimal form, and so is every short address
that was read from bytes, and every application address whose crypto address the scheme has read and
finds well formed. Texts that differ in the case of digits only are read alike, whether they can be
read or not. An identifier can be read exactly from 64 digits, and it is written as these digits in
lower case. -/
theorem hex_forms_exact :
    ((∀ (kind : IdKind) (id : HashId kind), HashId.ofHex kind id.toHex = .ok id) ∧
      (∀ seed : Seed, Seed.ofHex seed.toHex = .ok seed) ∧
      (∀ (data : Bytes) (short : ShortAddress), ShortAddress.parse data = .ok short →
        ShortAddress.ofHex short.toHex = .ok short) ∧
      ∀ (raw : Bytes) (address : AppAddress),
        Returns (CryptoAddress.parse (provider supply) raw) address.crypto →
        Returns ((provider supply).validateAddress address.crypto.bytes) true →
          Answers (AppAddress.ofHex (provider supply) address.toHex) address) ∧
    (∀ text variant : String, Hex.SameUpToCase text variant →
      (∀ kind, HashId.ofHex kind text = HashId.ofHex kind variant) ∧
      Seed.ofHex text = Seed.ofHex variant ∧
      ShortAddress.ofHex text = ShortAddress.ofHex variant ∧
      ∀ {σ : Type} (any : Provider σ), AppAddress.ofHex any text = AppAddress.ofHex any variant) ∧
    ∀ (kind : IdKind) (text : String),
      ((∃ id, HashId.ofHex kind text = .ok id) ↔ Hex.IsDigits 32 text) ∧
      ∀ id, HashId.ofHex kind text = .ok id → id.toHex = text.toLower := by
  refine ⟨⟨?ids, ?seeds, ?shorts, ?addresses⟩, ?variants, ?texts⟩
  case ids =>
    intro kind id
    exact id.ofHex_toHex
  case seeds =>
    intro seed
    exact seed.ofHex_toHex
  case shorts =>
    intro data short hread
    exact ShortAddress.ofHex_toHex hread
  case addresses =>
    intro raw address hread happroved
    apply AppAddress.ofHex_toHex_answers
    apply AppAddress.parse_answers
    · exact parse_answers_of_returns hread
    · exact validateAddress_answers_of_returns happroved
  case variants =>
    intro text variant hsame
    -- All of them read bytes first, and those are the same.
    have hbytes := hsame.readHex_eq
    refine ⟨fun kind => ?_, ?_, ?_, fun any => ?_⟩
    · rw [HashId.ofHex, HashId.ofHex, hbytes]
    · rw [Seed.ofHex, Seed.ofHex, hbytes]
    · rw [ShortAddress.ofHex, ShortAddress.ofHex, hbytes]
    · rw [AppAddress.ofHex, AppAddress.ofHex, hbytes]
  case texts =>
    intro kind text
    refine ⟨HashId.exists_ofHex_eq_ok_iff, ?_⟩
    intro id hread
    exact HashId.toHex_eq_toLower hread

/-- The identifier of 32 bytes with all bits set. -/
def fullId (kind : IdKind) : HashId kind := ⟨.replicate 32 0xFF⟩

/-- The address of a pseudonym and its short address are read from their hexadecimal forms. A text
that is refused for its third character is refused alike in the other case of its digits, and an
identifier in capital digits is written in small ones. -/
theorem pseudonym_hex_forms :
    let address := pseudonymAddress .main
    let short := ShortAddress.ofAddress address
    ShortAddress.ofHex short.toHex = .ok short ∧
    Answers (AppAddress.ofHex (provider countingSupply) address.toHex) address ∧
    Hex.SameUpToCase "aBg0" "Abg0" ∧ Seed.ofHex "aBg0" = Seed.ofHex "Abg0" ∧
    HashId.ofHex .ring "FFFFFFFFFFFFFFFFFFFFFFFFFFFFFFFFFFFFFFFFFFFFFFFFFFFFFFFFFFFFFFFF" =
      .ok (fullId .ring) ∧
    (fullId .ring).toHex =
      "FFFFFFFFFFFFFFFFFFFFFFFFFFFFFFFFFFFFFFFFFFFFFFFFFFFFFFFFFFFFFFFF".toLower := by
  intro address short
  obtain ⟨⟨-, -, hshort, haddress⟩, hvariants, htexts⟩ := hex_forms_exact countingSupply
  have hread : Returns (CryptoAddress.parse (provider countingSupply) address.crypto.bytes)
      address.crypto := (parse_addressOf_answers _ _ countingSupply).returns .start
  have happroved : Returns ((provider countingSupply).validateAddress address.crypto.bytes) true :=
    (validateAddress_addressOf_answers _ _ countingSupply).returns .start
  have hsame : Hex.SameUpToCase "aBg0" "Abg0" :=
    .cons (.inr (by decide)) (.cons (.inr (by decide)) (.cons (.inl rfl) (.cons (.inl rfl) .nil)))
  have hfull : HashId.ofHex .ring
      "FFFFFFFFFFFFFFFFFFFFFFFFFFFFFFFFFFFFFFFFFFFFFFFFFFFFFFFFFFFFFFFF" = .ok (fullId .ring) :=
    HashId.ofHex_eq_ok_iff.mpr (by unfold Hex.Spells; decide +kernel)
  exact ⟨hshort _ short (ShortAddress.parse_ofAddress address), haddress _ address hread happroved,
    hsame, (hvariants _ _ hsame).2.1, hfull, (htexts .ring _).2 _ hfull⟩

end HashScheme

end RingWallet
