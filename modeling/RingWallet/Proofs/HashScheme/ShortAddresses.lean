import RingWallet.Proofs.Address.Short
import RingWallet.Proofs.HashScheme.Addresses

/-!
# Short addresses of the stand-in scheme

How the stand-in scheme takes an address apart depends on the bytes of the address alone, so crypto
addresses that it has read are the same if their bytes are (`eq_of_parse`). A short address tells
such addresses apart as far as its hash does (`short_address_identifies`).
-/

set_option autoImplicit false

namespace RingWallet

namespace HashScheme

/-- Crypto addresses with the same bytes that the scheme has read, with whatever supplies, are the
same. -/
theorem eq_of_parse {supply other : RandSupply} {rawA rawB : Bytes} {a b : CryptoAddress}
    (ha : Returns (CryptoAddress.parse (provider supply) rawA) a)
    (hb : Returns (CryptoAddress.parse (provider other) rawB) b) (h : a.bytes = b.bytes) :
    a = b := by
  obtain ⟨rfl, hsplitA⟩ := CryptoAddress.of_parse ha
  obtain ⟨rfl, hsplitB⟩ := CryptoAddress.of_parse hb
  obtain ⟨partsA, hpartsA, hpairA⟩ := map_eq_ok_iff.mp (eq_ok_of_returns hsplitA)
  obtain ⟨partsB, hpartsB, hpairB⟩ := map_eq_ok_iff.mp (eq_ok_of_returns hsplitB)
  rw [h, hpartsB] at hpartsA
  cases hpartsA
  have hcoinBytes : a.coin.bytes = b.coin.bytes := (Prod.mk.inj (hpairA.symm.trans hpairB)).2
  -- A coin address is determined by its bytes, and a crypto address by bytes and coin address.
  have hcoin : CoinAddress.ofBytes a.coin.bytes = .ok b.coin :=
    CoinAddress.ofBytes_eq_ok_iff.mpr hcoinBytes.symm
  rw [CoinAddress.ofBytes_eq_ok_iff.mpr rfl] at hcoin
  have hsame : CryptoAddress.ofCoin a.bytes a.coin = .ok b :=
    CryptoAddress.ofCoin_eq_ok_iff.mpr ⟨h.symm, (Except.ok.inj hcoin).symm⟩
  rw [CryptoAddress.ofCoin_eq_ok_iff.mpr ⟨rfl, rfl⟩] at hsame
  exact Except.ok.inj hsame

/-- The short address of an application address whose crypto address was read by the scheme is read
back from its bytes and records the network. Of the application addresses whose crypto addresses
were read by the scheme it refers to exactly those with the same bytes, unless their bytes collide
with these. -/
theorem short_address_identifies {supply : RandSupply} {raw : Bytes} {address : AppAddress}
    (hread : Returns (CryptoAddress.parse (provider supply) raw) address.crypto) :
    let short := ShortAddress.ofAddress address
    ShortAddress.parse short.bytes = .ok short ∧
      short.network? = some address.network ∧
      ∀ (supply' : RandSupply) (raw' : Bytes) (other : AppAddress),
        Returns (CryptoAddress.parse (provider supply') raw') other.crypto →
          (short.refersTo other = true ↔ other.bytes = address.bytes) ∨
            Collision sha256 other.bytes address.bytes := by
  intro short
  refine ⟨ShortAddress.parse_ofAddress address, ShortAddress.network?_ofAddress address, ?_⟩
  intro supply' raw' other hother
  exact ShortAddress.refersTo_or_collision fun hbytes =>
    congrArg CryptoAddress.coin (eq_of_parse hother hread hbytes)

/-- The short address of a pseudonym refers to that pseudonym. To the same pseudonym on another
network it does not refer, unless the bytes of the two addresses collide. -/
theorem pseudonym_short_address :
    let short := ShortAddress.ofAddress (pseudonymAddress .main)
    ShortAddress.parse short.bytes = .ok short ∧ short.network? = some .main ∧
      short.refersTo (pseudonymAddress .main) = true ∧
      (short.refersTo (pseudonymAddress .test) = false ∨
        Collision sha256 (pseudonymAddress .test).bytes (pseudonymAddress .main).bytes) := by
  intro short
  have hparse : ∀ network, Returns (CryptoAddress.parse (provider countingSupply)
      (pseudonymAddress network).crypto.bytes) (pseudonymAddress network).crypto :=
    fun network => (parse_addressOf_answers _ _ countingSupply).returns .start
  obtain ⟨hback, hnetwork, hrefers⟩ := short_address_identifies (hparse .main)
  refine ⟨hback, hnetwork, ?own, ?other⟩
  case own =>
    rcases hrefers _ _ _ (hparse .main) with hiff | hcollision
    · exact hiff.mpr rfl
    · exact absurd rfl hcollision.ne
  case other =>
    rcases hrefers _ _ _ (hparse .test) with hiff | hcollision
    · left
      rw [Bool.eq_false_iff]
      intro hrefersTo
      obtain ⟨hsame, -⟩ := AppAddress.parts_eq_of_bytes_eq (hiff.mp hrefersTo)
      cases hsame
    · exact .inr hcollision

end HashScheme

end RingWallet
