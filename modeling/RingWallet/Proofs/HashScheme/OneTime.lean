import RingWallet.Proofs.HashScheme.Accounts
import RingWallet.Proofs.HashScheme.SerialNumbers
import RingWallet.Proofs.Seed.Codec
import RingWallet.Seed.Rederive

/-!
# One-time accounts of a root seed

A root seed and public randomness give a one-time seed (`rederive_answers`), with an account and an
address of its own. On that address the two accounts cannot be told apart. Both value what is paid
there. Both make serial numbers there with one key, which the one-time account holds and the root
account makes again from the randomness that it finds in the output (`serialKeyOf_root`), so both
get the same serial numbers in every context (`one_time_account_interchangeable`).
-/

set_option autoImplicit false

namespace RingWallet

namespace HashScheme

/-! ## The one-time seed -/

/-- The one-time seed of a root seed that is bound to public randomness. -/
def boundSeed (root : RootSeed) (publicRand : SeedField) : OneTimeSeed where
  keys := randomize root publicRand.toList
  publicRand? := some publicRand
  isSome_eq := by
    have hscheme : (randomize root publicRand.toList).scheme = .pqRingCtX := by
      rw [KeySeeds.scheme, level_randomize]
      exact root.scheme_eq
    rw [hscheme]
    rfl

variable (supply : RandSupply) (root : RootSeed) (publicRand : SeedField)

theorem rederive_answers :
    Answers (root.rederive (provider supply) publicRand.toList) (boundSeed root publicRand) := by
  have hlevel : (randomize root publicRand.toList).level = root.level := level_randomize root _
  have hseed : OneTimeSeed.ofKeys (randomize root publicRand.toList) (some publicRand.toList) =
      .ok (boundSeed root publicRand) :=
    OneTimeSeed.ofKeys_eq_ok_iff.mpr ⟨rfl, rfl⟩
  unfold RootSeed.rederive
  rw [if_pos publicRand.length_eq]
  apply (consult_answers rfl).bind
  rw [if_pos hlevel]
  exact .lift hseed

/-! ## Serial numbers -/

/-- The bytes are an output to a coin address. -/
def PaysTo (output coin : Bytes) : Prop :=
  ∃ parsed, Output.parse output = .ok parsed ∧ parsed.coinAddress = coin

/-- Each of the coins pays to a coin address in the ring that lists it, if any does. -/
def AllPayTo (context : RingContext) (coins : List CoinId) (address : CoinAddress) : Prop :=
  ∀ rings, ringsOfContext context = .ok rings → ∀ coin ∈ coins, ∀ ring output,
    findMember? rings coin = some (ring, output) → PaysTo output address.bytes

/-- For an output to an address of a root seed, the root account makes the serial number key of the
keys behind the address. -/
theorem serialKeyOf_root {output : Bytes}
    (hpays : PaysTo output (coinAddress (randomize root publicRand.toList)
      (some publicRand.toList))) :
    serialKeyOf (.seedBacked root.view) output =
      .ok (deriveFromRand root publicRand.toList).serialNumber := by
  obtain ⟨parsed, hparsed, hcoin⟩ := hpays
  obtain ⟨keys, hscheme⟩ := root
  cases keys with
  | legacy spend value => cases hscheme
  | pseudonym spend detector =>
    -- The key is a hash of the coin address, which is in the output.
    have hkey := rootSerialKey_none hparsed
    rw [hcoin] at hkey
    exact hkey
  | fullPrivacy spend serialNumber value detector =>
    -- The randomness that the key seed is bound to stands in front of the coin address.
    have htake : parsed.coinAddress.take CryptoScheme.seedLength = publicRand.toList := by
      rw [hcoin]
      exact take_coinAddress rfl publicRand
    have hlong : CryptoScheme.seedLength ≤ parsed.coinAddress.length := by
      rw [← publicRand.length_toList, ← htake]
      exact List.length_take_le' _ _
    have hkey := rootSerialKey_some hparsed hlong serialNumber.toList
    rw [htake] at hkey
    exact hkey

/-- Accounts get the same serial numbers in a context where they have the same key to the output of
each coin. -/
theorem serialNumbers_eq_of_keys {account other : ViewAccount} {coins : List CoinId}
    {context : RingContext}
    (h : ∀ rings, ringsOfContext context = .ok rings → ∀ coin ∈ coins, ∀ ring output,
      findMember? rings coin = some (ring, output) →
        serialKeyOf account output = serialKeyOf other output) :
    serialNumbers coins context (account.serialNumberKey coins.length) =
      serialNumbers coins context (other.serialNumberKey coins.length) := by
  rw [serialNumbers_eq, serialNumbers_eq]
  cases hrings : ringsOfContext context with
  | error failure => rfl
  | ok rings =>
    apply mapM_congr_mem
    intro coin hcoin
    unfold serialNumber
    cases hfound : findMember? rings coin with
    | none => rfl
    | some found =>
      simp only [h rings hrings coin hcoin found.1 found.2 hfound]

/-! ## Both accounts on one address -/

/-- A one-time account and the account of its root seed are interchangeable on their address.

Every root seed and every public randomness give a one-time seed, and both seeds have accounts. The
address of the one-time account is the one that is derived from the root seed and the randomness. An
output of any value that is paid to it is received with that value by both accounts. In every
context, both get the same answer for coins that pay to it in the rings that list them: the same
serial numbers, or the same failure. -/
theorem one_time_account_interchangeable :
    ∃ seed oneTime rootAccount keys address,
      Answers (root.rederive (provider supply) publicRand.toList) seed ∧
      Answers (Account.ofSeed (provider supply) (.oneTime seed)) oneTime ∧
      Answers (Account.ofSeed (provider supply) (.root root)) rootAccount ∧
      Answers ((provider supply).deriveFromRand root publicRand.toList) keys ∧
      Answers (oneTime.makeAddress (provider supply)) address ∧ address.bytes = keys.address ∧
      (∀ (txVersion : UInt32) (value : UInt64),
        Answers (oneTime.receive (provider supply) txVersion (paidTo address value).serialize)
          (some value) ∧
        Answers (rootAccount.receive (provider supply) txVersion (paidTo address value).serialize)
          (some value)) ∧
      ∀ context coins, AllPayTo context coins address.coin → ∀ tally,
        outcome (oneTime.serialNumbers (provider supply) coins context) tally =
          outcome (rootAccount.serialNumbers (provider supply) coins context) tally := by
  let seed := boundSeed root publicRand
  let address := addressOf seed.keys seed.publicRand?
  refine ⟨seed, accountOf (.oneTime seed), accountOf (.root root),
    deriveFromRand root publicRand.toList, address, rederive_answers supply root publicRand,
    ofSeed_answers supply _, ofSeed_answers supply _, answer_answers rfl, .pure address, rfl, ?_,
    ?_⟩
  · intro txVersion value
    have hlength := length_paidTo address value
    have hown := receive_answers supply (isReadable_view supply (.oneTime seed)) hlength txVersion
    have hroot := receive_answers supply (isReadable_view supply (.root root)) hlength txVersion
    rw [show valueFor (accountOf (.oneTime seed)).view (paidTo address value) = some value from
      valueFor_keyBacked (keyViewOf seed) value] at hown
    rw [show valueFor (accountOf (.root root)).view (paidTo address value) = some value from
      valueFor_root root publicRand value] at hroot
    exact ⟨hown, hroot⟩
  · intro context coins hpay tally
    have hkeys : ∀ rings, ringsOfContext context = .ok rings → ∀ coin ∈ coins, ∀ ring output,
        findMember? rings coin = some (ring, output) →
          serialKeyOf (accountOf (.oneTime seed)).view output =
            serialKeyOf (accountOf (.root root)).view output := by
      intro rings hrings coin hcoin ring output hfound
      exact (serialKeyOf_root root publicRand (hpay rings hrings coin hcoin ring output hfound)).symm
    have hsame : (provider supply).serialNumbers coins context
          ((accountOf (.oneTime seed)).view.serialNumberKey coins.length) =
        (provider supply).serialNumbers coins context
          ((accountOf (.root root)).view.serialNumberKey coins.length) :=
      congrArg answer (serialNumbers_eq_of_keys hkeys)
    exact congrArg (outcome · tally) (ViewAccount.serialNumbers_congr hsame)

/-- The name of the only member of a ring. -/
def soleCoin : CoinId := ⟨⟨.replicate 32 2⟩, 0⟩

/-- A ring of one output, which pays to an address. -/
def soleRing (address : CryptoAddress) (value : UInt64) : CoinRing where
  version := CoinRing.currentVersion
  firstHeight := 7
  blockHashes := [⟨.replicate 32 1⟩]
  members := [(soleCoin, (paidTo address value).serialize)]
  isCoinbase := false
  members_pos := by simp
  members_le := by simp
  blocks_le := by simp
  outputs_lt := by
    intro member hmember
    have hlength : (paidTo address value).coinAddress.length = address.level.coinAddressLength :=
      address.coin.length_eq
    rw [List.mem_singleton.mp hmember, Output.length_serialize, hlength]
    cases address.level <;> decide

theorem allPayTo_soleRing (address : CryptoAddress) (value : UInt64) :
    AllPayTo (.ring (soleRing address value).serialize) [soleCoin] address.coin := by
  intro rings hrings coin hcoin ring output hfound
  rw [ringsOfContext_serialize] at hrings
  cases hrings
  cases List.mem_singleton.mp hcoin
  rw [findMember?_singleton] at hfound
  cases hfound
  exact ⟨paidTo address value, Output.parse_serialize (length_paidTo address value), rfl⟩

/-- A root seed of full privacy. -/
def soleRoot : RootSeed :=
  ⟨.fullPrivacy (.replicate 64 1) (.replicate 64 2) (.replicate 64 3) (.replicate 64 4), rfl⟩

/-- In a ring of one output to the address that the root seed makes with some randomness, the
one-time account has the serial numbers of the root account. -/
theorem sole_ring_interchangeable :
    ∃ (oneTime rootAccount : Account) (address : CryptoAddress),
      Answers (Account.ofSeed (provider countingSupply) (.root soleRoot)) rootAccount ∧
      Answers (oneTime.makeAddress (provider countingSupply)) address ∧
      AllPayTo (.ring (soleRing address 5).serialize) [soleCoin] address.coin ∧
      outcome (oneTime.serialNumbers (provider countingSupply) [soleCoin]
          (.ring (soleRing address 5).serialize)) Tally.start =
        outcome (rootAccount.serialNumbers (provider countingSupply) [soleCoin]
          (.ring (soleRing address 5).serialize)) Tally.start := by
  obtain ⟨_, oneTime, rootAccount, _, address, -, -, hroot, -, hmade, -, -, hserials⟩ :=
    one_time_account_interchangeable countingSupply soleRoot (.replicate 64 5)
  have hpay := allPayTo_soleRing address 5
  exact ⟨oneTime, rootAccount, address, hroot, hmade, hpay, hserials _ _ hpay .start⟩

end HashScheme

end RingWallet
