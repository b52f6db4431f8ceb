import RingWallet.Proofs.HashScheme.Answers

/-!
# Serial numbers of an account

Whatever its kind, an account has a rule for the key of an output (`serialKeyOf`), and its serial
numbers are made coin by coin with that rule (`serialNumbers_eq`). None of them is empty, so the
wallet never refuses what the scheme has answered. In a ring an account gets serial numbers for
exactly the members to whose outputs it has a key (`exists_serialNumbers_iff`).
-/

set_option autoImplicit false

namespace RingWallet

/-- Accounts get the same serial numbers in contexts that are one to the provider, given their
keys. -/
theorem ViewAccount.serialNumbers_congr {σ : Type} {provider : Provider σ}
    {account other : ViewAccount} {coins : List CoinId} {context otherContext : RingContext}
    (h : provider.serialNumbers coins context (account.serialNumberKey coins.length) =
      provider.serialNumbers coins otherContext (other.serialNumberKey coins.length)) :
    account.serialNumbers provider coins context =
      other.serialNumbers provider coins otherContext := by
  simp only [serialNumbers, h]

namespace HashScheme

/-! ## Keys of outputs -/

/-- The key that an account's serial number of an output is made with. -/
def serialKeyOf (account : ViewAccount) (output : Bytes) : Except Failure Bytes :=
  match account with
  | .seedBacked view => rootSerialKey (view.serialNumber?.map FixedBytes.toList) output
  | .keyBacked view => .ok view.serialNumberKey

/-- Without a seed, the key of an output hashes the coin address in it. -/
theorem rootSerialKey_none {data : Bytes} {output : Output}
    (hparse : Output.parse data = .ok output) :
    rootSerialKey none data = .ok (labelled "sn-pseudo" [output.coinAddress]).toList := by
  unfold rootSerialKey
  rw [hparse]
  rfl

/-- A seed makes the key of an output with the randomness that the coin address starts with. -/
theorem rootSerialKey_some {data : Bytes} {output : Output}
    (hparse : Output.parse data = .ok output)
    (hlong : CryptoScheme.seedLength ≤ output.coinAddress.length) (seed : Bytes) :
    rootSerialKey (some seed) data =
      .ok (labelled "sn-sk" [(boundSerialNumber seed
        (output.coinAddress.take CryptoScheme.seedLength)).toList]).toList := by
  unfold rootSerialKey
  rw [hparse]
  change (if output.coinAddress.length < CryptoScheme.seedLength then _ else _) = _
  rw [if_neg (Nat.not_lt.mpr hlong)]
  rfl

/-- An output that a view of full privacy detects is long enough to carry public randomness. -/
theorem exists_rootSerialKey {view : SeedView} {output : Output}
    (houtput : output.coinAddress.length < UInt32.size)
    (hvalue : (valueFor (.seedBacked view) output).isSome = true) :
    ∃ key, rootSerialKey (view.serialNumber?.map FixedBytes.toList) output.serialize =
      .ok key := by
  have hparse := Output.parse_serialize houtput
  cases view with
  | pseudonym detector => exact ⟨_, rootSerialKey_none hparse⟩
  | fullPrivacy serialNumber value detector =>
    have hdetects : detects output detector.toList = true := by
      unfold valueFor at hvalue
      split at hvalue
      · cases hvalue
      · by_cases hdetects : detects output detector.toList = true
        · exact hdetects
        · rw [Bool.not_eq_true] at hdetects
          simp [SeedView.detector, hdetects] at hvalue
    have hlong : CryptoScheme.seedLength ≤ output.coinAddress.length := by
      unfold detects detectsCoin at hdetects
      simp only [Bool.and_eq_true, decide_eq_true_eq] at hdetects
      omega
    exact ⟨_, rootSerialKey_some hparse hlong serialNumber.toList⟩

/-- An account has a key for every output that has a value for it. -/
theorem exists_serialKeyOf {account : ViewAccount} {output : Output}
    (houtput : output.coinAddress.length < UInt32.size)
    (hvalue : (valueFor account output).isSome = true) :
    ∃ key, serialKeyOf account output.serialize = .ok key := by
  cases account with
  | seedBacked view => exact exists_rootSerialKey houtput hvalue
  | keyBacked view => exact ⟨view.serialNumberKey, rfl⟩

/-! ## Serial numbers of coins -/

section

variable {rings : List CoinRing} {ring : CoinRing} {keyOf : Bytes → Except Failure Bytes}
  {coin : CoinId} {number : Bytes}

theorem findMember?_singleton (ring : CoinRing) (coin : CoinId) :
    findMember? [ring] coin = (ring.outputOf? coin).map (ring, ·) := by
  cases hfound : ring.outputOf? coin <;> simp [findMember?, hfound]

/-- A coin has a serial number if some ring lists it and there is a key for its output; the number
hashes the key, the ring and the coin. -/
theorem serialNumber_eq_ok_iff :
    serialNumber rings keyOf coin = .ok number ↔
      ∃ ring output key, findMember? rings coin = some (ring, output) ∧ keyOf output = .ok key ∧
        (labelled "sn" [key, (sha256 ring.serialize).toList, coin.txid.bytes,
          [coin.index]]).toList = number := by
  unfold serialNumber
  cases hfound : findMember? rings coin with
  | none =>
    constructor
    · intro h
      cases h
    · rintro ⟨_, _, _, hnone, -⟩
      cases hnone
  | some found =>
    obtain ⟨ring, output⟩ := found
    constructor
    · intro h
      obtain ⟨key, hkey, h⟩ := bind_eq_ok_iff.mp h
      exact ⟨ring, output, key, rfl, hkey, Except.ok.inj h⟩
    · rintro ⟨_, _, key, hsame, hkey, rfl⟩
      cases hsame
      exact bind_eq_ok_iff.mpr ⟨key, hkey, rfl⟩

theorem serialNumber_ne_nil (h : serialNumber rings keyOf coin = .ok number) : number ≠ [] := by
  obtain ⟨_, _, _, -, -, rfl⟩ := serialNumber_eq_ok_iff.mp h
  exact digest_ne_nil _

/-- A coin has a serial number in a ring that lists it, once there is a key for its output. -/
theorem exists_serialNumber_iff :
    (∃ number, serialNumber [ring] keyOf coin = .ok number) ↔
      ∃ output key, ring.outputOf? coin = some output ∧ keyOf output = .ok key := by
  simp only [serialNumber_eq_ok_iff, findMember?_singleton, Option.map_eq_some_iff]
  constructor
  · rintro ⟨_, _, output, key, ⟨_, houtput, hsame⟩, hkey, -⟩
    cases hsame
    exact ⟨output, key, houtput, hkey⟩
  · rintro ⟨output, key, houtput, hkey⟩
    exact ⟨_, ring, output, key, ⟨output, houtput, rfl⟩, hkey, rfl⟩

/-- The wallet lets every list of serial numbers pass: there is one for each coin, and none is
empty. -/
theorem checkSerialNumbers_of_mapM {coins : List CoinId} {numbers : List Bytes}
    (h : coins.mapM (serialNumber rings keyOf) = .ok numbers) :
    checkSerialNumbers coins numbers = .ok numbers := by
  obtain ⟨hlength, hpairs⟩ := List.forall₂_iff_zip.mp (mapM_eq_ok_iff.mp h)
  have hnone : (coins.zip numbers).find? (·.2.isEmpty) = none := by
    rw [List.find?_eq_none]
    rintro ⟨coin, number⟩ hmem hempty
    exact serialNumber_ne_nil (hpairs hmem) (List.isEmpty_iff.mp hempty)
  unfold checkSerialNumbers
  rw [if_neg (not_not_intro hlength.symm), hnone]

end

/-! ## Serial numbers of accounts -/

variable (supply : RandSupply) {account : ViewAccount} {coins : List CoinId}
  {context : RingContext} {numbers : List Bytes}

/-- Whatever its kind, an account's serial numbers are made coin by coin, each with the key of the
coin's own output. -/
theorem serialNumbers_eq (account : ViewAccount) (coins : List CoinId) (context : RingContext) :
    serialNumbers coins context (account.serialNumberKey coins.length) =
      ringsOfContext context >>= fun rings =>
        coins.mapM (serialNumber rings (serialKeyOf account)) := by
  cases account with
  | seedBacked view => rfl
  | keyBacked view =>
    unfold serialNumbers
    congr 1
    funext rings
    -- The key is repeated for every coin, so there are as many keys as coins.
    have hkeys : (List.replicate coins.length view.serialNumberKey).length = coins.length :=
      List.length_replicate
    change (if (List.replicate coins.length view.serialNumberKey).length ≠ coins.length then _
      else _) = _
    rw [if_neg (not_not_intro hkeys), ← List.map_const', ← List.map_prod_left_eq_zip, List.mapM_map]
    rfl

/-- What the scheme has for an account, the account gets. -/
theorem serialNumbers_answers
    (h : serialNumbers coins context (account.serialNumberKey coins.length) = .ok numbers) :
    Answers (account.serialNumbers (provider supply) coins context) numbers := by
  have hmade := h
  rw [serialNumbers_eq] at hmade
  obtain ⟨rings, -, hmade⟩ := bind_eq_ok_iff.mp hmade
  unfold ViewAccount.serialNumbers
  cases coins with
  | nil =>
    cases hmade
    exact .pure []
  | cons coin rest => exact (consult_answers h).bind (.lift (checkSerialNumbers_of_mapM hmade))

variable {supply}

/-- What an account gets for one coin at least, the scheme had for it. -/
theorem serialNumbers_of_returns (hsome : coins ≠ [])
    (h : Returns (account.serialNumbers (provider supply) coins context) numbers) :
    serialNumbers coins context (account.serialNumberKey coins.length) = .ok numbers := by
  unfold ViewAccount.serialNumbers at h
  rw [if_neg (by simpa using hsome)] at h
  obtain ⟨given, hgiven, h⟩ := h.bind
  have hnumbers := eq_ok_of_returns hgiven.of_adapt
  have hmade := hnumbers
  rw [serialNumbers_eq] at hmade
  obtain ⟨rings, -, hmade⟩ := bind_eq_ok_iff.mp hmade
  -- Checking changes nothing.
  have hsame := h.of_lift
  rw [checkSerialNumbers_of_mapM hmade] at hsame
  cases hsame
  exact hnumbers

/-! ## Serial numbers in a ring -/

variable {ring : CoinRing}

/-- The context of one serialized ring is that ring. -/
theorem ringsOfContext_serialize (ring : CoinRing) :
    ringsOfContext (.ring ring.serialize) = .ok [ring] := by
  simp only [ringsOfContext, CoinRing.deserialize_serialize]
  rfl

theorem serialNumbers_ring_eq (account : ViewAccount) (coins : List CoinId) (ring : CoinRing) :
    serialNumbers coins (.ring ring.serialize) (account.serialNumberKey coins.length) =
      coins.mapM (serialNumber [ring] (serialKeyOf account)) := by
  rw [serialNumbers_eq, ringsOfContext_serialize]
  rfl

variable (supply)

/-- In a ring an account gets serial numbers for exactly the coins that the ring lists with an
output to which the account has a key. -/
theorem exists_serialNumbers_iff :
    (∃ numbers, Answers (account.serialNumbers (provider supply) coins (.ring ring.serialize))
      numbers) ↔
      ∀ coin ∈ coins, ∃ output key, ring.outputOf? coin = some output ∧
        serialKeyOf account output = .ok key := by
  simp only [← exists_serialNumber_iff]
  rw [← exists_mapM_eq_ok_iff]
  constructor
  · rintro ⟨numbers, h⟩
    by_cases hsome : coins = []
    · subst hsome
      exact ⟨[], rfl⟩
    · have hnumbers := serialNumbers_of_returns hsome (h.returns .start)
      rw [serialNumbers_ring_eq] at hnumbers
      exact ⟨numbers, hnumbers⟩
  · rintro ⟨numbers, hnumbers⟩
    rw [← serialNumbers_ring_eq] at hnumbers
    exact ⟨numbers, serialNumbers_answers supply hnumbers⟩

/-- An account gets a serial number for every output of a ring that has a value for it. -/
theorem exists_serialNumber_answers {id : CoinId} {output : Output}
    (houtput : output.coinAddress.length < UInt32.size)
    (hvalue : (valueFor account output).isSome = true)
    (hring : ring.outputOf? id = some output.serialize) :
    ∃ number, number ≠ [] ∧
      Answers (account.serialNumbers (provider supply) [id] (.ring ring.serialize)) [number] := by
  obtain ⟨key, hkey⟩ := exists_serialKeyOf houtput hvalue
  obtain ⟨number, hnumber⟩ := exists_serialNumber_iff.mpr ⟨_, key, hring, hkey⟩
  refine ⟨number, serialNumber_ne_nil hnumber, serialNumbers_answers supply ?_⟩
  rw [serialNumbers_ring_eq, List.mapM_cons, hnumber]
  rfl

end HashScheme

end RingWallet
