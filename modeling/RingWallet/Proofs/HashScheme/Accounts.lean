import RingWallet.Account
import RingWallet.Proofs.HashScheme.Addresses

/-!
# Accounts under the stand-in scheme

There is an account for every seed (`accountOf`), and it makes addresses of key seeds that follow
from the seed and, for a root seed, from the next public randomness (`makeAddress_outcome`). The tag
in a coin address is that of the detector key which the root detector key and the randomness in
front of the tag make, so a root seed finds the addresses it made without having kept anything about
them (`detectsCoin_coinAddress`).

The account of every seed therefore recognises each output that is paid to an address it made
(`account_recognises_own_addresses`).
-/

set_option autoImplicit false

namespace RingWallet

/-! ## The view of a root seed -/

namespace RootSeed

variable (root : RootSeed)

theorem level_view : root.view.level = root.level := by
  obtain ⟨keys, hscheme⟩ := root
  cases keys with
  | legacy spend value => cases hscheme
  | fullPrivacy spend serialNumber value detector => rfl
  | pseudonym spend detector => rfl

/-- No root seed is of the legacy level. -/
theorem level_ne_ringCtPre : root.level ≠ .ringCtPre := by
  rw [← root.level_view]
  cases root.view <;> simp [SeedView.level]

end RootSeed

namespace HashScheme

theorem level_randomize (root : RootSeed) (publicRand : Bytes) :
    (randomize root publicRand).level = root.level := by
  obtain ⟨keys, hscheme⟩ := root
  cases keys <;> rfl

theorem detector?_randomize (root : RootSeed) (publicRand : Bytes) :
    (randomize root publicRand).detector? =
      some (boundDetector root.view.detector.toList publicRand) := by
  obtain ⟨keys, hscheme⟩ := root
  cases keys with
  | legacy spend value => cases hscheme
  | fullPrivacy spend serialNumber value detector => rfl
  | pseudonym spend detector => rfl

/-! ## Detection -/

/-- A coin address of key seeds with a detector key starts with the randomness and the tag. -/
theorem coinAddress_eq_head_append {keys : KeySeeds} {detector : SeedField}
    (hdetector : keys.detector? = some detector) (publicRand : Bytes) :
    ∃ rest, coinAddress keys (some publicRand) =
      publicRand ++ ((detectorTag detector.toList).toList ++ rest) := by
  simp only [coinAddress, addressHead, hdetector, List.append_assoc]
  exact ⟨_, rfl⟩

theorem take_coinAddress {keys : KeySeeds} {detector : SeedField}
    (hdetector : keys.detector? = some detector) (publicRand : SeedField) :
    (coinAddress keys (some publicRand.toList)).take CryptoScheme.seedLength =
      publicRand.toList := by
  obtain ⟨rest, hcoin⟩ := coinAddress_eq_head_append hdetector publicRand.toList
  rw [hcoin, List.take_left' publicRand.length_eq]

/-- A root detector key finds the coin addresses that start with public randomness and, behind it,
the tag of the detector key that the root detector key and this randomness make. -/
def Finds (rootDetector : SeedField) (coin : Bytes) : Prop :=
  ∃ (publicRand : SeedField) (rest : Bytes), coin = publicRand.toList ++
    ((detectorTag (boundDetector rootDetector.toList publicRand.toList).toList).toList ++ rest)

theorem detectsCoin_iff {rootDetector : SeedField} {coin : Bytes} :
    detectsCoin rootDetector.toList coin = true ↔ Finds rootDetector coin := by
  have hseed : CryptoScheme.seedLength = 64 := rfl
  have htagLength : tagLength = 32 := rfl
  unfold detectsCoin
  simp only [Bool.and_eq_true, decide_eq_true_eq, beq_iff_eq]
  constructor
  · rintro ⟨hlong, htag⟩
    refine ⟨⟨coin.take CryptoScheme.seedLength, List.length_take_of_le (by omega)⟩,
      (coin.drop CryptoScheme.seedLength).drop tagLength, ?_⟩
    rw [htag, List.take_append_drop, List.take_append_drop]
  · rintro ⟨publicRand, rest, rfl⟩
    rw [List.take_left' publicRand.length_eq, List.drop_left' publicRand.length_eq,
      List.take_left' (FixedBytes.length_eq _)]
    refine ⟨?_, rfl⟩
    simp only [List.length_append, FixedBytes.length_toList]
    omega

/-- A root detector key finds every coin address of its root seed. -/
theorem detectsCoin_coinAddress (root : RootSeed) (publicRand : SeedField) :
    detectsCoin root.view.detector.toList
      (coinAddress (randomize root publicRand.toList) (some publicRand.toList)) = true := by
  have hdetector := detector?_randomize root publicRand.toList
  obtain ⟨rest, hcoin⟩ := coinAddress_eq_head_append hdetector publicRand.toList
  exact detectsCoin_iff.mpr ⟨publicRand, rest, hcoin⟩

/-! ## Accounts of seeds -/

/-- The view keys of a one-time seed. -/
def keyViewOf (seed : OneTimeSeed) : KeyView where
  address := addressOf seed.keys seed.publicRand?
  serialNumberKey := (deriveOneTime seed).serialNumber
  viewKey := (deriveOneTime seed).view
  detector? := (deriveOneTime seed).detector?
  serialNumberKey_ne := digest_ne_nil _
  viewKey_ne := digest_ne_nil _

/-- The account of a seed. -/
def accountOf : Seed → Account
  | .root root => .seedBacked root
  | .oneTime seed => .keyBacked ⟨seed, deriveOneTime seed, keyViewOf seed⟩

variable (supply : RandSupply)

theorem keyAccount_ofSeed_answers (seed : OneTimeSeed) :
    Answers (KeyAccount.ofSeed (provider supply) seed)
      ⟨seed, deriveOneTime seed, keyViewOf seed⟩ := by
  unfold KeyAccount.ofSeed
  apply (consult_answers rfl).bind
  apply (parse_addressOf_answers seed.keys seed.publicRand? supply).bind
  rw [if_pos (show (addressOf seed.keys seed.publicRand?).level = seed.level from rfl)]
  have hview : KeyView.ofMaterial (addressOf seed.keys seed.publicRand?)
      (deriveOneTime seed).serialNumber (deriveOneTime seed).view (deriveOneTime seed).detector? =
        .ok (keyViewOf seed) :=
    dif_pos ⟨digest_ne_nil _, digest_ne_nil _⟩
  exact (Answers.lift hview).bind (.pure _)

/-- Every seed has its account. -/
theorem ofSeed_answers (seed : Seed) :
    Answers (Account.ofSeed (provider supply) seed) (accountOf seed) := by
  cases seed with
  | root root => exact .pure _
  | oneTime seed => exact (keyAccount_ofSeed_answers supply seed).bind (.pure _)

theorem isReadable_view (seed : Seed) : IsReadable supply (accountOf seed).view := by
  cases seed with
  | root root => trivial
  | oneTime seed =>
    obtain ⟨after, hparse⟩ :=
      parse_addressOf_answers seed.keys seed.publicRand? supply .start
    exact ⟨.start, congrArg Prod.fst hparse⟩

/-! ## Addresses that accounts make -/

/-- The key seeds and the public randomness behind the address that the account of a seed makes. -/
def nextKeys (seed : Seed) (tally : Tally) : KeySeeds × Option SeedField :=
  match seed with
  | .root root => (randomize root (supply tally.draws).toList, some (supply tally.draws))
  | .oneTime seed => (seed.keys, seed.publicRand?)

/-- The address that the account of a seed makes. -/
def nextAddress (seed : Seed) (tally : Tally) : CryptoAddress :=
  addressOf (nextKeys supply seed tally).1 (nextKeys supply seed tally).2

theorem level_nextAddress (seed : Seed) (tally : Tally) :
    (nextAddress supply seed tally).level = seed.level := by
  cases seed with
  | root root => exact level_randomize root _
  | oneTime seed => rfl

/-- The keys behind a fresh address are bound to the next public randomness. -/
theorem derive_root_outcome (root : RootSeed) (tally : Tally) :
    outcome (consult ((provider supply).derive (.root root))) tally =
      (.ok (deriveFromRand root (supply tally.draws).toList),
        ⟨tally.calls + 1, tally.draws + 1⟩) := by
  have hdraw : outcome (drawRand supply) tally =
      (.ok (supply tally.draws), { tally with draws := tally.draws + 1 }) := rfl
  have hderive : (provider supply).derive (.root root) =
      drawRand supply >>= fun publicRand =>
        answer (.ok (deriveFromRand root publicRand.toList)) := rfl
  rw [outcome_consult, hderive, outcome_bind_of_ok hdraw, outcome_answer]
  rfl

theorem freshAddress_outcome (root : RootSeed) (tally : Tally) :
    ∃ after, outcome (root.freshAddress (provider supply)) tally =
      (.ok (nextAddress supply (.root root) tally), after) := by
  have hlevel : (nextAddress supply (.root root) tally).level = root.level :=
    level_nextAddress supply (.root root) tally
  have hparse : Answers
      (CryptoAddress.parse (provider supply)
        (deriveFromRand root (supply tally.draws).toList).address)
      (nextAddress supply (.root root) tally) :=
    parse_addressOf_answers (randomize root (supply tally.draws).toList)
      (some (supply tally.draws)) supply
  unfold RootSeed.freshAddress
  rw [outcome_bind_of_ok (derive_root_outcome supply root tally)]
  refine (hparse.bind ?_) _
  rw [if_pos hlevel]
  exact .pure _

theorem makeAddress_outcome (seed : Seed) (tally : Tally) :
    ∃ after, outcome ((accountOf seed).makeAddress (provider supply)) tally =
      (.ok (nextAddress supply seed tally), after) := by
  cases seed with
  | root root => exact freshAddress_outcome supply root tally
  | oneTime seed => exact ⟨tally, rfl⟩

/-- The address of key seeds, on any network, is read from its bytes. -/
theorem parse_app_addressOf_answers (keys : KeySeeds) (publicRand? : Option SeedField)
    (network : Network) :
    Answers (AppAddress.parse (provider supply)
      (AppAddress.mk network (addressOf keys publicRand?)).bytes)
      ⟨network, addressOf keys publicRand?⟩ :=
  AppAddress.parse_answers (parse_addressOf_answers keys publicRand? supply)
    (validateAddress_addressOf_answers keys publicRand? supply)

/-! ## Coins paid to an address -/

/-- The output of a value that is paid to an address. -/
def paidTo (address : CryptoAddress) (value : UInt64) : Output :=
  ⟨address.level, address.coin.bytes, value⟩

theorem length_paidTo (address : CryptoAddress) (value : UInt64) :
    (paidTo address value).coinAddress.length < UInt32.size := by
  change address.coin.bytes.length < _
  rw [address.coin.length_eq]
  cases address.coin.level <;> decide

/-- A root seed's view values an output of its level that it detects. -/
theorem valueFor_seedBacked {view : SeedView} {output : Output}
    (hlevel : output.level = view.level)
    (hdetects : detects output view.detector.toList = true) :
    valueFor (.seedBacked view) output = some output.value := by
  unfold valueFor
  rw [if_neg (not_not_intro (show output.level = (ViewAccount.seedBacked view).level from hlevel))]
  exact if_pos hdetects

/-- The view keys of an address value what is paid to it. -/
theorem valueFor_keyBacked (view : KeyView) (value : UInt64) :
    valueFor (.keyBacked view) (paidTo view.address value) = some value := by
  have hlevel : (paidTo view.address value).level = (ViewAccount.keyBacked view).level := rfl
  unfold valueFor
  rw [if_neg (not_not_intro hlevel)]
  exact if_pos rfl

/-- Whatever randomness its address was made with, a root seed finds what is paid there. -/
theorem valueFor_root (root : RootSeed) (publicRand : SeedField) (value : UInt64) :
    valueFor (.seedBacked root.view)
      (paidTo (addressOf (randomize root publicRand.toList) (some publicRand)) value) =
        some value := by
  have hlevel : (randomize root publicRand.toList).level = root.view.level := by
    rw [level_randomize, root.level_view]
  have hroot : root.view.level ≠ .ringCtPre := root.level_view.trans_ne root.level_ne_ringCtPre
  apply valueFor_seedBacked hlevel
  apply Bool.and_eq_true_iff.mpr
  constructor
  · rw [bne_iff_ne]
    exact hlevel.trans_ne hroot
  · exact detectsCoin_coinAddress root publicRand

theorem valueFor_nextAddress (seed : Seed) (tally : Tally) (value : UInt64) :
    valueFor (accountOf seed).view (paidTo (nextAddress supply seed tally) value) =
      some value := by
  cases seed with
  | root root => exact valueFor_root root _ value
  | oneTime seed => exact valueFor_keyBacked (keyViewOf seed) value

/-- An account recognises every coin that is paid to an address it made.

There is an account for every seed. Whenever it is asked, and whatever public randomness is drawn
for a root seed, it makes an address of the seed's scheme and level, as long as the table of lengths
says, that is read back on every network. An output of any value that is paid to the address is
received with that value, by the account and by its view alone. -/
theorem account_recognises_own_addresses (seed : Seed) :
    ∃ account, Answers (Account.ofSeed (provider supply) seed) account ∧
      ∀ tally, ∃ address after,
        outcome (account.makeAddress (provider supply)) tally = (.ok address, after) ∧
        address.scheme = seed.scheme ∧ address.level = seed.level ∧
        CryptoAddress.length? seed.scheme seed.level = some address.bytes.length ∧
        (∀ network, Answers
          (AppAddress.parse (provider supply) (AppAddress.mk network address).bytes)
          ⟨network, address⟩) ∧
        ∀ (txVersion : UInt32) (value : UInt64),
          Answers (account.receive (provider supply) txVersion (paidTo address value).serialize)
            (some value) ∧
          Answers (account.view.receive (provider supply) txVersion
            (paidTo address value).serialize) (some value) := by
  refine ⟨accountOf seed, ofSeed_answers supply seed, fun tally => ?_⟩
  obtain ⟨after, hmade⟩ := makeAddress_outcome supply seed tally
  have hlevel := level_nextAddress supply seed tally
  have hlength : CryptoAddress.length? seed.scheme seed.level =
      some (nextAddress supply seed tally).bytes.length := by
    have hsupported : seed.scheme.supports seed.level = true := beq_self_eq_true _
    rw [CryptoAddress.length?, if_pos hsupported, CryptoAddress.length_eq, ← hlevel]
    rfl
  refine ⟨nextAddress supply seed tally, after, hmade, congrArg PrivacyLevel.scheme hlevel, hlevel,
    hlength, parse_app_addressOf_answers supply _ _, fun txVersion value => ?_⟩
  have hreceive := receive_answers supply (isReadable_view supply seed)
    (length_paidTo (nextAddress supply seed tally) value) txVersion
  rw [valueFor_nextAddress] at hreceive
  exact ⟨hreceive, hreceive⟩

end HashScheme

end RingWallet
