import RingWallet.Proofs.Digest
import RingWallet.Proofs.HashScheme.Receiving

/-!
# Two root seeds that find one output

A root detector key finds an output by two layers of hashes: the blocks of the detector key that it
makes with the randomness in the output, and the tag of that key. An output that belongs to one root
seed belongs to another one of the same level exactly if both have one detector key or the hashes of
a layer collide (`received_by_one_root_seed`). The collisions are named by their inputs
(`tagInput`, `blockInput`), since every hash has some.
-/

set_option autoImplicit false

namespace RingWallet

namespace HashScheme

/-! ## What is hashed -/

/-- What is hashed for the tag of a detector key. -/
def tagInput (detector : Bytes) : Bytes := Text.utf8 "tag" ++ detector

/-- What is hashed for a block of the detector key that a root detector key and public randomness
make. -/
def blockInput (rootDetector publicRand : Bytes) (counter : Nat) : Bytes :=
  Text.utf8 "rand-detector" ++ Bytes.ofNatLE 4 counter ++ (rootDetector ++ publicRand)

/-- Two root detector keys have colliding hashes for public randomness: those of both blocks of the
detector keys that they make, or those of the tags of these keys. -/
def DetectionsCollide (root other publicRand : Bytes) : Prop :=
  Collision sha256 (blockInput root publicRand 0) (blockInput other publicRand 0) ∧
      Collision sha256 (blockInput root publicRand 1) (blockInput other publicRand 1) ∨
    Collision sha256 (tagInput (boundDetector root publicRand).toList)
      (tagInput (boundDetector other publicRand).toList)

theorem detectorTag_eq (detector : Bytes) : detectorTag detector = sha256 (tagInput detector) := by
  rw [detectorTag, labelled, tagInput, List.flatten_singleton]

/-- A detector key is the hashes of its two blocks. -/
theorem toList_boundDetector (root publicRand : Bytes) :
    (boundDetector root publicRand).toList =
      (sha256 (blockInput root publicRand 0)).toList ++
        (sha256 (blockInput root publicRand 1)).toList := by
  have hblock : ∀ counter, expandBlock "rand-detector" [root, publicRand] counter =
      sha256 (blockInput root publicRand counter) := by
    intro counter
    simp [expandBlock, blockInput]
  have hblocks : expandBlocks "rand-detector" [root, publicRand] 2 =
      (sha256 (blockInput root publicRand 0)).toList ++
        (sha256 (blockInput root publicRand 1)).toList := by
    simp [expandBlocks, List.range_succ, hblock]
  have hlength := length_expandBlocks "rand-detector" [root, publicRand] 2
  change (expandBlocks "rand-detector" [root, publicRand] 2).take 64 = _
  rw [List.take_of_length_le (by omega), hblocks]

variable {root other publicRand : Bytes}

theorem blockInput_eq_iff {counter : Nat} :
    blockInput root publicRand counter = blockInput other publicRand counter ↔ root = other := by
  simp [blockInput]

theorem tagInput_eq_iff {detector otherDetector : Bytes} :
    tagInput detector = tagInput otherDetector ↔ detector = otherDetector := by
  simp [tagInput]

/-- Different root detector keys make one detector key only by collisions of both blocks. -/
theorem boundDetector_eq_iff :
    boundDetector root publicRand = boundDetector other publicRand ↔
      root = other ∨
        Collision sha256 (blockInput root publicRand 0) (blockInput other publicRand 0) ∧
          Collision sha256 (blockInput root publicRand 1) (blockInput other publicRand 1) := by
  have hblocks : boundDetector root publicRand = boundDetector other publicRand ↔
      sha256 (blockInput root publicRand 0) = sha256 (blockInput other publicRand 0) ∧
        sha256 (blockInput root publicRand 1) = sha256 (blockInput other publicRand 1) := by
    rw [FixedBytes.ext_iff, toList_boundDetector, toList_boundDetector]
    constructor
    · -- All blocks have one length, so each is compared with its own.
      intro h
      obtain ⟨hfirst, hsecond⟩ := List.append_inj h (by simp)
      exact ⟨FixedBytes.ext hfirst, FixedBytes.ext hsecond⟩
    · rintro ⟨hfirst, hsecond⟩
      rw [hfirst, hsecond]
  rw [hblocks, hash_eq_iff, hash_eq_iff, blockInput_eq_iff, blockInput_eq_iff, or_and_left]

/-- Different root detector keys have one tag only by collisions. -/
theorem detectorTag_eq_iff :
    detectorTag (boundDetector root publicRand).toList =
        detectorTag (boundDetector other publicRand).toList ↔
      root = other ∨ DetectionsCollide root other publicRand := by
  have hkeys : (boundDetector root publicRand).toList = (boundDetector other publicRand).toList ↔
      boundDetector root publicRand = boundDetector other publicRand :=
    ⟨FixedBytes.ext, congrArg FixedBytes.toList⟩
  rw [detectorTag_eq, detectorTag_eq, hash_eq_iff, tagInput_eq_iff, hkeys, boundDetector_eq_iff,
    DetectionsCollide, or_assoc]

/-! ## What both find -/

/-- A coin address that one root detector key finds is found by another one if their tags for its
randomness are the same. -/
theorem finds_iff_of_finds {rootDetector otherDetector : SeedField} {coin : Bytes}
    (h : Finds rootDetector coin) :
    Finds otherDetector coin ↔ rootDetector = otherDetector ∨
      DetectionsCollide rootDetector.toList otherDetector.toList
        (coin.take CryptoScheme.seedLength) := by
  obtain ⟨publicRand, rest, rfl⟩ := h
  have hdetectors : rootDetector = otherDetector ↔ rootDetector.toList = otherDetector.toList :=
    ⟨congrArg FixedBytes.toList, FixedBytes.ext⟩
  rw [List.take_left' publicRand.length_eq, hdetectors, ← detectorTag_eq_iff]
  constructor
  · -- Both read the randomness and the tag off the same places, so the tags are the same.
    rintro ⟨otherRand, otherRest, hcoin⟩
    obtain ⟨hrand, hbehind⟩ := List.append_inj hcoin (by simp)
    obtain ⟨htag, -⟩ := List.append_inj hbehind (by simp)
    rw [hrand]
    rw [hrand] at htag
    exact FixedBytes.ext htag
  · intro htag
    exact ⟨publicRand, rest, by rw [htag]⟩

/-- An output belongs to at most one root seed, unless hashes collide. If an account of a root seed
receives bytes as an output with some value, another one of the same level receives them as well,
with whatever value, exactly if both have one detector key, or both blocks or the tags that they
hash for the randomness in the output collide. -/
theorem received_by_one_root_seed (supply : RandSupply) {view other : SeedView}
    (hlevel : view.level = other.level) {txVersion : UInt32} {data : Bytes} {value : UInt64}
    (hreceived : Returns ((ViewAccount.seedBacked view).receive (provider supply) txVersion data)
      (some value)) :
    ∃ output : Output, output.WrittenAs data ∧
      ((∃ otherValue, Returns
          ((ViewAccount.seedBacked other).receive (provider supply) txVersion data)
          (some otherValue)) ↔
        view.detector = other.detector ∨
          DetectionsCollide view.detector.toList other.detector.toList
            (output.coinAddress.take CryptoScheme.seedLength)) := by
  have hview : IsReadable supply (.seedBacked view) := trivial
  have hother : IsReadable supply (.seedBacked other) := trivial
  obtain ⟨output, hwritten, hvalue⟩ := (returns_receive_iff hview).mp hreceived
  obtain ⟨⟨hown, hfinds⟩, -⟩ := valueFor_eq_some_iff.mp hvalue
  refine ⟨output, hwritten, ?_⟩
  rw [← finds_iff_of_finds hfinds]
  constructor
  · rintro ⟨otherValue, hreturns⟩
    obtain ⟨found, hfound, hvalue⟩ := (returns_receive_iff hother).mp hreturns
    obtain ⟨⟨-, hfinds⟩, -⟩ := valueFor_eq_some_iff.mp hvalue
    rwa [hwritten.unique hfound]
  · intro hfinds
    refine ⟨output.value, (returns_receive_iff hother).mpr ⟨output, hwritten, ?_⟩⟩
    exact valueFor_eq_some_iff.mpr ⟨⟨hown.trans hlevel, hfinds⟩, rfl⟩

namespace TwoRoots

def first : RootSeed := ⟨.pseudonym (.replicate 64 1) (.replicate 64 2), rfl⟩

def second : RootSeed := ⟨.pseudonym (.replicate 64 3) (.replicate 64 4), rfl⟩

/-- The address that the first root seed makes with some randomness. -/
def address : CryptoAddress :=
  addressOf (randomize first (FixedBytes.replicate 64 5).toList) (some (.replicate 64 5))

end TwoRoots

open TwoRoots in
/-- Of two pseudonyms with different detector keys, the second one receives what is paid to an
address of the first one exactly if the hashes of the two detections collide. -/
theorem second_root_receives_by_collision :
    Returns ((ViewAccount.seedBacked first.view).receive (provider countingSupply) 1
      (paidTo address 5).serialize) (some 5) ∧
    ((∃ value, Returns ((ViewAccount.seedBacked second.view).receive (provider countingSupply) 1
        (paidTo address 5).serialize) (some value)) ↔
      DetectionsCollide first.view.detector.toList second.view.detector.toList
        (address.coin.bytes.take CryptoScheme.seedLength)) := by
  have hpaid : (paidTo address 5).WrittenAs (paidTo address 5).serialize :=
    ⟨length_paidTo address 5, rfl⟩
  have hlevel : first.view.level = second.view.level := by
    rw [first.level_view, second.level_view]
    rfl
  have hfirst : IsReadable countingSupply (.seedBacked first.view) := trivial
  have hreceived : Returns ((ViewAccount.seedBacked first.view).receive (provider countingSupply) 1
      (paidTo address 5).serialize) (some 5) :=
    (returns_receive_iff hfirst).mpr ⟨_, hpaid, valueFor_root first (.replicate 64 5) 5⟩
  obtain ⟨output, hwritten, hexact⟩ := received_by_one_root_seed countingSupply hlevel hreceived
  rw [hwritten.unique hpaid] at hexact
  have hne : first.view.detector ≠ second.view.detector := by decide
  exact ⟨hreceived, hexact.trans (or_iff_right hne)⟩

end HashScheme

end RingWallet
