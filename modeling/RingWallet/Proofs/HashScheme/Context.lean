import RingWallet.HashScheme.Faults
import RingWallet.Proofs.HashScheme.Rings
import RingWallet.Proofs.HashScheme.SerialNumbers

/-!
# One serial number in both contexts

Serial numbers can be asked for with a window's blocks, from which all rings are built and searched,
or with the serialized form of one ring. If the outputs of the window have different names, a member
of a ring is in no other ring (`findMember?_eq`), so the search ends in the ring that was handed
over, and both ways agree (`serialNumbers_in_both_contexts`).
-/

set_option autoImplicit false

namespace RingWallet

namespace HashScheme

variable {rings : List CoinRing} {ring : CoinRing}

/-- Only the rings that list a coin matter for where it is found. -/
theorem findMember?_filter (rings : List CoinRing) (coin : CoinId) :
    findMember? (rings.filter (·.contains coin)) coin = findMember? rings coin := by
  induction rings with
  | nil => rfl
  | cons first rest ih =>
    unfold findMember? at ih ⊢
    by_cases hcoin : coin ∈ first.coins
    · rw [List.filter_cons, if_pos ((first.contains_iff coin).mpr hcoin), List.findSome?_cons,
        List.findSome?_cons, ih]
    · have hnone : first.outputOf? coin = none := CoinRing.outputOf?_eq_none_iff.mpr hcoin
      rw [List.filter_cons, if_neg (mt (first.contains_iff coin).mp hcoin), ih,
        List.findSome?_cons, hnone]
      rfl

/-- If no two rings list one coin, a member is found in its own ring. -/
theorem findMember?_eq (hnames : ((rings.flatMap CoinRing.members).map Prod.fst).Nodup)
    (hring : ring ∈ rings) {coin : CoinId} (hcoin : coin ∈ ring.coins) :
    findMember? rings coin = findMember? [ring] coin := by
  rw [← findMember?_filter, filter_contains_eq_singleton hnames hring hcoin]

/-- Members of one ring of a window have the same serial numbers, whether the window's blocks or
the ring itself is handed over. -/
theorem serialNumbers_eq_of_members {blocks : List Bytes} (hrings : buildRings blocks = .ok rings)
    (hnames : ((rings.flatMap CoinRing.members).map Prod.fst).Nodup) (hring : ring ∈ rings)
    {coins : List CoinId} (hcoins : ∀ coin ∈ coins, coin ∈ ring.coins) (account : ViewAccount) :
    serialNumbers coins (.blocks blocks) (account.serialNumberKey coins.length) =
      serialNumbers coins (.ring ring.serialize) (account.serialNumberKey coins.length) := by
  have hblocks : ringsOfContext (.blocks blocks) = .ok rings := hrings
  rw [serialNumbers_eq, serialNumbers_eq, hblocks, ringsOfContext_serialize]
  apply mapM_congr_mem
  intro coin hcoin
  simp only [serialNumber, findMember?_eq hnames hring (hcoins coin hcoin)]

/-- Both contexts give the same serial numbers. For blocks that can be decoded and whose outputs
have different names, and for members of one of the rings that the blocks form, every account gets
the same answer with the blocks and with the ring's serialized form: the same serial numbers, or the
same failure. It gets serial numbers exactly if it has a key to the output of every coin. Faults of
the scheme may spoil the serial numbers, but they spoil both answers alike. -/
theorem serialNumbers_in_both_contexts (supply : RandSupply) (faults : Faults)
    {blocks : List Bytes} {decoded : List BlockOutputs}
    (hdecoded : blocks.mapM decodeBlock = .ok decoded)
    (hnames : ((decoded.flatMap BlockOutputs.named).map Prod.fst).Nodup)
    (hrings : Returns ((provider supply).buildRings blocks) rings) (hring : ring ∈ rings)
    {coins : List CoinId} (hcoins : ∀ coin ∈ coins, coin ∈ ring.coins) (account : ViewAccount) :
    (∀ tally,
      outcome (account.serialNumbers (provider supply) coins (.blocks blocks)) tally =
        outcome (account.serialNumbers (provider supply) coins (.ring ring.serialize)) tally) ∧
    ((∃ numbers, Answers (account.serialNumbers (provider supply) coins (.blocks blocks))
        numbers) ↔
      ∀ coin ∈ coins, ∃ output key, ring.outputOf? coin = some output ∧
        serialKeyOf account output = .ok key) ∧
    ∀ tally,
      outcome (account.serialNumbers (faulty supply faults) coins (.blocks blocks)) tally =
        outcome (account.serialNumbers (faulty supply faults) coins (.ring ring.serialize))
          tally := by
  have hbuilt := eq_ok_of_returns hrings
  -- The rings list the outputs of the blocks, so their members have different names as well.
  obtain ⟨_, hagain, hperm⟩ := members_of_buildRings hbuilt
  rw [hdecoded] at hagain
  cases hagain
  have hapart := (hperm.map Prod.fst).nodup_iff.mpr hnames
  have hsame : (provider supply).serialNumbers coins (.blocks blocks)
        (account.serialNumberKey coins.length) =
      (provider supply).serialNumbers coins (.ring ring.serialize)
        (account.serialNumberKey coins.length) :=
    congrArg answer (serialNumbers_eq_of_members hbuilt hapart hring hcoins account)
  have hfaulty : (faulty supply faults).serialNumbers coins (.blocks blocks)
        (account.serialNumberKey coins.length) =
      (faulty supply faults).serialNumbers coins (.ring ring.serialize)
        (account.serialNumberKey coins.length) := by
    simp only [faulty, hsame]
  rw [ViewAccount.serialNumbers_congr hsame, ViewAccount.serialNumbers_congr hfaulty]
  exact ⟨fun _ => rfl, exists_serialNumbers_iff supply, fun _ => rfl⟩

/-! ### Two rings of one block -/

namespace TwoRings

def minedCoin : CoinId := ⟨⟨.replicate 32 2⟩, 0⟩

def paidCoin : CoinId := ⟨⟨.replicate 32 3⟩, 0⟩

def minedOutput : Output := ⟨.pseudonym, [], 5⟩

def paidOutput : Output := ⟨.pseudonym, [], 6⟩

/-- A block with a coinbase output and another one. -/
def block : ChainBlock :=
  ⟨7, ⟨.replicate 32 1⟩, none, [⟨minedCoin.txid, 1, [], [minedOutput.serialize]⟩,
    ⟨paidCoin.txid, 1, [], [paidOutput.serialize]⟩]⟩

/-- The ring of one output of the block. -/
def ringOf (coin : CoinId) (output : Output) (isCoinbase : Bool)
    (hlength : output.serialize.length < UInt32.size) : CoinRing where
  version := CoinRing.currentVersion
  firstHeight := block.height
  blockHashes := [block.hash]
  members := [(coin, output.serialize)]
  isCoinbase := isCoinbase
  members_pos := by simp
  members_le := by simp
  blocks_le := by decide
  outputs_lt := by
    intro member hmember
    rw [List.mem_singleton.mp hmember]
    exact hlength

def minedRing : CoinRing := ringOf minedCoin minedOutput true (by decide)

def paidRing : CoinRing := ringOf paidCoin paidOutput false (by decide)

def account : ViewAccount := .seedBacked (.pseudonym (.replicate 64 1))

end TwoRings

open TwoRings in
/-- The coin of the second ring, asked for twice, has its serial numbers in both contexts. -/
theorem second_ring_serialNumbers_in_both_contexts :
    (∃ numbers, Answers (account.serialNumbers (provider countingSupply) [paidCoin, paidCoin]
      (.blocks [encodeBlock block])) numbers) ∧
    outcome (account.serialNumbers (provider countingSupply) [paidCoin, paidCoin]
        (.blocks [encodeBlock block])) .start =
      outcome (account.serialNumbers (provider countingSupply) [paidCoin, paidCoin]
        (.ring paidRing.serialize)) .start := by
  have hdecoded : [encodeBlock block].mapM decodeBlock = .ok [outputsOf block] := by
    decide +kernel
  have hrings : buildRings [encodeBlock block] = .ok [minedRing, paidRing] := by
    decide +kernel
  have hlisted : ∀ coin ∈ [paidCoin, paidCoin], coin ∈ paidRing.coins := by decide
  obtain ⟨hsame, hnumbers, -⟩ := serialNumbers_in_both_contexts countingSupply Faults.none hdecoded
    (by decide) ((answer_answers hrings).returns .start) (by simp) hlisted account
  refine ⟨hnumbers.mpr ?_, hsame .start⟩
  -- A pseudonym has a key to every output that can be read.
  intro coin hcoin
  have hpaid : coin = paidCoin := by simpa using hcoin
  exact ⟨paidOutput.serialize, _, by rw [hpaid]; rfl, rfl⟩

end HashScheme

end RingWallet
