import RingWallet.Proofs.Chain.Built
import RingWallet.Proofs.HashScheme.SerialNumbers
import RingWallet.Proofs.Tracker.Batch

/-!
# Resolving the windows of a built chain

Over the stand-in scheme and a built chain, the end of a complete window never fails: the blocks of
the window form rings, every pending coin is an output of the window and so is listed in one of
them, its serial number is computed, and the store takes the batch over (`resolveGroup_isOk`).

One thing cannot be had from the code: that the store checks a coin against its own ring, which it
finds by the ring's identifier. So no two different rings of one window may have one identifier
(`LocalChain.DistinctRings`).
-/

set_option autoImplicit false

namespace RingWallet

open HashScheme

/-- A coin is an output of the block at a place of a chain, a coinbase coin exactly if it is one of
the first transaction's, and its account is the output's owner among given accounts. -/
inductive FoundAt (chain : LocalChain) (accounts : List (AccountId × ViewAccount)) (place : Nat)
    (coin : Coin) : Prop where
  | intro {block : ChainBlock} {txPlace : Nat} {tx : ChainTx} {index : Nat} {data : Bytes}
      (hblock : chain.blocks[place]? = some block) (htx : block.txs[txPlace]? = some tx)
      (houtput : tx.outputs[index]? = some data)
      (hid : coin.id = ⟨tx.txid, UInt8.ofNat index⟩) (hheight : coin.height = UInt64.ofNat place)
      (hcoinbase : coin.isCoinbase = decide (txPlace = 0))
      (howned : OwnedBy accounts data (coin.account, coin.value))

/-- No two different rings of one complete window have one identifier. An identifier is the hash of
the serialized ring, so this excludes collisions among a few rings and nothing else. -/
def LocalChain.DistinctRings (chain : LocalChain) (params : ChainParams) : Prop :=
  ∀ place rings, params.windowEnd place < chain.blocks.length →
    buildRings ((chain.window (LocalChain.windowStart params place) params.groupSize).map
      encodeBlock) = .ok rings →
    ∀ a ∈ rings, ∀ b ∈ rings, a.ringId = b.ringId → a = b

section

variable {chain : LocalChain} {tracker : Tracker} (supply : RandSupply)

/-- A coin of a window is resolved by the window's rings. -/
theorem resolution_answers {blocks : List ChainBlock} {rings : List CoinRing}
    (hmembers : rings.flatMap CoinRing.members = windowOutputs blocks)
    (hnodup : ((windowOutputs blocks).map Prod.fst).Nodup) {place : Nat} {coin : Coin}
    (hcoin : FoundAt chain tracker.accounts.toList place coin)
    (hwindow : ∀ block, chain.blocks[place]? = some block → block ∈ blocks) :
    ∃ learned, Answers (tracker.resolution (provider supply) rings coin) learned := by
  rcases hcoin with @⟨block, txPlace, tx, index, data, hblock, htx, houtput, hid, -, -, howned⟩
  rcases howned with @⟨output, _, hlength, howner⟩
  obtain ⟨account, haccount, hvalue⟩ := mem_of_ownerOf howner
  have hget : tracker.accounts.get? coin.account = some account :=
    (OrderedMap.mem_toList_iff _ _ _).mp haccount
  -- The coin is an output of the window, so one of the rings lists it and knows its bytes.
  have hentry : (coin.id, output.serialize) ∈ windowOutputs blocks :=
    (mem_windowOutputs_iff blocks _).mpr ⟨block, hwindow block hblock, tx,
      List.mem_of_getElem? htx, index, houtput, hid⟩
  obtain ⟨ringPlace, ring, hlast, hring, hlisted⟩ :=
    exists_lastRing (exists_ring_of_mem hmembers hentry)
  obtain ⟨ringIndex, hindex⟩ := CoinRing.exists_indexOf? hlisted
  have hknown := outputOf?_of_window hmembers hnodup (List.mem_of_getElem? hring) hentry hlisted
  have hfits : output.coinAddress.length < UInt32.size := Nat.lt_trans hlength (by decide)
  obtain ⟨number, hne, hnumbers⟩ := exists_serialNumber_answers supply hfits
    (Option.isSome_iff_exists.mpr ⟨_, hvalue⟩) hknown
  refine ⟨(ringPlace, ⟨coin.id, ring.ringId, ringIndex, number, !coin.isCoinbase⟩), ?_⟩
  unfold Tracker.resolution
  simp only [hlast, hindex, hget]
  apply hnumbers.bind
  have husable : ([number].head?.filter (!·.isEmpty)) = some number := by simp [hne]
  rw [husable]
  exact .pure _

variable (hbuilt : chain.Built) (htxids : chain.DistinctTxids) {place : Nat}
  (hend : tracker.params.windowEnd place < chain.blocks.length)

include hbuilt htxids hend

/-- There is a batch for outputs of a window. -/
theorem resolutionBatch_answers {coins : List Coin}
    (hcoins : ∀ coin ∈ coins, ∃ coinPlace, FoundAt chain tracker.accounts.toList coinPlace coin ∧
      LocalChain.windowStart tracker.params place ≤ coinPlace ∧
      coinPlace ≤ tracker.params.windowEnd place) :
    ∃ batch, Answers (tracker.resolutionBatch (provider supply) chain.source (UInt64.ofNat place)
      coins) batch := by
  let blocks :=
    chain.window (LocalChain.windowStart tracker.params place) tracker.params.groupSize
  obtain ⟨rings, hrings, hmembers, hnodup⟩ := hbuilt.exists_windowRings htxids hend
  refine tracker.exists_resolutionBatch_answers (provider supply) chain.source
    (LocalChain.fetchGroup_answers (hbuilt.length_le htxids) tracker.params hend)
    (answer_answers hrings) fun coin hmem => ?_
  obtain ⟨coinPlace, hfound, hfrom, hto⟩ := hcoins coin hmem
  exact resolution_answers supply hmembers hnodup hfound fun block hblock =>
    LocalChain.mem_window_of_le tracker.params place hfrom hto hblock

/-- The rings that are formed at the end of a complete window have different identifiers. -/
theorem distinct_of_buildRings (hrings : chain.DistinctRings tracker.params)
    {data : List Bytes} {rings : List CoinRing}
    (hdata : Returns (fetchGroup chain.source tracker.params (UInt64.ofNat place) :
      WalletM Tally (List Bytes)) data)
    (hreturns : Returns ((provider supply).buildRings data) rings) :
    ∀ a ∈ rings, ∀ b ∈ rings, a.ringId = b.ringId → a = b := by
  obtain ⟨formed, hformed, -, -⟩ := hbuilt.exists_windowRings htxids hend
  cases (LocalChain.fetchGroup_answers (hbuilt.length_le htxids) tracker.params hend).eq_of_returns
    hdata
  cases (answer_answers hformed).eq_of_returns hreturns
  exact hrings place rings hend hformed

/-- The end of a window never fails if every pending coin is an output of the window. -/
theorem resolveGroup_isOk (hrings : chain.DistinctRings tracker.params) {state : TrackState Tally}
    {committed : List CoinRing} (hsound : LoggedStore.Sound ⟨state.store, committed⟩)
    (hcoins : ∀ coin ∈ tracker.pendingCoins (UInt64.ofNat place) state.store, ∃ coinPlace,
      FoundAt chain tracker.accounts.toList coinPlace coin ∧
      LocalChain.windowStart tracker.params place ≤ coinPlace ∧
      coinPlace ≤ tracker.params.windowEnd place) :
    (outcome (tracker.resolveGroup (provider supply) chain.source (UInt64.ofNat place))
      state).1.isOk = true := by
  obtain ⟨batch, hanswers⟩ := resolutionBatch_answers supply hbuilt htxids hend hcoins
  exact tracker.resolveGroup_isOk_of_answers (provider supply) chain.source hsound
    (fun _ _ => distinct_of_buildRings supply hbuilt htxids hend hrings) hanswers

end

end RingWallet
