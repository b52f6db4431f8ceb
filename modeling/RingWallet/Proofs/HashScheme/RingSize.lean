import RingWallet.Proofs.Chain.Resolution
import RingWallet.Proofs.Chain.Scan
import RingWallet.Proofs.HashScheme.Receiving
import RingWallet.Proofs.HashScheme.RingPartition
import RingWallet.Proofs.HashScheme.SerialBatches
import RingWallet.Proofs.Tracker.Formed
import RingWallet.Proofs.Tracker.Window

/-!
# The size of stored rings

The scheme cuts outputs into rings of the standard size, so no ring that it forms, and none that a
run over it stores, has more than seven members (`size_of_ring?`). The ring size among the
parameters of a chain takes no part in this. Whatever it is, there is a run that stores a ring of
seven members (`FullWindow.exists_full_ring`): seven outputs of one transaction pay a watched
account, and the first window, whose other blocks are empty, is resolved.

So the ring size of the parameters bounds the stored rings exactly if it is at least seven
(`stored_rings_bounded_iff`).
-/

set_option autoImplicit false

namespace RingWallet

namespace HashScheme

open Wallet (start)

/-! ## No ring is larger than the standard size -/

/-- Whether serial numbers are withheld is nothing to the rings. -/
theorem buildRings_withholding (supply : RandSupply) (withheld : Bool) (blocks : List Bytes) :
    (withholding supply withheld).buildRings blocks = answer (buildRings blocks) := by
  simp [withholding, faulty, Faults.none, Faults.guard, provider]

theorem size_of_forms {supply : RandSupply} {withheld : Bool} {ring : CoinRing}
    (h : (withholding supply withheld).Forms ring) :
    1 ≤ ring.size ∧ ring.size ≤ ChainParams.standardRingSize := by
  obtain ⟨blocks, rings, hreturns, hring⟩ := h
  rw [buildRings_withholding] at hreturns
  obtain ⟨first, rest, coinbase, transfer, -, hcoinbase, htransfer, rfl⟩ :=
    buildRings_eq_ok_iff.mp (eq_ok_of_returns hreturns)
  rcases List.mem_append.mp hring with hring | hring
  · have hcut := cutInto_of_ringsOf hcoinbase
    exact ⟨hcut.size_pos ring hring, hcut.size_le ring hring⟩
  · have hcut := cutInto_of_ringsOf htransfer
    exact ⟨hcut.size_pos ring hring, hcut.size_le ring hring⟩

/-- The operations ask the scheme only, which may draw from any supply and withhold serial numbers or
not, each time anew. -/
def OverScheme (ops : List (Operation Tally)) : Prop :=
  ∀ op ∈ ops, ∀ asked, op.Asks asked → ∃ supply withheld, asked = withholding supply withheld

/-- A ring that a run over the scheme stores has one member at least and seven at most. -/
theorem size_of_ring? {params : ChainParams} {tally : Tally} {ops : List (Operation Tally)}
    (hops : OverScheme ops) {id : RingId} {ring : CoinRing}
    (h : ((start params tally).run ops).store.ring? id = some ring) :
    1 ≤ ring.size ∧ ring.size ≤ ChainParams.standardRingSize := by
  obtain ⟨op, hmem, asked, hasks, hforms⟩ := Wallet.formed_of_ring? h
  obtain ⟨supply, withheld, rfl⟩ := hops op hmem asked hasks
  exact size_of_forms hforms

/-! ## A window with one full ring -/

/-- The only account owns what has a value for it. -/
theorem ownerOf_singleton {entry : AccountId × ViewAccount} {output : Output} {value : UInt64}
    (h : valueFor entry.2 output = some value) :
    ownerOf [entry] output = some (entry.1, value) := by
  unfold ownerOf
  rw [List.findSome?_cons, h]
  rfl

/-- What fits into one piece is not cut. -/
theorem chunksOf_of_length_le {α : Type} {size : Nat} {xs : List α} (hsome : xs ≠ [])
    (hle : xs.length ≤ size) : chunksOf size xs = [xs] := by
  have hpos := List.length_pos_iff.mpr hsome
  have hcut : ¬ (size = 0 ∨ xs = []) := by
    rintro (hzero | hnil)
    · omega
    · exact hsome hnil
  rw [chunksOf_eq_cons hcut, List.take_of_length_le hle, List.drop_of_length_le hle,
    chunksOf_eq_nil (.inr rfl)]

namespace FullWindow

/-- The watched account. -/
def account : ViewAccount := (accountOf (.oneTime legacySeed)).view

/-- An output that pays the account. -/
def paying : Output := paidTo (keyViewOf legacySeed).address 1

/-- A transaction with as many outputs as a ring has members. -/
def tx : ChainTx :=
  ⟨.zero .transaction, 1, [], List.replicate ChainParams.standardRingSize paying.serialize⟩

/-- The block of the transaction. -/
def first : ChainBlock := ⟨0, .zero .block, none, [tx]⟩

/-- A block without transactions. -/
def empty : ChainBlock := ⟨1, .zero .block, none, []⟩

/-- Blocks enough for a window of any size; only the first of them has a transaction. -/
def chain : LocalChain := ⟨first :: List.replicate 254 empty⟩

/-- The account is watched, the transaction is found, and the first window is resolved. -/
def ops (supply : RandSupply) : List (Operation Tally) :=
  [.register ⟨0⟩ account, .scan (provider supply) tx true (.zero .block) 0,
    .resolveGroup (provider supply) chain.source 0]

/-- The outputs of the transaction, with their names. -/
def members : List (CoinId × Bytes) := namedOutputs (tx.txid, tx.outputs)

theorem length_paying : paying.coinAddress.length < 2147483648 := by
  change (keyViewOf legacySeed).address.coin.bytes.length < _
  rw [(keyViewOf legacySeed).address.coin.length_eq]
  decide

theorem isPlain_of_mem {data : Bytes} (h : data ∈ tx.outputs) : IsPlain data := by
  rw [List.eq_of_mem_replicate h]
  exact .intro length_paying

theorem txFits : TxFits tx where
  outputs_le := by
    change (List.replicate _ _).length ≤ 255
    rw [List.length_replicate]
    decide
  output_lt _ h := (isPlain_of_mem h).length_lt

theorem length_members : members.length = ChainParams.standardRingSize := by
  unfold members namedOutputs
  rw [List.length_map, List.length_zipIdx]
  exact List.length_replicate

section

variable (params : ChainParams)

/-- The blocks of the first window. -/
def window : List ChainBlock := chain.window 0 params.groupSize

theorem window_eq : window params = first :: List.replicate (params.groupSize - 1) empty := by
  have hpos := params.groupSize_pos
  have hle := params.groupSize_le
  obtain ⟨size, hsize⟩ : ∃ size, params.groupSize = size + 1 := ⟨_, (Nat.sub_add_cancel hpos).symm⟩
  unfold window LocalChain.window chain
  rw [hsize, List.drop_zero, List.take_succ_cons, List.take_replicate, Nat.add_sub_cancel,
    Nat.min_eq_left (by omega)]

theorem length_window : (window params).length = params.groupSize := by
  have hpos := params.groupSize_pos
  rw [window_eq, List.length_cons, List.length_replicate]
  omega

theorem blockFits {block : ChainBlock} (h : block ∈ window params) : BlockFits block := by
  rw [window_eq] at h
  rcases List.mem_cons.mp h with rfl | h
  · refine ⟨by decide, fun other hmem => ?_⟩
    rw [List.mem_singleton.mp hmem]
    exact txFits
  · rw [List.eq_of_mem_replicate h]
    exact ⟨by decide, fun other hmem => nomatch hmem⟩

/-- All outputs of the window are coinbase outputs. -/
theorem outputs_window : coinbaseOutputs ((window params).map outputsOf) = members ∧
    transferOutputs ((window params).map outputsOf) = [] := by
  have hnone : ∀ cut : List (TxId × List Bytes) → List (TxId × List Bytes), cut [] = [] →
      ((List.replicate (params.groupSize - 1) empty).map outputsOf).flatMap
        (fun block => (cut block.txs).flatMap namedOutputs) = [] := by
    intro cut hcut
    rw [List.flatMap_eq_nil_iff]
    intro block hmem
    obtain ⟨other, hother, rfl⟩ := List.mem_map.mp hmem
    rw [List.eq_of_mem_replicate hother]
    change (cut []).flatMap namedOutputs = []
    rw [hcut]
    rfl
  rw [window_eq, List.map_cons]
  constructor
  · unfold coinbaseOutputs
    rw [List.flatMap_cons, hnone (List.take 1) rfl, List.append_nil]
    exact List.append_nil _
  · unfold transferOutputs
    rw [List.flatMap_cons, hnone (List.drop 1) rfl]
    rfl

theorem windowOutputs_window : windowOutputs (window params) = members := by
  unfold windowOutputs
  rw [(outputs_window params).1, (outputs_window params).2, List.append_nil]

/-- The window forms one ring, of all its outputs. -/
theorem exists_ring_of_window : ∃ ring,
    buildRings ((window params).map encodeBlock) = .ok [ring] ∧ ring.members = members := by
  have hdecoded := mapM_decodeBlock fun _ => blockFits params
  have houtputs := outputs_window params
  rw [window_eq, List.map_cons (f := outputsOf)] at hdecoded houtputs
  obtain ⟨hbase, hother⟩ := houtputs
  obtain ⟨coinbase, transfer, hcoinbase, htransfer, hrings⟩ :=
    exists_buildRings_of_decoded hdecoded
      (by
        rw [← window_eq, List.length_map, length_window]
        exact params.groupSize_le)
      (by
        rw [hbase, hother, List.append_nil]
        intro output hmem
        obtain ⟨index, houtput, -⟩ := (mem_namedOutputs_iff _ _).mp hmem
        exact txFits.output_lt _ (List.mem_of_getElem? houtput))
  -- The outputs fit into one piece, so that there is one ring of the one kind and none of the other.
  have hpieces := map_members_of_ringsOf hcoinbase
  have hnone := map_members_of_ringsOf htransfer
  have hsome : members ≠ [] := List.ne_nil_of_length_pos (by rw [length_members]; decide)
  rw [hbase, chunksOf_of_length_le hsome (Nat.le_of_eq length_members)] at hpieces
  rw [hother] at hnone
  obtain ⟨ring, rfl, hmembers⟩ := List.map_eq_singleton_iff.mp hpieces
  obtain rfl := List.map_eq_nil_iff.mp (hnone.trans (chunksOf_eq_nil (.inr rfl)))
  refine ⟨ring, ?_, hmembers⟩
  rw [window_eq]
  exact hrings

/-- The tracker that watches the account. -/
def tracker : Tracker := (Tracker.new params).register ⟨0⟩ account

theorem toList_accounts : (tracker params).accounts.toList = [(⟨0⟩, account)] := rfl

theorem isReadable_of_mem (supply : RandSupply) {entry : AccountId × ViewAccount}
    (h : entry ∈ (tracker params).accounts.toList) : IsReadable supply entry.2 := by
  rw [toList_accounts, List.mem_singleton] at h
  rw [h]
  exact isReadable_view supply (.oneTime legacySeed)

theorem ownedBy : OwnedBy (tracker params).accounts.toList paying.serialize (⟨0⟩, 1) := by
  rw [toList_accounts]
  have hvalue : valueFor account paying = some 1 := valueFor_keyBacked (keyViewOf legacySeed) 1
  exact .intro length_paying (@ownerOf_singleton (⟨0⟩, account) paying 1 hvalue)

/-- A coin of the transaction that waits for its ring. -/
structure Waiting (coin : Coin) : Prop where
  found : FoundAt chain (tracker params).accounts.toList 0 coin
  status_eq : coin.status = .immature
  ringId_eq : coin.ringId? = none

theorem waiting_receivedCoin {index : Nat} {data : Bytes} {owner : AccountId} {value : UInt64}
    (houtput : tx.outputs[index]? = some data)
    (howned : OwnedBy (tracker params).accounts.toList data (owner, value)) :
    Waiting params (receivedCoin tx true (.zero .block) 0 index data owner value) where
  found := by
    have hblock : chain.blocks[0]? = some first := rfl
    have htx : first.txs[0]? = some tx := rfl
    exact .intro hblock htx houtput rfl rfl rfl howned
  status_eq := rfl
  ringId_eq := rfl

/-- Scanning stores coins of the transaction, and one at least. -/
theorem scan_stores (supply : RandSupply) (tally : Tally) : ∃ received after,
    outcome ((tracker params).scanTransaction (provider supply) tx true (.zero .block) 0)
        ⟨.empty, tally⟩ = (.ok received, after) ∧
      (∀ id coin, after.store.coin? id = some coin → Waiting params coin) ∧
      ∃ coin, after.store.coin? ⟨tx.txid, 0⟩ = some coin := by
  have hpaying : tx.outputs[0]? = some paying.serialize := rfl
  have hempty : LoggedStore.Sound ⟨(⟨.empty, tally⟩ : TrackState Tally).store, []⟩ := .empty
  obtain ⟨received, after, hscan, hstored, hfound⟩ :=
    Tracker.scanOutputs_scans (fun _ => isReadable_of_mem params supply) (P := Waiting params) tx
      true (.zero .block) 0 0 (by rw [Nat.zero_add]; exact txFits.outputs_le)
      (fun _ => isPlain_of_mem) hempty (fun _ _ h => nomatch h)
      fun offset data owner value houtput howned => by
        rw [Nat.zero_add]
        exact waiting_receivedCoin params houtput howned
  exact ⟨received, after, hscan, hstored, hfound 0 _ _ hpaying (ownedBy params)⟩

/-- A coin that waits for its ring is resolved by the ring of the window. -/
theorem Waiting.resolution_answers {coin : Coin} (h : Waiting params coin) (supply : RandSupply)
    {ring : CoinRing} (hmembers : ring.members = members) :
    ∃ learned, Answers ((tracker params).resolution (provider supply) [ring] coin) learned := by
  have hlisted : [ring].flatMap CoinRing.members = windowOutputs (window params) := by
    rw [windowOutputs_window, List.flatMap_singleton, hmembers]
  have hnodup : ((windowOutputs (window params)).map Prod.fst).Nodup := by
    rw [windowOutputs_window]
    exact nodup_namedOutputs txFits
  refine RingWallet.resolution_answers supply hlisted hnodup h.found fun block hblock => ?_
  cases hblock
  rw [window_eq]
  exact List.mem_cons_self

theorem fetchGroup_answers :
    Answers (fetchGroup (chain.source : BlockSource Tally) params 0)
      ((window params).map encodeBlock) := by
  have hpos := params.groupSize_pos
  have hle := params.groupSize_le
  have hlength : chain.blocks.length = 254 + 1 :=
    List.length_cons.trans (congrArg (· + 1) List.length_replicate)
  have hend : params.windowEnd 0 < chain.blocks.length := by
    rw [params.windowEnd_eq, hlength]
    omega
  have hsize : UInt64.size = 18446744073709551616 := rfl
  exact LocalChain.fetchGroup_answers (by omega) params hend

/-- Whatever the size of a window, the rings of the first one are the one ring of its outputs. -/
theorem rings_of_returns (supply : RandSupply) {blocks : List Bytes} {rings : List CoinRing}
    (hblocks : Returns (fetchGroup (chain.source : BlockSource Tally) params 0) blocks)
    (hrings : Returns ((provider supply).buildRings blocks) rings) :
    ∃ ring, rings = [ring] ∧ ring.members = members := by
  obtain ⟨ring, hbuilt, hmembers⟩ := exists_ring_of_window params
  cases (fetchGroup_answers params).eq_of_returns hblocks
  exact ⟨ring, (answer_answers hbuilt).eq_of_returns hrings, hmembers⟩

/-- In any state of the tracker in which coins of the transaction wait, the first window is
resolved. -/
theorem resolveGroup_isOk (supply : RandSupply) {state : TrackState Tally}
    {committed : List CoinRing} (hsound : LoggedStore.Sound ⟨state.store, committed⟩)
    (hwaiting : ∀ id coin, state.store.coin? id = some coin → Waiting params coin) :
    (outcome ((tracker params).resolveGroup (provider supply) chain.source 0)
      state).1.isOk = true := by
  obtain ⟨ring, hbuilt, hmembers⟩ := exists_ring_of_window params
  have hdistinct : ∀ blocks rings,
      Returns (fetchGroup (chain.source : BlockSource Tally) (tracker params).params 0) blocks →
      Returns ((provider supply).buildRings blocks) rings →
      ∀ a ∈ rings, ∀ b ∈ rings, a.ringId = b.ringId → a = b := by
    intro blocks rings hblocks hrings a ha b hb _
    obtain ⟨only, rfl, -⟩ := rings_of_returns params supply hblocks hrings
    rw [List.mem_singleton.mp ha, List.mem_singleton.mp hb]
  obtain ⟨batch, hbatch⟩ := (tracker params).exists_resolutionBatch_answers (provider supply)
    chain.source (fetchGroup_answers params) (answer_answers hbuilt)
    fun coin (hpending : coin ∈ (tracker params).pendingCoins 0 state.store) => by
      obtain ⟨hstored, -⟩ := (Tracker.mem_pendingCoins_iff_awaits _ hsound).mp hpending
      exact (hwaiting _ coin hstored).resolution_answers params supply hmembers
  exact (tracker params).resolveGroup_isOk_of_answers (provider supply) chain.source hsound
    hdistinct hbatch

/-- A coin that waits for its ring is one that the end of the first window resolves. -/
theorem Waiting.awaits {coin : Coin} (h : Waiting params coin) :
    (tracker params).Awaits 0 coin := by
  obtain ⟨⟨-, -, -, -, hheight, -, howned⟩, hstatus, hringId⟩ := h
  have hzero : coin.height = 0 := hheight
  refine ⟨hstatus, hringId, ?_, hzero ▸ Nat.le_refl _, ?_⟩
  · rw [hzero]
    exact Nat.zero_le _
  · rcases howned with @⟨output, _, -, howner⟩
    obtain ⟨owner, hmem, -⟩ := mem_of_ownerOf howner
    exact (OrderedMap.contains_iff _ _).mpr ⟨owner, (OrderedMap.mem_toList_iff _ _ _).mp hmem⟩

/-- Resolving the window stores its ring. -/
theorem exists_ring_of_resolveGroup (supply : RandSupply) {state : TrackState Tally}
    (hsound : LoggedStore.Sound ⟨state.store, []⟩)
    (hwaiting : ∀ id coin, state.store.coin? id = some coin → Waiting params coin)
    {id : CoinId} {coin : Coin} (hcoin : state.store.coin? id = some coin) :
    ∃ ring, (outcome ((tracker params).resolveGroup (provider supply) chain.source 0)
        state).2.store.ring? ring.ringId = some ring ∧ ring.members = members := by
  have hok := resolveGroup_isOk params supply hsound hwaiting
  have hcommits := (tracker params).resolveGroup_commits (provider supply) chain.source 0
  rcases hrun : outcome ((tracker params).resolveGroup (provider supply) chain.source 0) state
    with ⟨e | resolved, after⟩
  · rw [hrun] at hok
    cases hok
  · have hafter := hcommits.sound hsound hrun
    obtain ⟨ringId, _, _, -, hlinked⟩ := ((tracker params).resolveGroup_resolves (provider supply)
      chain.source hsound hrun).linked hcoin (hwaiting id coin hcoin).awaits
    -- The coin has a ring now, so a ring was committed, and one with its identifier is stored.
    cases hafter.link hlinked with
    | unlinked hnone => cases hnone
    | linked hring =>
      obtain ⟨stored, hstored⟩ := Option.isSome_iff_exists.mp (hafter.ring_isSome _ hring)
      obtain ⟨hmem, hid⟩ := hafter.of_ring hstored
      obtain ⟨blocks, rings, hblocks, hrings, hmem⟩ := Tracker.formed_of_mem_ringsOfGroup hmem
      obtain ⟨only, rfl, hmembers⟩ := rings_of_returns params supply hblocks hrings
      rw [List.mem_singleton] at hmem
      subst hmem
      exact ⟨stored, by rw [hid]; exact hstored, hmembers⟩

/-- Whatever the parameters, a run over the scheme stores a ring of the standard size. -/
theorem exists_full_ring (supply : RandSupply) (tally : Tally) : ∃ id ring,
    ((start params tally).run (ops supply)).store.ring? id = some ring ∧
      ring.size = ChainParams.standardRingSize := by
  obtain ⟨received, scanned, hscan, hwaiting, coin, hcoin⟩ := scan_stores params supply tally
  have hempty : LoggedStore.Sound ⟨(⟨.empty, tally⟩ : TrackState Tally).store, []⟩ := .empty
  have hsound := ((tracker params).scanOutputs_commits (provider supply) tx true (.zero .block) 0 0
    tx.outputs).sound hempty hscan
  obtain ⟨ring, hring, hmembers⟩ := exists_ring_of_resolveGroup params supply hsound hwaiting hcoin
  refine ⟨ring.ringId, ring, ?_, ?_⟩
  · have hregister : (start params tally).perform (.register ⟨0⟩ account) =
        ⟨tracker params, .empty, tally⟩ := rfl
    have hfound : Wallet.perform ⟨tracker params, .empty, tally⟩
        (.scan (provider supply) tx true (.zero .block) 0) =
          ⟨tracker params, scanned.store, scanned.outside⟩ := by
      unfold Wallet.perform
      rw [Operation.action, outcome_bind_of_ok hscan]
      rfl
    unfold ops Wallet.run
    rw [List.foldl_cons, List.foldl_cons, List.foldl_cons, List.foldl_nil, hregister, hfound,
      Wallet.store_perform_resolveGroup]
    exact hring
  · unfold CoinRing.size
    rw [hmembers, length_members]

end

theorem overScheme_ops (supply : RandSupply) : OverScheme (ops supply) := by
  intro op hmem asked hasks
  refine ⟨supply, false, ?_⟩
  rw [withholding_false]
  -- Of the three operations the last two ask, and they ask the scheme.
  rcases List.mem_cons.mp hmem with rfl | hmem
  · cases hasks
  rcases List.mem_cons.mp hmem with rfl | hmem
  · exact hasks.symm
  · rw [List.mem_singleton.mp hmem] at hasks
    exact hasks.symm

end FullWindow

/-! ## The ring size of the parameters -/

/-- The ring size among the parameters bounds the stored rings only where it does not bind.

Whatever the parameters, every ring that a run over the scheme stores has at least one member and at
most seven. All of these rings, over all runs, stay within the ring size of the parameters exactly
if that is seven or more. -/
theorem stored_rings_bounded_iff (params : ChainParams) (tally : Tally) :
    (∀ ops, OverScheme ops → ∀ id ring,
      ((start params tally).run ops).store.ring? id = some ring →
        1 ≤ ring.size ∧ ring.size ≤ ChainParams.standardRingSize) ∧
    ((∀ ops, OverScheme ops → ∀ id ring,
      ((start params tally).run ops).store.ring? id = some ring →
        1 ≤ ring.size ∧ ring.size ≤ params.ringSize.toNat) ↔
      ChainParams.standardRingSize ≤ params.ringSize.toNat) := by
  refine ⟨fun ops hops id ring => size_of_ring? hops, fun hbounded => ?_,
    fun hle ops hops id ring hring => ?_⟩
  · obtain ⟨id, ring, hring, hsize⟩ := FullWindow.exists_full_ring params countingSupply tally
    have hle := (hbounded _ (FullWindow.overScheme_ops countingSupply) id ring hring).2
    rwa [hsize] at hle
  · obtain ⟨hpos, hsize⟩ := size_of_ring? hops hring
    exact ⟨hpos, Nat.le_trans hsize hle⟩

/-- Under the parameters of the main chain the full ring of the first window is stored, and is not
too large. -/
theorem standard_full_ring_bounded : ∃ id ring,
    ((start .standard .start).run (FullWindow.ops countingSupply)).store.ring? id = some ring ∧
      ring.size = 7 ∧ ring.size ≤ ChainParams.standard.ringSize.toNat := by
  obtain ⟨id, ring, hring, hsize⟩ := FullWindow.exists_full_ring .standard countingSupply .start
  exact ⟨id, ring, hring, hsize, ((stored_rings_bounded_iff .standard .start).2.mpr (by decide) _
    (FullWindow.overScheme_ops countingSupply) id ring hring).2⟩

/-- Parameters can be valid and their ring size be exceeded. -/
theorem not_every_stored_ring_bounded :
    ¬ ∀ params : ChainParams, params.check = .ok () → ∀ tally ops, OverScheme ops →
      ∀ id ring, ((start params tally).run ops).store.ring? id = some ring →
        1 ≤ ring.size ∧ ring.size ≤ params.ringSize.toNat := by
  intro hall
  obtain ⟨id, ring, hring, hsize⟩ := FullWindow.exists_full_ring ⟨1, 1, 1⟩ countingSupply .start
  have hle := (hall ⟨1, 1, 1⟩ rfl .start _ (FullWindow.overScheme_ops countingSupply) id ring
    hring).2
  rw [hsize] at hle
  exact absurd hle (by decide)

end HashScheme

end RingWallet
