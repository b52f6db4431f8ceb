import RingWallet.Proofs.Chain.Resolution
import RingWallet.Proofs.Chain.Scan
import RingWallet.Proofs.Chain.Schedule

/-!
# One block of a built chain

Over the stand-in scheme and a built chain, a block behind the blocks before it is processed without
a failure. The stored coins behind it are the coins behind its transactions, aged by the block
(`processBlock_ages`).
-/

set_option autoImplicit false

namespace RingWallet

open HashScheme

namespace FoundAt

variable {chain : LocalChain} {accounts : List (AccountId × ViewAccount)} {place : Nat}
  {coin : Coin}

theorem toNat_height (h : FoundAt chain accounts place coin)
    (hlength : chain.blocks.length ≤ UInt64.size) : coin.height.toNat = place := by
  rcases h with ⟨hblock, -, -, -, hheight, -, -⟩
  obtain ⟨hplace, -⟩ := List.getElem?_eq_some_iff.mp hblock
  rw [hheight, UInt64.toNat_ofNat_of_lt' (by omega)]

theorem contains_account {tracker : Tracker}
    (h : FoundAt chain tracker.accounts.toList place coin) :
    tracker.accounts.contains coin.account = true := by
  rcases h with ⟨-, -, -, -, -, -, howned⟩
  generalize howner : (coin.account, coin.value) = owner at howned
  rcases howned with ⟨-, hfound⟩
  rw [← howner] at hfound
  obtain ⟨account, hmem, -⟩ := mem_of_ownerOf hfound
  exact (OrderedMap.contains_iff _ _).mpr ⟨account, (OrderedMap.mem_toList_iff _ _ _).mp hmem⟩

/-- Where a coin was found does not depend on its status. -/
theorem withStatus (h : FoundAt chain accounts place coin) (status : CoinStatus) :
    FoundAt chain accounts place { coin with status } := by
  rcases h with ⟨hblock, htx, houtput, hid, hheight, hcoinbase, howned⟩
  exact .intro hblock htx houtput hid hheight hcoinbase howned

theorem seenBy (h : FoundAt chain accounts place coin) (inputs : List ChainInput) :
    FoundAt chain accounts place (coin.seenBy inputs) := by
  obtain ⟨status, heq⟩ := coin.exists_seenBy_eq inputs
  rw [heq]
  exact h.withStatus status

/-- A block does not change where a coin was found. -/
theorem aged (h : FoundAt chain accounts place coin) {params : ChainParams} {bound : Nat}
    {later : Coin} (haged : coin.Aged params bound later) :
    FoundAt chain accounts place later := by
  cases haged with
  | linked resolution _ _ _ =>
    obtain ⟨status, heq⟩ :=
      Coin.exists_ripened_eq params (UInt64.ofNat bound) (coin.linked resolution)
    rw [heq]
    rcases h with ⟨hblock, htx, houtput, hid, hheight, hcoinbase, howned⟩
    exact .intro hblock htx houtput hid hheight hcoinbase howned
  | kept _ _ =>
    obtain ⟨status, heq⟩ := Coin.exists_ripened_eq params (UInt64.ofNat bound) coin
    rw [heq]
    exact h.withStatus status

end FoundAt

namespace Tracker

variable {chain : LocalChain} {tracker : Tracker} {place : Nat}

/-- At the end of a window the pending coins are those of the window without a ring. -/
theorem mem_pendingCoins_iff_pends (hlength : chain.blocks.length ≤ UInt64.size)
    (hplace : place < chain.blocks.length) (hend : tracker.params.windowEnd place = place)
    {store : CoinStore} {id : CoinId} {coin : Coin} (hcoin : store.coin? id = some coin)
    {coinPlace : Nat} (hfound : FoundAt chain tracker.accounts.toList coinPlace coin)
    (hle : coinPlace ≤ place) :
    coin ∈ tracker.pendingCoins (UInt64.ofNat place) store ↔ coin.Pends tracker.params place := by
  have hheight := hfound.toNat_height hlength
  have hsize : place < UInt64.size := by omega
  have hstored : coin ∈ store.coins.values := (OrderedMap.mem_values_iff _ _).mpr ⟨id, hcoin⟩
  have hwindow := tracker.params.windowEnd_eq_of_le hle hend
  rw [mem_pendingCoins_iff, UInt64.le_iff_toNat_le, UInt64.le_iff_toNat_le,
    UInt64.toNat_ofNat_of_lt' hsize, tracker.params.toNat_groupStart hsize, hheight]
  constructor
  · rintro ⟨-, hstatus, hringId, -, hstart, -⟩
    exact ⟨hstatus, hringId, hheight ▸ hwindow.mpr hstart⟩
  · rintro ⟨hstatus, hringId, hcoinEnd⟩
    rw [hheight] at hcoinEnd
    exact ⟨hstored, hstatus, hringId, hle, hwindow.mp hcoinEnd, hfound.contains_account⟩

variable {supply : RandSupply} (hbuilt : chain.Built) (htxids : chain.DistinctTxids)

section

include hbuilt htxids

/-- The window that ends at a height is resolved if every stored coin is an output of the blocks up
to it. -/
theorem resolveAt_isOk (hrings : chain.DistinctRings tracker.params)
    (hplace : place < chain.blocks.length) {state : TrackState Tally} {committed : List CoinRing}
    (hsound : LoggedStore.Sound ⟨state.store, committed⟩)
    (hfound : ∀ id coin, state.store.coin? id = some coin →
      ∃ coinPlace < place + 1, FoundAt chain tracker.accounts.toList coinPlace coin) :
    ∃ resolved after, outcome (tracker.resolveAt (provider supply) chain.source (UInt64.ofNat place))
      state = (.ok resolved, after) := by
  have hlength := hbuilt.length_le htxids
  have hsize : place < UInt64.size := by omega
  have hok : (outcome (tracker.resolveAt (provider supply) chain.source (UInt64.ofNat place))
      state).1.isOk = true := by
    unfold resolveAt
    split
    · -- A pending coin lies between the start of the window and this height.
      rename_i hgroup
      have hend := (tracker.params.isGroupEnd_iff hsize).mp hgroup
      refine resolveGroup_isOk supply hbuilt htxids (hend.symm ▸ hplace) hrings hsound
        fun coin hpending => ?_
      obtain ⟨hvalue, -, -, -, hstart, -⟩ := (mem_pendingCoins_iff tracker).mp hpending
      obtain ⟨coinPlace, hlt, hcoin⟩ :=
        hfound coin.id coin (CoinStore.coin?_of_mem_values hsound hvalue)
      rw [UInt64.le_iff_toNat_le, tracker.params.toNat_groupStart hsize,
        hcoin.toNat_height hlength] at hstart
      exact ⟨coinPlace, hcoin, hstart, by omega⟩
    · rfl
  rcases hrun : outcome (tracker.resolveAt (provider supply) chain.source (UInt64.ofNat place))
    state with ⟨_ | resolved, after⟩
  · rw [hrun] at hok
    cases hok
  · exact ⟨resolved, after, rfl⟩

/-- The end of a window and the ripening behind it age each coin. -/
theorem exists_aged_of_resolveAt (hplace : place < chain.blocks.length)
    {state after : TrackState Tally} {committed : List CoinRing}
    (hsound : LoggedStore.Sound ⟨state.store, committed⟩)
    (hfound : ∀ id coin, state.store.coin? id = some coin →
      ∃ coinPlace < place + 1, FoundAt chain tracker.accounts.toList coinPlace coin)
    {resolved : List (CoinId × Bool)}
    (hrun : outcome (tracker.resolveAt (provider supply) chain.source (UInt64.ofNat place)) state =
      (.ok resolved, after)) {id : CoinId} {coin : Coin}
    (hcoin : after.store.coin? id = some coin) :
    ∃ before, state.store.coin? id = some before ∧
      before.Aged tracker.params place (coin.ripened tracker.params (UInt64.ofNat place)) := by
  have hlength := hbuilt.length_le htxids
  have hsize : place < UInt64.size := by omega
  unfold resolveAt at hrun
  split at hrun
  · rename_i hgroup
    have hend := (tracker.params.isGroupEnd_iff hsize).mp hgroup
    obtain ⟨before, hbefore, hcases⟩ :=
      tracker.coin?_resolveGroup (provider supply) chain.source hrun hsound hcoin
    obtain ⟨coinPlace, hlt, hplaceOf⟩ := hfound id before hbefore
    have hpends := mem_pendingCoins_iff_pends hlength hplace hend hbefore hplaceOf
      (Nat.le_of_lt_succ hlt)
    refine ⟨before, hbefore, ?_⟩
    rcases hcases with ⟨hpending, resolution, hspendable, hserial, rfl⟩ | ⟨hnot, rfl⟩
    · exact .linked resolution (hpends.mp hpending) hspendable hserial
    · exact .kept (fun h => hnot (hpends.mpr h)) (hsound.link hbefore).isResolved_iff
  · -- Between the ends of windows no coin is pending.
    rename_i hgroup
    cases hrun
    refine ⟨coin, hcoin, .kept (fun hpends => hgroup ?_) (hsound.link hcoin).isResolved_iff⟩
    rw [tracker.params.isGroupEnd_iff hsize, ← hpends.windowEnd_eq]
    exact tracker.params.windowEnd_windowEnd _

/-- The transactions of a block behind the blocks before it are processed without a failure. Every
coin behind them is an output of the blocks up to this one. -/
theorem processTxs_finds (haccounts : ∀ entry ∈ tracker.accounts.toList, IsReadable supply entry.2)
    {block : ChainBlock} (hblock : chain.blocks[place]? = some block) {Q : Coin → Prop}
    (hseen : ∀ tx ∈ block.txs, ∀ coin, Q coin → Q (coin.seenBy tx.inputs))
    (hnew : ∀ coin : Coin, coin.IsFresh → coin.height.toNat = place → Q coin)
    {state : TrackState Tally} {committed : List CoinRing}
    (hsound : LoggedStore.Sound ⟨state.store, committed⟩)
    (hstored : ∀ id coin, state.store.coin? id = some coin →
      Q coin ∧ ∃ coinPlace < place, FoundAt chain tracker.accounts.toList coinPlace coin) :
    ∃ found after,
      outcome (tracker.processTxs (provider supply) block.hash block.height true block.txs) state =
        (.ok found, after) ∧
      LoggedStore.Sound ⟨after.store, committed⟩ ∧
      (∀ id coin, after.store.coin? id = some coin →
        Q coin ∧ ∃ coinPlace < place + 1, FoundAt chain tracker.accounts.toList coinPlace coin) ∧
      ∀ tx ∈ block.txs, ∀ index data owner, tx.outputs[index]? = some data →
        OwnedBy tracker.accounts.toList data owner →
        ∃ coin, after.store.coin? ⟨tx.txid, UInt8.ofNat index⟩ = some coin := by
  have hlength := hbuilt.length_le htxids
  have hplain := hbuilt.plainBlock hblock
  let P : Coin → Prop := fun coin =>
    Q coin ∧ ∃ coinPlace < place + 1, FoundAt chain tracker.accounts.toList coinPlace coin
  have hseenP : ∀ tx ∈ block.txs, ∀ coin, P coin → P (coin.seenBy tx.inputs) := by
    rintro tx htx coin ⟨hcoin, coinPlace, hlt, hfound⟩
    exact ⟨hseen tx htx coin hcoin, coinPlace, hlt, hfound.seenBy tx.inputs⟩
  have hstoredP : ∀ id coin, state.store.coin? id = some coin → P coin := by
    intro id coin hcoin
    obtain ⟨hQ, coinPlace, hlt, hfound⟩ := hstored id coin hcoin
    exact ⟨hQ, coinPlace, Nat.lt_succ_of_lt hlt, hfound⟩
  obtain ⟨found, after, hrun, hafter, houtputs⟩ :=
    processTxs_scans haccounts (P := P) block.hash block.height true hplain.outputs hseenP hsound hstoredP
      fun txPlace tx index data account value htx houtput howned => by
        -- A coin that is received here is found here.
        have hfound : FoundAt chain tracker.accounts.toList place
            (receivedCoin tx (true && decide (txPlace = 0)) block.hash block.height index data
              account value) :=
          .intro hblock htx houtput rfl hplain.height_eq (Bool.true_and _) howned
        exact ⟨hnew _ (receivedCoin_isFresh _ _ _ _ _ _ _ _) (hfound.toNat_height hlength), place,
          Nat.lt_succ_self place, hfound⟩
  have hhistory := tracker.processTxs_commits (provider supply) block.hash block.height true
    block.txs state committed hsound
  rw [hrun, List.append_nil] at hhistory
  exact ⟨found, after, hrun, hsound.of_history hhistory, hafter, houtputs⟩

/-- A block behind the blocks before it is processed without a failure. Let a property hold of every
stored coin, outlive the inputs of the block, and hold of every coin that is received at its height.
Then every coin that is stored behind the block has aged from one with the property. Every output of
the block that has an owner is stored. -/
theorem processBlock_ages (hrings : chain.DistinctRings tracker.params)
    (haccounts : ∀ entry ∈ tracker.accounts.toList, IsReadable supply entry.2)
    {block : ChainBlock} (hblock : chain.blocks[place]? = some block) {Q : Coin → Prop}
    (hseen : ∀ tx ∈ block.txs, ∀ coin, Q coin → Q (coin.seenBy tx.inputs))
    (hnew : ∀ coin : Coin, coin.IsFresh → coin.height.toNat = place → Q coin)
    (state : TrackState Tally) {committed : List CoinRing}
    (hsound : LoggedStore.Sound ⟨state.store, committed⟩)
    (hstored : ∀ id coin, state.store.coin? id = some coin →
      Q coin ∧ ∃ coinPlace < place, FoundAt chain tracker.accounts.toList coinPlace coin) :
    ∃ report after,
      outcome (tracker.processBlock (provider supply) chain.source block) state =
        (.ok report, after) ∧
      (∀ id coin, after.store.coin? id = some coin →
        (∃ coinPlace < place + 1, FoundAt chain tracker.accounts.toList coinPlace coin) ∧
          ∃ before, Q before ∧ before.Aged tracker.params place coin) ∧
      ∀ tx ∈ block.txs, ∀ index data owner, tx.outputs[index]? = some data →
        OwnedBy tracker.accounts.toList data owner →
        ∃ coin, after.store.coin? ⟨tx.txid, UInt8.ofNat index⟩ = some coin := by
  obtain ⟨hplace, -⟩ := List.getElem?_eq_some_iff.mp hblock
  have hheight : block.height = UInt64.ofNat place := (hbuilt.plainBlock hblock).height_eq
  obtain ⟨found, scanned, htxs, hscannedSound, hscanned, hscannedFound⟩ :=
    processTxs_finds hbuilt htxids haccounts hblock hseen hnew hsound hstored
  -- Pending transactions are followed, which touches no coin.
  let followed : TrackState Tally :=
    { scanned with store := (CoinStore.trackPending block scanned.store).2 }
  have hfollowHistory : History ⟨scanned.store, committed⟩ ⟨followed.store, committed⟩ :=
    CoinStore.trackPending_history block scanned.store
  have hfollowedSound := hscannedSound.of_history hfollowHistory
  have hview : ∀ id, followed.store.coin? id = scanned.store.coin? id :=
    CoinStore.coin?_trackPending block scanned.store
  have hfollowed : ∀ id coin, followed.store.coin? id = some coin →
      ∃ coinPlace < place + 1, FoundAt chain tracker.accounts.toList coinPlace coin := by
    intro id coin hcoin
    rw [hview] at hcoin
    exact (hscanned id coin hcoin).2
  -- The window that ends here is resolved, and the coins behind it ripen.
  obtain ⟨resolved, after, hresolve⟩ : ∃ resolved after, outcome (tracker.resolveAt
      (provider supply) chain.source (UInt64.ofNat place)) followed = (.ok resolved, after) :=
    resolveAt_isOk hbuilt htxids hrings hplace hfollowedSound hfollowed
  have hresolveHistory := tracker.resolveAt_commits (provider supply) chain.source
    (UInt64.ofNat place) followed committed hfollowedSound
  rw [hresolve] at hresolveHistory
  have hresolvedSound := hfollowedSound.of_history hresolveHistory
  have hripenHistory :=
    CoinStore.matureAt_history tracker.params (UInt64.ofNat place) hresolvedSound
  have huntil : outcome (tracker.untilMaturity (provider supply) chain.source block) state =
      (.ok (found, (CoinStore.trackPending block scanned.store).1, resolved), after) := by
    unfold untilMaturity
    rw [outcome_bind_of_ok htxs, outcome_bind_of_ok (TrackM.outcome_onStore _ _), hheight,
      outcome_bind_of_ok hresolve]
    rfl
  obtain ⟨report, hrun⟩ : ∃ report,
      outcome (tracker.processBlock (provider supply) chain.source block) state = (.ok report,
        { after with
          store := (CoinStore.matureAt tracker.params (UInt64.ofNat place) after.store).2 }) := by
    rw [processBlock_eq, outcome_bind_of_ok huntil, hheight]
    exact ⟨_, rfl⟩
  refine ⟨report, _, hrun, fun id coin hcoin => ?_, fun tx htx index data owner houtput howned => ?_⟩
  · rw [CoinStore.coin?_matureAt tracker.params (UInt64.ofNat place) hresolvedSound] at hcoin
    obtain ⟨linked, hlinked, rfl⟩ := Option.map_eq_some_iff.mp hcoin
    obtain ⟨before, hbefore, haged⟩ :=
      exists_aged_of_resolveAt hbuilt htxids hplace hfollowedSound hfollowed hresolve hlinked
    rw [hview] at hbefore
    obtain ⟨hQ, coinPlace, hlt, hfound⟩ := hscanned id before hbefore
    exact ⟨⟨coinPlace, hlt, hfound.aged haged⟩, before, hQ, haged⟩
  · -- A stored coin stays stored, whatever happens to it.
    obtain ⟨coin, hcoin⟩ := hscannedFound tx htx index data owner houtput howned
    have hforward := hscannedSound.advances_of_history
      ((hfollowHistory.trans hresolveHistory).trans hripenHistory)
    obtain ⟨later, hlater, -⟩ := hforward _ coin hcoin
    exact ⟨later, hlater⟩

end

end Tracker

end RingWallet
