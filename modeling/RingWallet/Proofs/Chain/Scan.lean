import RingWallet.Proofs.Chain.Built
import RingWallet.Proofs.HashScheme.Answers
import RingWallet.Proofs.Tracker.Keeps

/-!
# Scanning plain outputs

Over the stand-in scheme, scanning transactions of plain outputs never fails. Behind them every
output that has an owner among the watched accounts is stored, and a property of coins holds of all
stored coins if it held before, holds of every coin as it is received, and outlives the inputs of
the transactions (`processTxs_scans`).
-/

set_option autoImplicit false

namespace RingWallet

open HashScheme

namespace Tracker

variable {tracker : Tracker} {supply : RandSupply}

theorem scanOutputs_scans (haccounts : ∀ entry ∈ tracker.accounts.toList, IsReadable supply entry.2)
    {P : Coin → Prop} (tx : ChainTx) (isCoinbase : Bool) (blockHash : BlockHash) (height : UInt64)
    (index : Nat) {outputs : List Bytes} (hindex : index + outputs.length ≤ 255)
    (hplain : ∀ data ∈ outputs, IsPlain data) {state : TrackState Tally}
    {committed : List CoinRing} (hsound : LoggedStore.Sound ⟨state.store, committed⟩)
    (hstored : ∀ id coin, state.store.coin? id = some coin → P coin)
    (hnew : ∀ offset data account value, outputs[offset]? = some data →
      OwnedBy tracker.accounts.toList data (account, value) →
      P (receivedCoin tx isCoinbase blockHash height (index + offset) data account value)) :
    ∃ received after, outcome (tracker.scanOutputs (provider supply) tx isCoinbase blockHash height
        index outputs) state = (.ok received, after) ∧
      (∀ id coin, after.store.coin? id = some coin → P coin) ∧
      ∀ offset data owner, outputs[offset]? = some data →
        OwnedBy tracker.accounts.toList data owner →
        ∃ coin, after.store.coin? ⟨tx.txid, UInt8.ofNat (index + offset)⟩ = some coin := by
  induction outputs generalizing index state with
  | nil => exact ⟨[], state, rfl, hstored, fun offset data owner houtput => nomatch houtput⟩
  | cons first rest ih =>
    rw [List.length_cons] at hindex
    have hbyte : index < 256 := by omega
    obtain ⟨owner?, hanswers, howner⟩ :=
      (hplain first List.mem_cons_self).recognise_answers haccounts tx.version
    obtain ⟨outside, hanswer⟩ := hanswers state.outside
    let coinOf := receivedCoin tx isCoinbase blockHash height index first
    let recorded : TrackState Tally := ⟨(CoinStore.record coinOf owner? state.store).2, outside⟩
    have hrecorded : LoggedStore.Sound ⟨recorded.store, committed⟩ :=
      hsound.of_history (CoinStore.record_history
        (receivedCoin_isFresh tx isCoinbase blockHash height index first) owner? state.store)
    -- A coin behind the first output was stored before, or was received with its owner.
    have hfirst : ∀ id coin, recorded.store.coin? id = some coin → P coin := by
      intro id coin hcoin
      rcases CoinStore.coin?_record_cases hcoin with hold | ⟨account, value, hsome, rfl⟩
      · exact hstored id coin hold
      · exact hnew 0 first account value rfl ((howner _).mpr hsome)
    -- The other outputs start from the next index and from the store behind this one.
    obtain ⟨received, after, hrest, hafter, hfound⟩ :=
      ih (index + 1) (by omega)
        (fun data hmem => hplain data (List.mem_cons_of_mem _ hmem)) hrecorded hfirst
        fun offset data account value houtput howned => by
          have hcoin := hnew (offset + 1) data account value houtput howned
          rw [← Nat.add_assoc, Nat.add_right_comm] at hcoin
          exact hcoin
    refine ⟨if (CoinStore.record coinOf owner? state.store).1
      then ⟨tx.txid, UInt8.ofNat index⟩ :: received else received, after, ?_, hafter,
      fun offset data owner houtput howned => ?_⟩
    · rw [scanOutputs_cons tracker (provider supply) tx isCoinbase blockHash height hbyte,
        outcome_bind_of_ok (TrackM.outcome_outside_of_ok hanswer),
        outcome_bind_of_ok (TrackM.outcome_onStore _ _), outcome_bind_of_ok hrest]
      rfl
    · cases offset with
      | zero =>
        -- The coin of the first output is stored at once and kept.
        cases houtput
        have hsome : owner? = some owner := (howner owner).mp howned
        obtain ⟨coin, hcoin⟩ :=
          CoinStore.exists_coin?_record state.store coinOf owner.1 owner.2
        have hkept := tracker.scanOutputs_keeps (provider supply) tx isCoinbase blockHash height
          (index + 1) rest ⟨tx.txid, UInt8.ofNat index⟩ coin recorded committed hrecorded
          (by rw [← hcoin]; simp only [recorded, hsome]; rfl)
        rw [hrest] at hkept
        exact ⟨coin, hkept⟩
      | succ offset =>
        obtain ⟨coin, hcoin⟩ := hfound offset data owner houtput howned
        rw [Nat.add_right_comm, Nat.add_assoc] at hcoin
        exact ⟨coin, hcoin⟩

/-- What holds of the stored coins and outlives the inputs of a transaction holds behind it. The
inputs of a coinbase are passed over. -/
theorem forall_coin?_followSpends {P : Coin → Prop} (isCoinbase : Bool) {tx : ChainTx}
    (hseen : ∀ coin, P coin → P (coin.seenBy tx.inputs)) {store : CoinStore}
    {committed : List CoinRing} (hsound : LoggedStore.Sound ⟨store, committed⟩)
    (hstored : ∀ id coin, store.coin? id = some coin → P coin) :
    ∀ id coin, (CoinStore.followSpends isCoinbase tx store).2.coin? id = some coin → P coin := by
  intro id coin hcoin
  rw [CoinStore.coin?_followSpends isCoinbase tx hsound] at hcoin
  obtain ⟨before, hbefore, rfl⟩ := Option.map_eq_some_iff.mp hcoin
  have hbeforeP := hstored id before hbefore
  cases isCoinbase with
  | true => exact hbeforeP
  | false => exact hseen before hbeforeP

/-- Scanning one transaction and following its inputs. -/
theorem processTx_scans (haccounts : ∀ entry ∈ tracker.accounts.toList, IsReadable supply entry.2)
    {P : Coin → Prop} (blockHash : BlockHash) (height : UInt64) (isCoinbase : Bool) {tx : ChainTx}
    (hplain : PlainOutputs tx.outputs) (hseen : ∀ coin, P coin → P (coin.seenBy tx.inputs))
    {state : TrackState Tally} {committed : List CoinRing}
    (hsound : LoggedStore.Sound ⟨state.store, committed⟩)
    (hstored : ∀ id coin, state.store.coin? id = some coin → P coin)
    (hnew : ∀ index data account value, tx.outputs[index]? = some data →
      OwnedBy tracker.accounts.toList data (account, value) →
      P (receivedCoin tx isCoinbase blockHash height index data account value)) :
    ∃ received scanned, outcome (tracker.scanTransaction (provider supply) tx isCoinbase blockHash
        height) state = (.ok received, scanned) ∧
      let followed := (CoinStore.followSpends isCoinbase tx scanned.store).2
      LoggedStore.Sound ⟨followed, committed⟩ ∧
      (∀ id coin, followed.coin? id = some coin → P coin) ∧
      ∀ index data owner, tx.outputs[index]? = some data →
        OwnedBy tracker.accounts.toList data owner →
        ∃ coin, followed.coin? ⟨tx.txid, UInt8.ofNat index⟩ = some coin := by
  obtain ⟨received, scanned, hscan, hscannedP, hfound⟩ :=
    scanOutputs_scans haccounts tx isCoinbase blockHash height 0
      (by rw [Nat.zero_add]; exact hplain.length_le) hplain.plain hsound hstored
      fun offset data account value houtput howned => by
        rw [Nat.zero_add]
        exact hnew offset data account value houtput howned
  have hscanned : LoggedStore.Sound ⟨scanned.store, committed⟩ := by
    have hhistory := (tracker.scanOutputs_commits (provider supply) tx isCoinbase blockHash height 0
      tx.outputs).sound hsound hscan
    rw [List.append_nil] at hhistory
    exact hhistory
  refine ⟨received, scanned, hscan,
    hscanned.of_history (CoinStore.followSpends_history isCoinbase tx hscanned),
    forall_coin?_followSpends isCoinbase hseen hscanned hscannedP, ?_⟩
  intro index data owner houtput howned
  obtain ⟨coin, hcoin⟩ := hfound index data owner houtput howned
  rw [Nat.zero_add] at hcoin
  rw [CoinStore.coin?_followSpends isCoinbase tx hscanned, hcoin]
  exact ⟨_, rfl⟩

/-- Scanning the transactions of a block. The first of them is the coinbase if the flag is set. -/
theorem processTxs_scans (haccounts : ∀ entry ∈ tracker.accounts.toList, IsReadable supply entry.2)
    {P : Coin → Prop} (blockHash : BlockHash) (height : UInt64) (isCoinbase : Bool)
    {txs : List ChainTx} (hplain : ∀ tx ∈ txs, PlainOutputs tx.outputs)
    (hseen : ∀ tx ∈ txs, ∀ coin, P coin → P (coin.seenBy tx.inputs))
    {state : TrackState Tally} {committed : List CoinRing}
    (hsound : LoggedStore.Sound ⟨state.store, committed⟩)
    (hstored : ∀ id coin, state.store.coin? id = some coin → P coin)
    (hnew : ∀ txPlace tx index data account value, txs[txPlace]? = some tx →
      tx.outputs[index]? = some data → OwnedBy tracker.accounts.toList data (account, value) →
      P (receivedCoin tx (isCoinbase && decide (txPlace = 0)) blockHash height index data account
        value)) :
    ∃ found after, outcome (tracker.processTxs (provider supply) blockHash height isCoinbase txs)
        state = (.ok found, after) ∧
      (∀ id coin, after.store.coin? id = some coin → P coin) ∧
      ∀ tx ∈ txs, ∀ index data owner, tx.outputs[index]? = some data →
        OwnedBy tracker.accounts.toList data owner →
        ∃ coin, after.store.coin? ⟨tx.txid, UInt8.ofNat index⟩ = some coin := by
  induction txs generalizing isCoinbase state with
  | nil => exact ⟨_, state, rfl, hstored, fun tx hmem => nomatch hmem⟩
  | cons first rest ih =>
    obtain ⟨received, scanned, hscan, hsoundBehind, hfollowedP, hfollowedFound⟩ :=
      processTx_scans haccounts blockHash height isCoinbase (hplain first List.mem_cons_self)
        (hseen first List.mem_cons_self) hsound hstored
        fun index data account value houtput howned => by
          have hcoin := hnew 0 first index data account value rfl houtput howned
          rw [decide_eq_true rfl, Bool.and_true] at hcoin
          exact hcoin
    let followed : TrackState Tally :=
      { scanned with store := (CoinStore.followSpends isCoinbase first scanned.store).2 }
    have hfollowed : LoggedStore.Sound ⟨followed.store, committed⟩ := hsoundBehind
    -- No transaction behind the first is the coinbase.
    obtain ⟨others, after, hrest, hafter, hfound⟩ :=
      ih false
        (fun tx hmem => hplain tx (List.mem_cons_of_mem _ hmem))
        (fun tx hmem => hseen tx (List.mem_cons_of_mem _ hmem)) hfollowed hfollowedP
        fun txPlace tx index data account value htx houtput howned => by
          have hcoin := hnew (txPlace + 1) tx index data account value htx houtput howned
          simpa using hcoin
    refine ⟨(received ++ others.1,
      (CoinStore.followSpends isCoinbase first scanned.store).1 ++ others.2), after, ?_, hafter,
      fun tx hmem index data owner houtput howned => ?_⟩
    · rw [processTxs_cons, outcome_bind_of_ok hscan,
        outcome_bind_of_ok (TrackM.outcome_onStore _ _), outcome_bind_of_ok hrest]
      rfl
    · rcases List.mem_cons.mp hmem with rfl | hmem
      · -- A stored coin stays stored, whatever happens to it.
        obtain ⟨coin, hcoin⟩ := hfollowedFound index data owner houtput howned
        have hforward := (tracker.processTxs_commits (provider supply) blockHash height false
          rest).advances hfollowed
        rw [hrest] at hforward
        obtain ⟨later, hlater, -⟩ := hforward ⟨tx.txid, UInt8.ofNat index⟩ coin hcoin
        exact ⟨later, hlater⟩
      · exact hfound tx hmem index data owner houtput howned

end Tracker

end RingWallet
