import RingWallet.Proofs.Outcome
import RingWallet.Proofs.Store.Histories
import RingWallet.Tracker

/-!
# The steps of tracking

Tracking operations as chains of steps that each touch the outside world or the store, but never
both. A change of the store that depends on a case (an output with or without an owner, a coinbase
or a transfer, a height before or behind the first maturity) is one function of the store, so that
an operation has one equation whatever the case.
-/

set_option autoImplicit false

namespace RingWallet

variable {σ : Type}

namespace Tracker

variable (tracker : Tracker) (provider : Provider σ)

/-! ## Scanning -/

theorem scanOutputs_cons (tx : ChainTx) (isCoinbase : Bool) (blockHash : BlockHash)
    (height : UInt64) {index : Nat} (hindex : index < 256) (output : Bytes) (rest : List Bytes) :
    tracker.scanOutputs provider tx isCoinbase blockHash height index (output :: rest) = (do
      let owner? ← TrackM.outside (recognise provider tx.version output tracker.accounts.toList)
      let isNew ← TrackM.onStore
        (CoinStore.record (receivedCoin tx isCoinbase blockHash height index output) owner?)
      let others ← tracker.scanOutputs provider tx isCoinbase blockHash height (index + 1) rest
      return if isNew then ⟨tx.txid, UInt8.ofNat index⟩ :: others else others) := by
  rw [scanOutputs, if_pos hindex]
  apply bind_congr
  intro owner?
  cases owner? <;> rfl

theorem scanOutputs_cons_of_ge (tx : ChainTx) (isCoinbase : Bool) (blockHash : BlockHash)
    (height : UInt64) {index : Nat} (hindex : ¬ index < 256) (output : Bytes)
    (rest : List Bytes) :
    tracker.scanOutputs provider tx isCoinbase blockHash height index (output :: rest) =
      throw (.invalidParameter (.tooManyOutputs tx.txid)) := by
  rw [scanOutputs, if_neg hindex]
  rfl

/-! ## Maturity -/

/-- Resolves the window if it ends at a height. -/
def resolveAt (source : BlockSource σ) (height : UInt64) : TrackM σ (List (CoinId × Bool)) :=
  if tracker.params.isGroupEnd height then tracker.resolveGroup provider source height
  else pure []

theorem handleMaturity_eq (source : BlockSource σ) (height : UInt64) :
    tracker.handleMaturity provider source height = (do
      let resolved ← tracker.resolveAt provider source height
      let coinbase ← TrackM.onStore (CoinStore.matureAt tracker.params height)
      return ⟨resolved.map Prod.fst,
        (resolved.filter fun entry => !entry.2).map Prod.fst ++ coinbase⟩) := by
  unfold handleMaturity resolveAt CoinStore.matureAt
  cases tracker.params.isGroupEnd height <;> cases tracker.params.matureHeight? height <;> rfl

/-! ## Transactions -/

theorem processTxs_cons (blockHash : BlockHash) (height : UInt64) (isCoinbase : Bool)
    (tx : ChainTx) (rest : List ChainTx) :
    tracker.processTxs provider blockHash height isCoinbase (tx :: rest) = (do
      let received ← tracker.scanTransaction provider tx isCoinbase blockHash height
      let spends ← TrackM.onStore (CoinStore.followSpends isCoinbase tx)
      let others ← tracker.processTxs provider blockHash height false rest
      return (received ++ others.1, spends ++ others.2)) := by
  rw [processTxs]
  apply bind_congr
  intro received
  cases isCoinbase <;> rfl

/-! ## Blocks -/

/-- Everything that a block does before coins mature. -/
def untilMaturity (source : BlockSource σ) (block : ChainBlock) :
    TrackM σ ((List CoinId × SpendReport) × List TxId × List (CoinId × Bool)) := do
  let found ← tracker.processTxs provider block.hash block.height true block.txs
  let confirmedTxs ← TrackM.onStore (CoinStore.trackPending block)
  let resolved ← tracker.resolveAt provider source block.height
  return (found, confirmedTxs, resolved)

theorem processBlock_eq (source : BlockSource σ) (block : ChainBlock) :
    tracker.processBlock provider source block = (do
      let done ← tracker.untilMaturity provider source block
      let coinbase ← TrackM.onStore (CoinStore.matureAt tracker.params block.height)
      return ⟨block.height, done.1.1, done.1.2, ⟨done.2.2.map Prod.fst,
        (done.2.2.filter fun entry => !entry.2).map Prod.fst ++ coinbase⟩, done.2.1⟩) := by
  unfold processBlock untilMaturity
  simp only [handleMaturity_eq, bind_assoc, pure_bind]

/-- A block is processed exactly if nothing fails before coins mature. -/
theorem isOk_processBlock (source : BlockSource σ) (block : ChainBlock) (state : TrackState σ) :
    (outcome (tracker.processBlock provider source block) state).1.isOk =
      (outcome (tracker.untilMaturity provider source block) state).1.isOk := by
  rw [processBlock_eq]
  rcases hrun : outcome (tracker.untilMaturity provider source block) state with ⟨_ | _, _⟩
  · rw [outcome_bind_of_error hrun]
    rfl
  · rw [outcome_bind_of_ok hrun]
    rfl

/-- Coins mature exactly if the block is processed. -/
theorem store_processBlock (source : BlockSource σ) (block : ChainBlock) (state : TrackState σ) :
    (outcome (tracker.processBlock provider source block) state).2.store =
      let before := (outcome (tracker.untilMaturity provider source block) state).2.store
      if (outcome (tracker.processBlock provider source block) state).1.isOk then
        (CoinStore.matureAt tracker.params block.height before).2
      else before := by
  rw [isOk_processBlock, processBlock_eq]
  rcases hrun : outcome (tracker.untilMaturity provider source block) state with ⟨_ | _, _⟩
  · rw [outcome_bind_of_error hrun]
    rfl
  · rw [outcome_bind_of_ok hrun]
    rfl

end Tracker

end RingWallet
