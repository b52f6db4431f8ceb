import RingWallet.Tracker.Maturity
import RingWallet.Tracker.Scan
import RingWallet.Tracker.Spend

/-!
# Tracking whole blocks

A block is scanned transaction by transaction, for received coins first and, behind the coinbase,
for spends. Then the sent transactions it holds are confirmed, and last rings and maturity are
handled at its height.
-/

set_option autoImplicit false

namespace RingWallet

variable {σ : Type}

namespace Tracker

/-- Scans transactions and follows their spends; only the first transaction of a block is a
coinbase. -/
def processTxs (tracker : Tracker) (provider : Provider σ) (blockHash : BlockHash)
    (height : UInt64) : (isCoinbase : Bool) → List ChainTx → TrackM σ (List CoinId × SpendReport)
  | _, [] => return ([], .empty)
  | isCoinbase, tx :: rest => do
    let received ← tracker.scanTransaction provider tx isCoinbase blockHash height
    let spends ← if isCoinbase then pure .empty else TrackM.onStore (CoinStore.trackSpends tx)
    let (receivedAfter, spendsAfter) ←
      tracker.processTxs provider blockHash height false rest
    return (received ++ receivedAfter, spends ++ spendsAfter)

/-- Processes a block. -/
def processBlock (tracker : Tracker) (provider : Provider σ) (source : BlockSource σ)
    (block : ChainBlock) : TrackM σ BlockReport := do
  let (received, spends) ←
    tracker.processTxs provider block.hash block.height true block.txs
  let confirmedTxs ← TrackM.onStore (CoinStore.trackPending block)
  let maturity ← tracker.handleMaturity provider source block.height
  return ⟨block.height, received, spends, maturity, confirmedTxs⟩

end Tracker

end RingWallet
