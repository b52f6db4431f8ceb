import RingWallet.Tracker.State

/-!
# Finding received coins

Every output is offered to the watched accounts in the order of their numbers; the first that
recognises it owns the coin. A coin that is already stored is left alone.
-/

set_option autoImplicit false

namespace RingWallet

variable {σ : Type}

/-- The first account that recognises an output, with the output's value. -/
def recognise (provider : Provider σ) (txVersion : UInt32) (output : Bytes) :
    List (AccountId × ViewAccount) → WalletM σ (Option (AccountId × UInt64))
  | [] => return none
  | (id, account) :: rest => do
    match ← account.receive provider txVersion output with
    | some value => return some (id, value)
    | none => recognise provider txVersion output rest

namespace Tracker

/-- Records the outputs of a transaction from a given index on, and names the new coins. -/
def scanOutputs (tracker : Tracker) (provider : Provider σ) (tx : ChainTx) (isCoinbase : Bool)
    (blockHash : BlockHash) (height : UInt64) :
    (index : Nat) → List Bytes → TrackM σ (List CoinId)
  | _, [] => return []
  | index, output :: rest => do
    unless index < 256 do throw (.invalidParameter (.tooManyOutputs tx.txid))
    let id : CoinId := ⟨tx.txid, UInt8.ofNat index⟩
    let owner? ← TrackM.outside (recognise provider tx.version output tracker.accounts.toList)
    let isNew ← match owner? with
      | none => pure false
      | some (account, value) => TrackM.onStore (·.insertCoin {
          id, account, blockHash, height, output, value, isCoinbase
          txVersion := tx.version
          status := .immature
          ringId? := none
          ringIndex? := none
          serialNumber? := none })
    let others ← tracker.scanOutputs provider tx isCoinbase blockHash height (index + 1) rest
    return if isNew then id :: others else others

/-- Records every output of a transaction that a watched account recognises, and names the new
coins. -/
def scanTransaction (tracker : Tracker) (provider : Provider σ) (tx : ChainTx)
    (isCoinbase : Bool) (blockHash : BlockHash) (height : UInt64) : TrackM σ (List CoinId) :=
  tracker.scanOutputs provider tx isCoinbase blockHash height 0 tx.outputs

end Tracker

end RingWallet
