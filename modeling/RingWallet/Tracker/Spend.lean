import RingWallet.Amount
import RingWallet.Tracker.State

/-!
# Following spends

An input of the chain that shows a stored serial number spends the coins it was learned for. The
spend is confirmed if the input's ring lists the coin, and the coin is invalid otherwise. Coins that
the wallet itself spends are marked all together or not at all.
-/

set_option autoImplicit false

namespace RingWallet

namespace CoinStore

/-! ## Spends on the chain -/

/-- Applies an input with a given ring to a coin that its serial number was learned for, as the coin
stood when the input was looked up. -/
def applyInput (ring : List CoinId) (coin : Coin) (store : CoinStore) : SpendReport × CoinStore :=
  let spent := if coin.status = .spendable then [coin.id] else []
  if coin.status = .spendable ∨ coin.status = .spent then
    if ring.contains coin.id then
      (⟨spent, [coin.id], []⟩, store.withStatus coin.id .confirmed)
    else (⟨spent, [], [coin.id]⟩, store.withStatus coin.id .invalid)
  else (.empty, store)

/-- Applies an input to coins one after the other. -/
def applyInputs (ring : List CoinId) : List Coin → CoinStore → SpendReport × CoinStore
  | [], store => (.empty, store)
  | coin :: rest, store =>
    let (report, store) := applyInput ring coin store
    let (others, store) := applyInputs ring rest store
    (report ++ others, store)

/-- Matches inputs against the stored serial numbers. -/
def trackInputs : List ChainInput → CoinStore → SpendReport × CoinStore
  | [], store => (.empty, store)
  | input :: rest, store =>
    let (report, store) := applyInputs input.ring (store.bySerial input.serialNumber) store
    let (others, store) := trackInputs rest store
    (report ++ others, store)

/-- Matches the inputs of a transaction against the stored serial numbers. -/
def trackSpends (tx : ChainTx) (store : CoinStore) : SpendReport × CoinStore :=
  trackInputs tx.inputs store

/-! ## Spends of the wallet -/

/-- Checks that coins are stored and can be spent, and names the first that cannot. -/
def checkSpendable (store : CoinStore) : List CoinId → Except WalletError Unit
  | [] => .ok ()
  | id :: rest =>
    match store.coin? id with
    | none => .error (.invalidParameter (.unknownCoin id))
    | some coin =>
      if coin.status.canBecome .spent then store.checkSpendable rest
      else .error (.invalidStateTransition id coin.status .spent)

/-- Marks coins as spent, all of them or none. -/
def markSpent (ids : List CoinId) (store : CoinStore) : Except WalletError CoinStore :=
  match store.checkSpendable ids with
  | .ok () => .ok (ids.foldl (fun store id => store.withStatus id .spent) store)
  | .error e => .error e

/-- Remembers a sent transaction and marks the coins it spends. -/
def recordSubmitted (tx : SignedTx) (ids : List CoinId) (store : CoinStore) :
    Except WalletError CoinStore :=
  match store.markSpent ids with
  | .ok store => .ok (store.insertPending {
      txid := tx.txid
      raw := tx.data
      coins := ids
      status := .pending
      height? := none })
  | .error e => .error e

/-- Confirms the sent transactions that a block holds, and names them. -/
def trackPending (block : ChainBlock) (store : CoinStore) : List TxId × CoinStore :=
  let included := block.txs.map (·.txid)
  let confirmed := (store.pendingTxs.map (·.txid)).filter included.contains
  (confirmed, confirmed.foldl
    (fun store txid => store.withPendingStatus txid .confirmed (some block.height)) store)

/-! ## What can be spent -/

/-- The coins of an account that can be spent. -/
def spendableCoins (store : CoinStore) (account : AccountId) : List Coin :=
  store.byAccount account (some .spendable)

/-- The sum of what an account can spend. The values are added up one after the other, and a sum
that does not fit a word stops the wallet. -/
def balance (store : CoinStore) (account : AccountId) : Except Halt UInt64 :=
  match ((store.spendableCoins account).map (·.value)).foldlM checkedAdd 0 with
  | some sum => .ok sum
  | none => .error .overflow

end CoinStore

end RingWallet
