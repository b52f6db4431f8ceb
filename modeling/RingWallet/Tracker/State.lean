import RingWallet.Account.View
import RingWallet.Chain.Block
import RingWallet.Chain.Source
import RingWallet.Store

/-!
# Tracking: state and reports

A tracker knows the chain's parameters and the accounts it watches. Its operations run in `TrackM`,
over the coin store and the outside world; an operation that fails keeps the changes it has made
until then.
-/

set_option autoImplicit false

namespace RingWallet

/-- The parameters and the watched accounts. -/
structure Tracker where
  params : ChainParams
  accounts : OrderedMap AccountId ViewAccount

namespace Tracker

/-- A tracker that watches no account. -/
def new (params : ChainParams) : Tracker := ⟨params, .empty⟩

/-- Watches an account, in place of one with the same number. -/
def register (tracker : Tracker) (id : AccountId) (account : ViewAccount) : Tracker :=
  { tracker with accounts := tracker.accounts.insert id account }

/-- Stops watching an account. -/
def unregister (tracker : Tracker) (id : AccountId) : Tracker :=
  { tracker with accounts := tracker.accounts.erase id }

end Tracker

/-- The coin store and the outside world. -/
structure TrackState (σ : Type) where
  store : CoinStore
  outside : σ

/-- A tracking operation. -/
abbrev TrackM (σ α : Type) := ExceptT WalletError (StateM (TrackState σ)) α

namespace TrackM

variable {σ α : Type}

/-- An operation of the wallet that does not touch the store. -/
def outside (operation : WalletM σ α) : TrackM σ α := ExceptT.mk fun state =>
  let (result, outside) := operation.run.run state.outside
  (result, { state with outside })

/-- A change of the store with a result. -/
def onStore (change : CoinStore → α × CoinStore) : TrackM σ α := ExceptT.mk fun state =>
  let (result, store) := change state.store
  (.ok result, { state with store })

/-- A look at the store. -/
def readStore (look : CoinStore → α) : TrackM σ α := onStore fun store => (look store, store)

/-- A change of the store that may be refused, and then changes nothing. -/
def tryStore (change : CoinStore → Except WalletError CoinStore) : TrackM σ Unit :=
  ExceptT.mk fun state =>
    match change state.store with
    | .ok store => (.ok (), { state with store })
    | .error e => (.error e, state)

end TrackM

/-- The coins that the inputs of one transaction touched. -/
structure SpendReport where
  spent : List CoinId
  confirmed : List CoinId
  invalidated : List CoinId
  deriving DecidableEq

namespace SpendReport

/-- The report of nothing. -/
def empty : SpendReport := ⟨[], [], []⟩

/-- One report behind the other. -/
def append (a b : SpendReport) : SpendReport :=
  ⟨a.spent ++ b.spent, a.confirmed ++ b.confirmed, a.invalidated ++ b.invalidated⟩

instance : Append SpendReport := ⟨append⟩

end SpendReport

/-- The coins that changed at one height without being spent. -/
structure MaturityReport where
  ringResolved : List CoinId
  matured : List CoinId
  deriving DecidableEq

/-- Everything that one block changed. -/
structure BlockReport where
  height : UInt64
  received : List CoinId
  spends : SpendReport
  maturity : MaturityReport
  confirmedTxs : List TxId
  deriving DecidableEq

end RingWallet
