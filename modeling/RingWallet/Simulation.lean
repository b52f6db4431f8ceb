import RingWallet.HashScheme.Faults
import RingWallet.LocalChain
import RingWallet.Tracker

/-!
# A wallet beside a chain

A simulation holds a chain in memory, a tracker with its store, and a provider that can be made to
misbehave. Blocks are pushed and processed; the block source can be changed at single heights. Every
operation that asks for blocks also tells which heights it asked for, in order.
-/

set_option autoImplicit false

namespace RingWallet

/-- The provider's tally, and the heights that were asked of the block source. -/
abbrev SimulationWorld := HashScheme.Tally × List UInt64

/-- A wallet, the chain beside it, and what is to go wrong. -/
structure Simulation where
  tracker : Tracker
  store : CoinStore
  chain : LocalChain
  /-- The heights at which the block source gives other bytes, or no block. -/
  changes : OrderedMap UInt64 (Option Bytes)
  faults : Faults
  tally : HashScheme.Tally

/-- What an operation asked for and what came of it. -/
structure Asked (ε α : Type) where
  result : Except ε α
  heights : List UInt64

/-- Whether a block gave coins their rings, made coins mature, or could not be processed. -/
def Asked.changesCoins (asked : Asked WalletError BlockReport) : Bool :=
  match asked.result with
  | .ok report => !(report.maturity.ringResolved.isEmpty && report.maturity.matured.isEmpty)
  | .error _ => true

namespace Simulation

variable {α : Type}

/-- A wallet without coins beside a chain without blocks. -/
def start (params : ChainParams) : Simulation :=
  ⟨.new params, .empty, .empty, .empty, .none, .start⟩

/-- The provider, with its faults. -/
def provider (sim : Simulation) : Provider SimulationWorld :=
  (HashScheme.faulty HashScheme.countingSupply sim.faults).beside (List UInt64)

/-- The chain as a block source, with its changes. -/
def source (sim : Simulation) : BlockSource SimulationWorld :=
  (sim.chain.source.withChanges sim.changes).recording

/-- The number of provider calls so far. -/
def calls (sim : Simulation) : Nat := sim.tally.calls

/-- Runs a tracking operation of the tracker. -/
def track (operation : Tracker → Provider SimulationWorld → BlockSource SimulationWorld →
    TrackM SimulationWorld α) : StateM Simulation (Asked WalletError α) := do
  let sim ← get
  let (result, after) :=
    (operation sim.tracker sim.provider sim.source).run.run ⟨sim.store, (sim.tally, [])⟩
  set { sim with store := after.store, tally := after.outside.1 }
  return ⟨result, after.outside.2⟩

/-- Runs an operation that touches no coins. -/
def consult (operation : Provider SimulationWorld → WalletM SimulationWorld α) :
    StateM Simulation (Except WalletError α) := do
  return (← track fun _ provider _ => TrackM.outside (operation provider)).result

/-- Pushes a block. -/
def push (coinbase : List Bytes) (txs : List NewTx) : StateM Simulation ChainBlock := do
  let sim ← get
  let block := sim.chain.nextBlock coinbase txs
  set { sim with chain := sim.chain.push coinbase txs }
  return block

/-- Processes a block. -/
def process (block : ChainBlock) : StateM Simulation (Asked WalletError BlockReport) :=
  track fun tracker provider source => tracker.processBlock provider source block

/-- Resolves the window that ends at a height. -/
def resolveGroup (height : UInt64) : StateM Simulation (Asked WalletError (List (CoinId × Bool))) :=
  track fun tracker provider source => tracker.resolveGroup provider source height

/-- Does what falls due at a height. -/
def handleMaturity (height : UInt64) : StateM Simulation (Asked WalletError MaturityReport) :=
  track fun tracker provider source => tracker.handleMaturity provider source height

/-- Looks through a transaction for coins of the watched accounts. -/
def scan (tx : ChainTx) (isCoinbase : Bool) (blockHash : BlockHash) (height : UInt64) :
    StateM Simulation (Asked WalletError (List CoinId)) :=
  track fun tracker provider _ =>
    tracker.scanTransaction provider tx isCoinbase blockHash height

/-- Pushes a number of empty blocks and processes each. -/
def mineEmpty : (count : Nat) → StateM Simulation (List (Asked WalletError BlockReport))
  | 0 => return []
  | count + 1 => do
    let block ← push [] []
    let report ← process block
    let others ← mineEmpty count
    return report :: others

/-- Pushes a number of empty blocks. -/
def pushEmpty : (count : Nat) → StateM Simulation Unit
  | 0 => return ()
  | count + 1 => do
    let _ ← push [] []
    pushEmpty count

/-- An input that spends a stored coin, with the members of its ring except those left out. -/
def spendOf? (sim : Simulation) (id : CoinId) (leftOut : List CoinId) : Option ChainInput := do
  let coin ← sim.store.coin? id
  let serialNumber ← coin.serialNumber?
  let ring ← coin.ringId?.bind sim.store.ring?
  return ⟨serialNumber, ring.coins.filter (!leftOut.contains ·), ring.blockHashes⟩

end Simulation

end RingWallet
