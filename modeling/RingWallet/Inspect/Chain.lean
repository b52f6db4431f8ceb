import RingWallet.Config
import RingWallet.Inspect.Error
import RingWallet.Inspect.Keys
import RingWallet.Simulation
import RingWallet.Transaction.Assembly

/-!
# Views of coins, blocks and tracking

Coins, rings, transactions and blocks, what tracking changed, and the settings it depends on.
-/

set_option autoImplicit false

namespace RingWallet.Inspect

/-! ## Coins and rings -/

instance : Inspect CoinStatus := ⟨fun status => view status.code⟩

instance : Inspect Coin := ⟨fun coin => .object [
  ("coin", view coin.id), ("account", view coin.account), ("block", view coin.blockHash),
  ("height", view coin.height), ("tx_version", view coin.txVersion), ("txo", view coin.output),
  ("value", view coin.value), ("coinbase", view coin.isCoinbase), ("status", view coin.status),
  ("ring", view coin.ringId?), ("ring_index", view coin.ringIndex?),
  ("serial", view coin.serialNumber?), ("resolved", view coin.isResolved)]⟩

/-- What can become of a coin of a status. -/
def statusFacts (status : CoinStatus) : Json := .object [
  ("debug", view status.label), ("terminal", view status.isTerminal),
  ("to", view (CoinStatus.all.map status.canBecome)), ("json", status.toJson)]

/-- The most members whose names and outputs are shown. -/
def membersShown : Nat := 40

/-- The fields of a ring, with the places of some coins in it. -/
def ringFields (ring : CoinRing) (probe : List CoinId) : List (String × Json) :=
  let short {α : Type} [Inspect α] (values : List α) : Json :=
    if ring.size ≤ membersShown then view values else .null
  [("version", view ring.version), ("height", view ring.firstHeight),
    ("coinbase", view ring.isCoinbase), ("blocks", short ring.blockHashes),
    ("coins", short ring.coins), ("txos", short ring.outputs), ("len", view ring.size),
    ("is_empty", view ring.members.isEmpty), ("members", view ring.members.length),
    ("serialized", view ring.serialize), ("ring_id", view ring.ringId),
    ("probe", view (probe.map fun coin => (ring.indexOf? coin, ring.contains coin)))]

/-- A ring with the places of some coins in it. -/
def ring (ring : CoinRing) (probe : List CoinId) : Json := .object (ringFields ring probe)

instance : Inspect CoinRing := ⟨(ring · [])⟩

/-- A ring with the answer whether its serialized form reads back. -/
def ringWithRoundTrip (ring : CoinRing) (probe : List CoinId) : Json :=
  .object (ringFields ring probe
    ++ [("round_trip", view (gives (CoinRing.deserialize ring.serialize) ring))])

/-! ## Transactions and blocks -/

instance : Inspect TxInput := ⟨fun input => .object [
  ("height", view input.height), ("block", view input.blockHash),
  ("tx_version", view input.txVersion), ("coin", view input.coin), ("txo", view input.output),
  ("value", view input.value), ("serial", view input.serialNumber)]⟩

instance : Inspect SignedTx := ⟨fun tx => .object [
  ("data", view tx.data), ("txid", view tx.txid)]⟩

instance : Inspect PendingTx := ⟨fun tx => .object [
  ("txid", view tx.txid), ("raw", view tx.raw), ("spent", view tx.coins),
  ("status", view tx.status.code), ("height", view tx.height?)]⟩

instance : Inspect ChainInput := ⟨fun input => .object [
  ("serial", view input.serialNumber), ("ring", view input.ring),
  ("blocks", view input.blockHashes)]⟩

instance : Inspect ChainTx := ⟨fun tx => .object [
  ("txid", view tx.txid), ("version", view tx.version), ("inputs", view tx.inputs),
  ("outputs", view tx.outputs)]⟩

instance : Inspect ChainBlock := ⟨fun block => .object [
  ("height", view block.height), ("hash", view block.hash), ("prev", view block.previous?),
  ("txs", view block.txs)]⟩

/-- The totals and the wire order of a plan. -/
def planFields (plan : TxPlan) : List (String × Json) := [
  ("totals", .array [view plan.inputTotal, view plan.outputTotal]),
  ("outputs", view ((sortOutputs plan.outputs).map fun output =>
    (output.value, output.address.level)))]

/-! ## Tracking -/

/-- The fields of a report on spends. -/
def spendFields (report : SpendReport) : List (String × Json) := [
  ("spent", view report.spent), ("confirmed", view report.confirmed),
  ("invalidated", view report.invalidated)]

instance : Inspect SpendReport := ⟨fun report => .object (spendFields report)⟩

/-- The fields of a report on maturity. -/
def maturityFields (report : MaturityReport) : List (String × Json) := [
  ("ring_resolved", view report.ringResolved), ("matured", view report.matured)]

instance : Inspect MaturityReport := ⟨fun report => .object (maturityFields report)⟩

instance : Inspect BlockReport := ⟨fun report => .object (
  [("height", view report.height), ("received", view report.received)]
    ++ spendFields report.spends ++ maturityFields report.maturity
    ++ [("confirmed_txs", view report.confirmedTxs)])⟩

instance {ε α : Type} [Inspect ε] [Inspect α] : Inspect (Asked ε α) := ⟨fun asked => .object [
  ("report", view asked.result), ("requested", view asked.heights)]⟩

/-- The coins of some accounts, with account, status and place in the ring, and the numbers of
rings and waiting transactions. -/
def tracked (store : CoinStore) (accounts : List AccountId) : Json :=
  let coins := store.coins.values.filter fun coin => accounts.contains coin.account
  .object [
    ("coins", .object (coins.map fun coin =>
      (coin.id.display, .array [view coin.account, view coin.status, view coin.ringIndex?]))),
    ("rings", view store.rings.size), ("pending", view store.pendingTxs.length)]

/-- A block at the tip of a chain. -/
def pushed (block : ChainBlock) (chain : LocalChain) : Json := .object [
  ("height", view block.height), ("hash", view block.hash), ("prev", view block.previous?),
  ("txids", view (block.txs.map (·.txid))), ("next", view chain.nextHeight),
  ("tip", view (chain.tip?.map (·.height))), ("blocks", view chain.blocks.length)]

/-! ## Settings -/

instance : Inspect ChainParams := ⟨fun params => .array [
  view params.coinbaseMaturity, view params.blocksPerGroup, view params.ringSize]⟩

/-- The window around a height, and what is mature at it. -/
def window (params : ChainParams) (height : UInt64) : Json := .object [
  ("start", view (params.groupStart height)), ("window", view (params.groupHeights height)),
  ("end", view (params.isGroupEnd height)), ("mature", view (params.matureHeight? height))]

/-- Whether parameters pass their check, and the windows around some heights. -/
def windows (params : ChainParams) (heights : List UInt64) : Json := .object [
  ("valid", fault params.check), ("rows", .array (heights.map (window params)))]

instance : Inspect HeightRange := ⟨fun range => view (range.start, range.stop?)⟩

/-- The fields of a configuration, with the answer whether some heights are in its ranges. -/
def configFields (config : WalletConfig) (heights : List UInt64) : List (String × Json) := [
  ("network", view config.network.code), ("chain", view config.chain),
  ("coin_scan", view config.coinScan), ("tx_track", view config.txTrack),
  ("db_file_name", view config.databaseName), ("to_json", view config.toText),
  ("contains", view (heights.map fun height =>
    (config.coinScan.contains height, config.txTrack.contains height))),
  ("valid", fault config.check)]

end RingWallet.Inspect
