import RingWallet.Chain.Params
import RingWallet.Coin.RingCodec
import RingWallet.HashScheme.Block
import RingWallet.HashScheme.Keys

/-!
# Rings and serial numbers of the stand-in scheme

The outputs of a window are cut into rings of at most seven members, coinbase outputs and all others
apart, each in block order. A serial number hashes the coin, the ring's serialized form and a key of
the coin's owner, so it does not depend on how the ring was handed over.
-/

set_option autoImplicit false

namespace RingWallet.HashScheme

/-! ## Rings -/

/-- The outputs of a transaction with their names. -/
def namedOutputs (tx : TxId × List Bytes) : List (CoinId × Bytes) :=
  tx.2.zipIdx.map fun entry => (⟨tx.1, UInt8.ofNat entry.2⟩, entry.1)

/-- The coinbase outputs of blocks. -/
def coinbaseOutputs (blocks : List BlockOutputs) : List (CoinId × Bytes) :=
  blocks.flatMap fun block => (block.txs.take 1).flatMap namedOutputs

/-- The outputs of blocks that are no coinbase outputs. -/
def transferOutputs (blocks : List BlockOutputs) : List (CoinId × Bytes) :=
  blocks.flatMap fun block => (block.txs.drop 1).flatMap namedOutputs

/-- Cuts outputs into rings of blocks with a given first height and given hashes. -/
def ringsOf (firstHeight : UInt64) (hashes : List BlockHash) (isCoinbase : Bool)
    (outputs : List (CoinId × Bytes)) : Except Failure (List CoinRing) :=
  (chunksOf ChainParams.standardRingSize outputs).mapM fun members =>
    (CoinRing.ofMembers firstHeight hashes members isCoinbase).mapError .ringConstruction

/-- The rings that blocks form. -/
def buildRings (blocks : List Bytes) : Except Failure (List CoinRing) := do
  let decoded ← blocks.mapM decodeBlock
  match decoded with
  | [] => throw .noBlocks
  | first :: _ =>
    let hashes := decoded.map (·.hash)
    let coinbase ← ringsOf first.height hashes true (coinbaseOutputs decoded)
    let transfer ← ringsOf first.height hashes false (transferOutputs decoded)
    return coinbase ++ transfer

/-! ## Serial numbers -/

/-- The rings that a context stands for. -/
def ringsOfContext : RingContext → Except Failure (List CoinRing)
  | .blocks blocks => buildRings blocks
  | .ring serialized => do
    let ring ← (CoinRing.deserialize serialized).mapError .unreadableRing
    return [ring]

/-- The first ring that lists a coin, with the coin's output. -/
def findMember? (rings : List CoinRing) (coin : CoinId) : Option (CoinRing × Bytes) :=
  rings.findSome? fun ring => (ring.outputOf? coin).map (ring, ·)

/-- The key that a seed-backed account uses for an output. -/
def rootSerialKey (seed? : Option Bytes) (output : Bytes) : Except Failure Bytes := do
  let parsed ← Output.parse output
  match seed? with
  | some seed =>
    if parsed.coinAddress.length < CryptoScheme.seedLength then throw .outputWithoutPublicRand
    let bound := boundSerialNumber seed (parsed.coinAddress.take CryptoScheme.seedLength)
    return (labelled "sn-sk" [bound.toList]).toList
  | none => return (labelled "sn-pseudo" [parsed.coinAddress]).toList

/-- The serial number of one coin in a list of rings. -/
def serialNumber (rings : List CoinRing) (keyOf : Bytes → Except Failure Bytes) (coin : CoinId) :
    Except Failure Bytes := do
  let some (ring, output) := findMember? rings coin | throw (.notInRing coin)
  let key ← keyOf output
  return (labelled "sn"
    [key, (sha256 ring.serialize).toList, coin.txid.bytes, [coin.index]]).toList

/-- One serial number for each coin. -/
def serialNumbers (coins : List CoinId) (context : RingContext) (key : SerialNumberKey) :
    Except Failure (List Bytes) := do
  let rings ← ringsOfContext context
  match key with
  | .rootSeed seed? => coins.mapM (serialNumber rings (rootSerialKey seed?))
  | .secretKeys keys =>
    if keys.length ≠ coins.length then throw .keyCount
    (coins.zip keys).mapM fun entry => serialNumber rings (fun _ => pure entry.2) entry.1

end RingWallet.HashScheme
