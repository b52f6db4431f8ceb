import RingWallet.Chain.Block
import RingWallet.Node.Error

/-!
# Answers as blocks

Turning the texts of an answer into blocks and transactions. Outputs are put in the order of their
indices, which must be exactly zero, one, two and so on.
-/

set_option autoImplicit false

namespace RingWallet.Node

/-- An identifier in an answer. -/
def parseId (kind : IdKind) (text : String) : Except NodeError (HashId kind) :=
  (HashId.ofHex kind text).mapError fun e => .conversion (.wallet e)

/-- A byte string in an answer. -/
def parseBytes (text : String) : Except NodeError Bytes := (Hex.decode text).mapError .hex

/-- A number of an answer that must not be negative. -/
def parseNonNegative (fault : ConversionFault) (n : Int64) : Except NodeError UInt64 :=
  if n < 0 then .error (.conversion fault) else .ok n.toUInt64

/-- An input of a transaction. -/
def InputMessage.toChain (input : InputMessage) : Except NodeError ChainInput := do
  let ring ← input.ring.outPoints.mapM fun point => do
    return CoinId.mk (← parseId .transaction point.txid) point.index
  let blockHashes ← input.ring.blockHashes.mapM (parseId .block)
  let serialNumber ← parseBytes input.serialNumber
  return ⟨serialNumber, ring, blockHashes⟩

namespace TxMessage

/-- The outputs in the order of their indices; outputs with one index keep their order. -/
def sortedOutputs (tx : TxMessage) : List OutputMessage :=
  tx.outputs.mergeSort fun a b => decide (a.index ≤ b.index)

/-- Outputs whose indices count from a given number on, or the first place where they do not. -/
def misplaced? : (place : Nat) → List OutputMessage → Option (Nat × OutputMessage)
  | _, [] => none
  | place, output :: rest =>
    if output.index.toInt = place then misplaced? (place + 1) rest else some (place, output)

/-- The transaction of an answer. -/
def toChain (tx : TxMessage) : Except NodeError ChainTx := do
  let outputs := tx.sortedOutputs
  if let some (place, output) := misplaced? 0 outputs then
    throw (.conversion (.outputIndex tx.txid place output.index))
  let txid ← parseId .transaction tx.txid
  let inputs ← tx.inputs.mapM InputMessage.toChain
  let scripts ← outputs.mapM fun output => parseBytes output.script
  return ⟨txid, tx.version, inputs, scripts⟩

end TxMessage

/-- The block of an answer, which must hold its transactions. An empty previous hash is none. -/
def BlockMessage.toChain (block : BlockMessage) : Except NodeError ChainBlock := do
  let some txs := block.txs? | throw (.conversion (.withoutTransactions block.hash))
  let height ← parseNonNegative (.negativeHeight block.height) block.height
  let previous? ←
    if block.previousHash.isEmpty then pure none
    else some <$> parseId .block block.previousHash
  let hash ← parseId .block block.hash
  let txs ← txs.mapM TxMessage.toChain
  return ⟨height, hash, previous?, txs⟩

namespace ChainInfo

/-- The network of the chain. -/
def network (info : ChainInfo) : Except NodeError Network :=
  (Network.ofCode info.networkCode).mapError fun e => .conversion (.wallet e)

/-- The height of the last block. -/
def tipHeight (info : ChainInfo) : Except NodeError UInt64 :=
  parseNonNegative (.negativeBlockCount info.blockCount) info.blockCount

end ChainInfo

end RingWallet.Node
