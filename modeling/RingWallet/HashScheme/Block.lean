import RingWallet.Bytes.Cursor
import RingWallet.Chain.Block
import RingWallet.HashScheme.Failure

/-!
# Blocks of the stand-in scheme

```text
height(8) hash(32) transaction count(2)
(txid(32) output count(1) (length(4) output) for each output) for each transaction
```

Only outputs are written, which is all that rings need. Bytes behind the last transaction are not
looked at.
-/

set_option autoImplicit false

namespace RingWallet.HashScheme

instance : Truncation Failure := ⟨Failure.blockTruncated⟩

/-- The bytes of one transaction. -/
def txBytes (tx : ChainTx) : Bytes :=
  tx.txid.bytes ++ [UInt8.ofNat tx.outputs.length]
    ++ tx.outputs.flatMap fun output => Bytes.ofNatLE 4 output.length ++ output

/-- The serialized form of a block. -/
def encodeBlock (block : ChainBlock) : Bytes :=
  Bytes.ofUInt64 block.height ++ block.hash.bytes ++ Bytes.ofNatLE 2 block.txs.length
    ++ block.txs.flatMap txBytes

/-- The outputs of a block, by transaction. -/
structure BlockOutputs where
  height : UInt64
  hash : BlockHash
  txs : List (TxId × List Bytes)
  deriving DecidableEq

/-- Reads an output behind its length. -/
def readOutput : ByteReader Failure Bytes := do
  let length ← ByteReader.natLE 4
  ByteReader.take length

/-- Reads one transaction. -/
def readTx : ByteReader Failure (TxId × List Bytes) := do
  let txid ← ByteReader.fixed 32
  let count ← ByteReader.byte
  let outputs ← ByteReader.replicate count.toNat readOutput
  return (⟨txid⟩, outputs)

/-- Reads a block. -/
def readBlock : ByteReader Failure BlockOutputs := do
  let height ← ByteReader.uint64
  let hash ← ByteReader.fixed 32
  let count ← ByteReader.natLE 2
  let txs ← ByteReader.replicate count readTx
  return ⟨height, ⟨hash⟩, txs⟩

/-- The outputs of a serialized block. -/
def decodeBlock (data : Bytes) : Except Failure BlockOutputs := do
  let (block, _) ← ByteReader.runFrom readBlock data
  return block

end RingWallet.HashScheme
