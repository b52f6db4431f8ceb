import RingWallet.Chain.Source
import RingWallet.HashScheme.Block
import RingWallet.HashScheme.Expand

/-!
# A chain in memory

Blocks are appended one by one from height zero. Identifiers of transactions and blocks are labelled
hashes of their place, so the same pushes always give the same chain. The chain is a block source,
which can be changed at single heights and watched.
-/

set_option autoImplicit false

namespace RingWallet

/-- A transaction to be put into a block. -/
structure NewTx where
  inputs : List ChainInput
  outputs : List Bytes
  deriving DecidableEq

/-- A chain of blocks, from height zero on. -/
structure LocalChain where
  blocks : List ChainBlock
  deriving DecidableEq, Inhabited

namespace LocalChain

/-- The version of every transaction of the chain. -/
def txVersion : UInt32 := 1

/-- The chain without blocks. -/
def empty : LocalChain := ⟨[]⟩

/-- The height that the next block gets. -/
def nextHeight (chain : LocalChain) : UInt64 := UInt64.ofNat chain.blocks.length

/-- The last block. -/
def tip? (chain : LocalChain) : Option ChainBlock := chain.blocks.getLast?

/-- The block at a height. -/
def block? (chain : LocalChain) (height : UInt64) : Option ChainBlock :=
  chain.blocks[height.toNat]?

/-- The identifier of the transaction at a place of a block. -/
def txidAt (height : UInt64) (place : Nat) : TxId :=
  ⟨HashScheme.labelled "txid" [Bytes.ofUInt64 height, Bytes.ofNatLE 4 place]⟩

/-- The identifier of a block on top of another. -/
def blockHash (height : UInt64) (previous? : Option BlockHash) : BlockHash :=
  ⟨HashScheme.labelled "block"
    [Bytes.ofUInt64 height, (previous?.getD (.zero .block)).bytes]⟩

/-- The block that a push appends. -/
def nextBlock (chain : LocalChain) (coinbase : List Bytes) (txs : List NewTx) : ChainBlock :=
  let height := chain.nextHeight
  let previous? := chain.tip?.map (·.hash)
  { height
    hash := blockHash height previous?
    previous?
    txs := (⟨[], coinbase⟩ :: txs).zipIdx.map fun (tx, place) =>
      ⟨txidAt height place, txVersion, tx.inputs, tx.outputs⟩ }

/-- Appends a block whose coinbase pays given outputs, followed by transactions. -/
def push (chain : LocalChain) (coinbase : List Bytes) (txs : List NewTx) : LocalChain :=
  ⟨chain.blocks ++ [chain.nextBlock coinbase txs]⟩

/-- The report of a source that has no block at a height. -/
def missingBlock (height : UInt64) : String :=
  "no block at height " ++ toString height.toNat

variable {σ : Type}

/-- The chain as a block source. -/
def source (chain : LocalChain) : BlockSource σ where
  fetch height :=
    match chain.block? height with
    | some block => return HashScheme.encodeBlock block
    | none => throw [missingBlock height]

end LocalChain

namespace BlockSource

variable {σ : Type}

/-- A source that differs at some heights: it gives other bytes there, or has no block. -/
def withChanges (source : BlockSource σ) (changes : OrderedMap UInt64 (Option Bytes)) :
    BlockSource σ where
  fetch height :=
    match changes.get? height with
    | some (some data) => return data
    | some none => throw [LocalChain.missingBlock height]
    | none => source.fetch height

/-- A source that keeps the heights it is asked for, in order. -/
def recording (source : BlockSource σ) : BlockSource (σ × List UInt64) where
  fetch height := ExceptT.mk fun (inner, asked) =>
    let (result, inner) := (source.fetch height).run.run inner
    (result, (inner, asked ++ [height]))

end BlockSource

end RingWallet
