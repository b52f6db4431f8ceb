import RingWallet.Coin.Id

/-!
# Blocks

A block as the tracker sees it: transactions with serialized outputs, and inputs that show a serial
number and the ring they spend from. The first transaction of a block is its coinbase.
-/

set_option autoImplicit false

namespace RingWallet

/-- An input of a transaction on the chain. -/
structure ChainInput where
  serialNumber : Bytes
  /-- The ring that the input says it spends from. -/
  ring : List CoinId
  blockHashes : List BlockHash
  deriving DecidableEq

/-- A transaction on the chain. -/
structure ChainTx where
  txid : TxId
  version : UInt32
  inputs : List ChainInput
  /-- The serialized outputs, by index. -/
  outputs : List Bytes
  deriving DecidableEq

/-- A block of the chain. -/
structure ChainBlock where
  height : UInt64
  hash : BlockHash
  previous? : Option BlockHash
  txs : List ChainTx
  deriving DecidableEq

end RingWallet
