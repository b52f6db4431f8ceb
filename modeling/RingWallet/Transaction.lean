import RingWallet.Address.Application
import RingWallet.Coin

/-!
# Transactions to be built

What a wallet hands to the scheme provider to have a transaction built and signed: inputs, outputs,
fee and memo, with the blocks that the inputs' rings are drawn from.
-/

set_option autoImplicit false

namespace RingWallet

/-- An input to spend. -/
structure TxInput where
  height : UInt64
  blockHash : BlockHash
  txVersion : UInt32
  coin : CoinId
  /-- The serialized output that is spent. -/
  output : Bytes
  value : UInt64
  serialNumber : Bytes
  deriving DecidableEq

/-- An output to make. -/
structure TxOutput where
  address : AppAddress
  value : UInt64
  deriving DecidableEq

/-- Everything that an unsigned transaction is built from. -/
structure TxPlan where
  inputs : List TxInput
  outputs : List TxOutput
  fee : UInt64
  memo : Bytes
  /-- The serialized blocks of the inputs' ring windows. -/
  ringBlocks : OrderedMap UInt64 Bytes

/-- A built transaction without signatures. -/
structure UnsignedTx where
  data : Bytes
  deriving DecidableEq

/-- A signed transaction and its identifier. -/
structure SignedTx where
  data : Bytes
  txid : TxId
  deriving DecidableEq

/-- A coin described as an input; its serial number must be known. -/
def TxInput.ofCoin (coin : Coin) : Except WalletError TxInput :=
  match coin.serialNumber? with
  | some (byte :: rest) => .ok {
      height := coin.height
      blockHash := coin.blockHash
      txVersion := coin.txVersion
      coin := coin.id
      output := coin.output
      value := coin.value
      serialNumber := byte :: rest }
  | some [] | none => .error (.invalidParameter (.noSerialNumber coin.id))

end RingWallet
