import RingWallet.Coin.Id
import RingWallet.Coin.Status

/-!
# Tracked coins

An output that belongs to an account of the wallet, with the place it was found at. Its ring, its
place in the ring and its serial number are learned together, once the blocks around it are known.
-/

set_option autoImplicit false

namespace RingWallet

/-- A coin of one of the wallet's accounts. -/
structure Coin where
  id : CoinId
  account : AccountId
  blockHash : BlockHash
  height : UInt64
  txVersion : UInt32
  /-- The serialized output. -/
  output : Bytes
  value : UInt64
  isCoinbase : Bool
  status : CoinStatus
  ringId? : Option RingId
  ringIndex? : Option UInt8
  serialNumber? : Option Bytes
  deriving DecidableEq

namespace Coin

/-- Whether ring, place and a usable serial number are known. -/
def isResolved (coin : Coin) : Bool :=
  coin.ringId?.isSome && coin.ringIndex?.isSome && coin.serialNumber?.any (!·.isEmpty)

end Coin

end RingWallet
