import RingWallet.Error

/-!
# Failures of the stand-in scheme

Each failure is a cause; `Failure.toProviderError` words it for the wallet, with the report below it
where there is one.
-/

set_option autoImplicit false

namespace RingWallet.HashScheme

/-- Why the stand-in scheme refuses an input. -/
inductive Failure
  | malformedOutput
  | unknownOutputLevel
  | unknownTag
  | unknownLevel
  | missingLevel
  | truncatedCoinAddress
  | noPublicRand
  | valueSeedRequired
  | emptyViewKey
  | serialNumbersUnavailable
  | unreadableRing (fault : RingFault)
  | keyCount
  | notInRing (coin : CoinId)
  | outputWithoutPublicRand
  | noBlocks
  | ringConstruction (fault : RingFault)
  | blockTruncated (position : Nat)
  | noSigners
  /-- A failure that was asked for, of a named operation. -/
  | scripted (operation : String)
  deriving DecidableEq

namespace Failure

/-- The wording of a failure. -/
def message : Failure → String
  | malformedOutput | unknownOutputLevel => "malformed output"
  | unknownTag => "bad scheme tag"
  | unknownLevel => "bad privacy level"
  | missingLevel => "truncated"
  | truncatedCoinAddress => "truncated coin address"
  | noPublicRand => "legacy addresses carry no publicRand"
  | valueSeedRequired => "value key seed required for full privacy outputs"
  | emptyViewKey => "empty view secret key"
  | serialNumbersUnavailable => "serial number derivation unavailable"
  | unreadableRing _ => "bad serialized ring"
  | keyCount => "one serial number key per outpoint required"
  | notInRing coin => "coin " ++ coin.display ++ " is not in the ring"
  | outputWithoutPublicRand => "output has no publicRand"
  | noBlocks => "empty ring block group"
  | ringConstruction _ => "ring construction failed"
  | blockTruncated position => "block truncated at byte " ++ toString position
  | noSigners => "no signers"
  | scripted operation => "scripted failure in " ++ operation

/-- The failure below, where there is one. -/
def cause? : Failure → Option WalletError
  | unknownOutputLevel | unknownLevel => some .invalidPrivacyLevel
  | unknownTag => some .invalidCryptoScheme
  | unreadableRing fault | ringConstruction fault => some (.ofRing fault)
  | _ => none

/-- The failure as the wallet sees it. -/
def toProviderError (failure : Failure) : ProviderError :=
  .reported failure.message (failure.cause?.toList.map WalletError.message)

end Failure

end RingWallet.HashScheme
