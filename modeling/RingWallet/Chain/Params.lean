import RingWallet.Error

/-!
# Chain parameters

Blocks are grouped into windows of equal size, and rings are drawn inside one window. Coinbase
outputs must be a number of blocks deep before they can be spent. A window size of zero counts as
one.
-/

set_option autoImplicit false

namespace RingWallet

/-- The constants of the chain that tracking depends on. -/
structure ChainParams where
  coinbaseMaturity : UInt64
  blocksPerGroup : UInt8
  ringSize : UInt8
  deriving DecidableEq

namespace ChainParams

/-- The most members that rings of the main chain have. -/
abbrev standardRingSize : Nat := 7

/-- The constants of the main chain. -/
def standard : ChainParams := ⟨200, 3, 7⟩

/-- No constant may be zero. -/
def check (params : ChainParams) : Except WalletError Unit :=
  if params.coinbaseMaturity = 0 then .error (.config (.zero .coinbaseMaturity))
  else if params.blocksPerGroup = 0 then .error (.config (.zero .blocksPerGroup))
  else if params.ringSize = 0 then .error (.config (.zero .ringSize))
  else .ok ()

/-- The number of blocks in a window. -/
def groupSize (params : ChainParams) : Nat := max params.blocksPerGroup.toNat 1

/-- The first height of the window that holds a height. -/
def groupStart (params : ChainParams) (height : UInt64) : UInt64 :=
  UInt64.ofNat (height.toNat - height.toNat % params.groupSize)

/-- The heights of the window that holds a height, ascending. -/
def groupHeights (params : ChainParams) (height : UInt64) : List UInt64 :=
  (List.range params.groupSize).map fun i =>
    UInt64.ofNat ((params.groupStart height).toNat + i)

/-- Whether a height is the last of its window. -/
def isGroupEnd (params : ChainParams) (height : UInt64) : Bool :=
  height.toNat % params.groupSize == params.groupSize - 1

/-- The highest height whose coinbase outputs are deep enough at a given height. -/
def matureHeight? (params : ChainParams) (height : UInt64) : Option UInt64 :=
  if params.coinbaseMaturity ≤ height then some (height - params.coinbaseMaturity) else none

theorem groupSize_pos (params : ChainParams) : 0 < params.groupSize := by
  unfold groupSize; omega

end ChainParams

end RingWallet
