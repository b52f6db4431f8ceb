import RingWallet.Chain.Params
import RingWallet.Provider

/-!
# Where blocks come from

A block source gives the serialized block at a height, or fails with a chain of reports. Rings need
all blocks of a window; `fetchGroup` asks for them in height order and stops at the first failure.
-/

set_option autoImplicit false

namespace RingWallet

/-- A source of serialized blocks; a failure is a chain of reports, outermost first. -/
structure BlockSource (σ : Type) where
  fetch : UInt64 → ExceptT (List String) (StateM σ) Bytes

variable {σ : Type}

/-- The block at a height, with the wallet's failure. -/
def BlockSource.require (source : BlockSource σ) (height : UInt64) : WalletM σ Bytes :=
  (source.fetch height).adapt fun reports => .provider (.blockUnavailable height reports)

/-- The blocks at given heights, in order. -/
def BlockSource.fetchAll (source : BlockSource σ) : List UInt64 → WalletM σ (List Bytes)
  | [] => return []
  | height :: rest => do
    let block ← source.require height
    let others ← source.fetchAll rest
    return block :: others

/-- The blocks of the window that holds a height. -/
def fetchGroup (source : BlockSource σ) (params : ChainParams) (height : UInt64) :
    WalletM σ (List Bytes) :=
  source.fetchAll (params.groupHeights height)

end RingWallet
