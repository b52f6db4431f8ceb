import RingWallet.Tracker.State

/-!
# Rings and maturity

When a window of blocks is complete, its rings are built and every unresolved coin inside it is
given its ring, its place and its serial number in one commit; nothing is committed if anything
fails. Coinbase coins become spendable later, once they are deep enough.
-/

set_option autoImplicit false

namespace RingWallet

variable {σ : Type}

/-- The place of the last ring that lists a coin, with the ring. -/
def lastRingOf? (rings : List CoinRing) (coin : CoinId) : Option (Nat × CoinRing) :=
  (rings.zipIdx.reverse.find? (·.1.contains coin)).map fun entry => (entry.2, entry.1)

namespace Tracker

/-- The coins that a window's end resolves: immature, without a ring, inside the window up to the
height, and of a watched account. -/
def pendingCoins (tracker : Tracker) (height : UInt64) (store : CoinStore) : List Coin :=
  (store.unresolved height).filter fun coin =>
    decide (tracker.params.groupStart height ≤ coin.height)
      && tracker.accounts.contains coin.account

/-- What is learned about one coin, with the place of its ring. -/
def resolution (tracker : Tracker) (provider : Provider σ) (rings : List CoinRing) (coin : Coin) :
    WalletM σ (Nat × RingResolution) := do
  let some (place, ring) := lastRingOf? rings coin.id | throw (.ringNotFound coin.id)
  let some ringIndex := ring.indexOf? coin.id | throw (.ringNotFound coin.id)
  let some account := tracker.accounts.get? coin.account | throw (.unknownAccount coin.account)
  let numbers ← account.serialNumbers provider [coin.id] (.ring ring.serialize)
  match numbers.head?.filter (!·.isEmpty) with
  | none => throw (.provider (.noSerialNumber coin.id))
  | some serialNumber => return (place, {
      coin := coin.id
      ringId := ring.ringId
      ringIndex
      serialNumber
      makeSpendable := !coin.isCoinbase })

/-- What is learned about coins, one after the other. -/
def resolutions (tracker : Tracker) (provider : Provider σ) (rings : List CoinRing) :
    List Coin → WalletM σ (List (Nat × RingResolution))
  | [] => return []
  | coin :: rest => do
    let first ← tracker.resolution provider rings coin
    let others ← tracker.resolutions provider rings rest
    return first :: others

/-- What is learned about the coins of the window that holds a height. -/
def resolutionBatch (tracker : Tracker) (provider : Provider σ) (source : BlockSource σ)
    (height : UInt64) (coins : List Coin) : WalletM σ ResolutionBatch := do
  let blocks ← fetchGroup source tracker.params height
  let rings ← consult (provider.buildRings blocks)
  let learned ← tracker.resolutions provider rings coins
  let used := learned.map Prod.fst
  return {
    rings := (rings.zipIdx.filter fun entry => used.contains entry.2).map Prod.fst
    resolutions := learned.map Prod.snd }

/-- Resolves the window that holds a height: names the coins and whether each is a coinbase coin. -/
def resolveGroup (tracker : Tracker) (provider : Provider σ) (source : BlockSource σ)
    (height : UInt64) : TrackM σ (List (CoinId × Bool)) := do
  let coins ← TrackM.readStore (tracker.pendingCoins height)
  if coins.isEmpty then return []
  let batch ← TrackM.outside (tracker.resolutionBatch provider source height coins)
  TrackM.tryStore fun store => (store.commit batch).mapError .store
  return coins.map fun coin => (coin.id, coin.isCoinbase)

end Tracker

/-- Makes the coinbase coins up to a height spendable that have a ring, and names them. -/
def CoinStore.matureCoinbase (maxHeight : UInt64) (store : CoinStore) : List CoinId × CoinStore :=
  let matured := ((store.immatureCoinbase maxHeight).filter (·.isResolved)).map (·.id)
  (matured, matured.foldl (fun store id => store.withStatus id .spendable) store)

namespace Tracker

/-- Resolves the window if it ends at a height, then makes coinbase coins spendable that are deep
enough. -/
def handleMaturity (tracker : Tracker) (provider : Provider σ) (source : BlockSource σ)
    (height : UInt64) : TrackM σ MaturityReport := do
  let resolved ←
    if tracker.params.isGroupEnd height then tracker.resolveGroup provider source height
    else pure []
  let transfers := (resolved.filter fun entry => !entry.2).map Prod.fst
  let coinbase ← match tracker.params.matureHeight? height with
    | some maxHeight => TrackM.onStore (·.matureCoinbase maxHeight)
    | none => pure []
  return ⟨resolved.map Prod.fst, transfers ++ coinbase⟩

end Tracker

end RingWallet
