import RingWallet.Seed

/-!
# Drawing a seed

Randomness is an endless stream of bytes, read front to back. A new seed takes one field after the
other from it, in the order in which they are written; a pair of scheme and level that does not
exist takes nothing.
-/

set_option autoImplicit false

namespace RingWallet

/-- An endless stream of random bytes. -/
abbrev ByteStream := Nat → UInt8

namespace ByteStream

/-- The field that starts at a place of the stream. -/
def fieldAt (stream : ByteStream) (place : Nat) : SeedField :=
  ⟨(List.range CryptoScheme.seedLength).map fun i => stream (place + i), by simp⟩

/-- Takes the next field; the state is the number of bytes taken so far. -/
def draw (stream : ByteStream) : StateM Nat SeedField := do
  let place ← get
  set (place + CryptoScheme.seedLength)
  return stream.fieldAt place

end ByteStream

/-- Draws the key seeds of a level. -/
def KeySeeds.draw (level : PrivacyLevel) (stream : ByteStream) : StateM Nat KeySeeds := do
  let spend ← stream.draw
  match level with
  | .ringCtPre => return legacy spend (← stream.draw)
  | .ringCt =>
    let serialNumber ← stream.draw
    let value ← stream.draw
    return fullPrivacy spend serialNumber value (← stream.draw)
  | .pseudonym => return pseudonym spend (← stream.draw)

/-- Draws a seed: a long-lived one under the current scheme, a one-time seed without public
randomness under the legacy scheme. -/
def Seed.generate (scheme : CryptoScheme) (level : PrivacyLevel) (stream : ByteStream) :
    ExceptT WalletError (StateM Nat) Seed := do
  if scheme.supports level then
    let keys ← KeySeeds.draw level stream
    match scheme with
    | .pqRingCt => (OneTimeSeed.ofKeys keys none).map oneTime
    | .pqRingCtX => (RootSeed.ofKeys keys).map root
  else throw .invalidPrivacyLevel

end RingWallet
