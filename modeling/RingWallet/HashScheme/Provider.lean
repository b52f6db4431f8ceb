import RingWallet.HashScheme.Rings
import RingWallet.HashScheme.Transaction

/-!
# The stand-in scheme as a provider

The provider counts the calls it gets and the public randomness it draws. Only deriving from a root
seed draws; every other answer depends on the arguments alone.
-/

set_option autoImplicit false

namespace RingWallet.HashScheme

/-- What the provider remembers. -/
structure Tally where
  /-- The number of calls so far. -/
  calls : Nat
  /-- The number of draws of public randomness so far. -/
  draws : Nat
  deriving DecidableEq, Inhabited

/-- Before any call. -/
def Tally.start : Tally := ⟨0, 0⟩

/-- An endless supply of public randomness: the value of each draw. -/
abbrev RandSupply := Nat → SeedField

/-- The supply that repeats the draw's number as eight bytes eight times. -/
def countingSupply : RandSupply := fun draw =>
  ⟨(List.replicate 8 (Bytes.ofNatLE 8 draw)).flatten, by simp [List.replicate]⟩

variable {α : Type}

/-- Counts a call and gives its answer. -/
def answer (result : Except Failure α) : ProviderM Tally α := do
  modify fun tally => { tally with calls := tally.calls + 1 }
  match result with
  | .ok value => return value
  | .error failure => throw failure.toProviderError

/-- The next public randomness. -/
def drawRand (supply : RandSupply) : ProviderM Tally SeedField := do
  let tally ← get
  set { tally with draws := tally.draws + 1 }
  return supply tally.draws

/-- The stand-in scheme. -/
def provider (supply : RandSupply) : Provider Tally where
  derive
    | .root root => do
      let publicRand ← drawRand supply
      answer (.ok (deriveFromRand root publicRand.toList))
    | .oneTime seed => answer (.ok (deriveOneTime seed))
  deriveFromRand root publicRand := answer (.ok (deriveFromRand root publicRand))
  randomize root publicRand := answer (.ok (randomize root publicRand))
  publicRandOf address := answer (publicRandOf address)
  splitAddress address := answer ((split address).map fun parts => (parts.level, parts.coin))
  validateAddress address := answer (.ok (isWellFormed address))
  outputLevel _ data := answer ((Output.parse data).map (·.level))
  outputCoinAddress _ data := answer ((Output.parse data).map (·.coinAddress))
  detect _ data detector := answer ((Output.parse data).map (detects · detector))
  valueByRoot _ data valueSeed? detector := answer (valueByRoot data valueSeed? detector)
  valueByKeys _ data address viewKey := answer (valueByKeys data address viewKey)
  serialNumbers coins context key := answer (serialNumbers coins context key)
  buildRings blocks := answer (buildRings blocks)
  buildUnsigned plan := answer (.ok (buildUnsigned plan))
  sign unsigned signers := answer (sign unsigned signers)

end RingWallet.HashScheme
