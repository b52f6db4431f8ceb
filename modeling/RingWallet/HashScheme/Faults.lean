import RingWallet.HashScheme.Provider

/-!
# A provider that misbehaves on request

`Faults` lists what a provider should get wrong: operations that fail, and answers that are changed.
`Provider.withFaults` applies such a list to any provider. An operation that fails or whose answer
is replaced outright does not reach the provider below.
-/

set_option autoImplicit false

namespace RingWallet

/-- The operations of a provider, by name. -/
inductive ProviderOp
  | derive
  | deriveFromRand
  | randomize
  | publicRandOf
  | splitAddress
  | validateAddress
  | outputLevel
  | outputCoinAddress
  | detect
  | recoverValue
  | serialNumbers
  | buildRings
  | buildUnsigned
  | sign
  deriving DecidableEq, Repr

namespace ProviderOp

/-- The short name of an operation. -/
def name : ProviderOp → String
  | derive => "derive"
  | deriveFromRand => "derive_from_rand"
  | randomize => "randomize"
  | publicRandOf => "extract_rand"
  | splitAddress => "split"
  | validateAddress => "validate"
  | outputLevel => "txo_level"
  | outputCoinAddress => "txo_coin"
  | detect => "detect"
  | recoverValue => "recover"
  | serialNumbers => "serials"
  | buildRings => "rings"
  | buildUnsigned => "unsigned"
  | sign => "sign"

/-- Every operation. -/
def all : List ProviderOp :=
  [derive, deriveFromRand, randomize, publicRandOf, splitAddress, validateAddress, outputLevel,
    outputCoinAddress, detect, recoverValue, serialNumbers, buildRings, buildUnsigned, sign]

/-- The operation with a given short name. -/
def ofName? (name : String) : Option ProviderOp := all.find? (·.name == name)

end ProviderOp

/-- What a provider should get wrong. -/
structure Faults where
  /-- The operations that fail at once. -/
  failing : List ProviderOp
  /-- Serial numbers fail once they are asked for. -/
  noSerialNumbers : Bool
  /-- How many serial numbers are left out at the end. -/
  dropSerials : Nat
  /-- How many serial numbers `ee` are added at the end. -/
  extraSerials : Nat
  /-- The serial number that is made empty. -/
  emptySerial? : Option Nat
  /-- The number of bytes that the coin address inside a crypto address is cut to. -/
  splitLength? : Option Nat
  /-- The level that a crypto address is said to declare. -/
  splitLevel? : Option PrivacyLevel
  /-- The answer to every question whether an address is well formed. -/
  validate? : Option Bool
  /-- The seed that is derived from in place of the given one. -/
  deriveAs? : Option Seed
  /-- Derived serial number keys are empty. -/
  emptyKeys : Bool
  /-- The seed whose key seeds are the answer to every randomization. -/
  randomizedAs? : Option Seed
  /-- No rings are built. -/
  dropRings : Bool
  /-- No value is recovered. -/
  noValue : Bool
  deriving DecidableEq

namespace Faults

/-- Nothing goes wrong. -/
def none : Faults :=
  ⟨[], false, 0, 0, .none, .none, .none, .none, .none, false, .none, false, false⟩

instance : Inhabited Faults := ⟨none⟩

/-- Changes a list of serial numbers: drop, add, then empty one. -/
def changeSerials (faults : Faults) (numbers : List Bytes) : List Bytes :=
  let kept := numbers.take (numbers.length - faults.dropSerials)
  let longer := kept ++ List.replicate faults.extraSerials [0xee]
  match faults.emptySerial? with
  | some place => longer.set place []
  | .none => longer

end Faults

open HashScheme (Tally RandSupply answer)

/-- Fails an operation if the faults ask for it. -/
def Faults.guard {α : Type} (faults : Faults) (op : ProviderOp) (call : ProviderM Tally α) :
    ProviderM Tally α :=
  if faults.failing.contains op then
    throw (HashScheme.Failure.scripted op.name).toProviderError
  else call

/-- The stand-in scheme with faults. -/
def HashScheme.faulty (supply : RandSupply) (faults : Faults) : Provider Tally :=
  let sound := HashScheme.provider supply
  { derive := fun seed => faults.guard .derive do
      let keys ← sound.derive (faults.deriveAs?.getD seed)
      return if faults.emptyKeys then { keys with serialNumber := [] } else keys
    deriveFromRand := fun root rand => faults.guard .deriveFromRand (sound.deriveFromRand root rand)
    randomize := fun root rand => faults.guard .randomize <|
      match faults.randomizedAs? with
      | some seed => return seed.keys
      | .none => sound.randomize root rand
    publicRandOf := fun address => faults.guard .publicRandOf (sound.publicRandOf address)
    splitAddress := fun address => faults.guard .splitAddress do
      let (level, coin) ← sound.splitAddress address
      let coin := match faults.splitLength? with
        | some length => coin.take length
        | .none => coin
      return (faults.splitLevel?.getD level, coin)
    validateAddress := fun address => faults.guard .validateAddress <|
      match faults.validate? with
      | some verdict => return verdict
      | .none => sound.validateAddress address
    outputLevel := fun version output =>
      faults.guard .outputLevel (sound.outputLevel version output)
    outputCoinAddress := fun version output =>
      faults.guard .outputCoinAddress (sound.outputCoinAddress version output)
    detect := fun version output detector =>
      faults.guard .detect (sound.detect version output detector)
    valueByRoot := fun version output valueSeed? detector => faults.guard .recoverValue do
      let value? ← sound.valueByRoot version output valueSeed? detector
      return if faults.noValue then .none else value?
    valueByKeys := fun version output address viewKey => faults.guard .recoverValue do
      let value? ← sound.valueByKeys version output address viewKey
      return if faults.noValue then .none else value?
    serialNumbers := fun coins context key => faults.guard .serialNumbers do
      if faults.noSerialNumbers then answer (.error .serialNumbersUnavailable)
      else return faults.changeSerials (← sound.serialNumbers coins context key)
    buildRings := fun blocks => faults.guard .buildRings <|
      if faults.dropRings then return [] else sound.buildRings blocks
    buildUnsigned := fun plan => faults.guard .buildUnsigned (sound.buildUnsigned plan)
    sign := fun unsigned signers => faults.guard .sign (sound.sign unsigned signers) }

end RingWallet
