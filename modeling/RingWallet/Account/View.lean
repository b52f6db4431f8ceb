import RingWallet.Address.Parse

/-!
# Watching for coins

A view account can tell whether an output belongs to it and compute serial numbers, and cannot
spend. It holds either the view part of a root seed (`SeedView`) or the view keys of one address
(`KeyView`).

`ViewAccount.receive` answers "mine, with this value", "not mine", or fails when the question could
not be answered.
-/

set_option autoImplicit false

namespace RingWallet

/-- What an account is made from. -/
inductive AccountKind
  | seedBacked
  | keyBacked
  deriving DecidableEq, Repr

/-- The name shown in diagnostics. -/
def AccountKind.label : AccountKind → String
  | seedBacked => "SeedBacked"
  | keyBacked => "KeyBacked"

/-- The view part of a root seed. -/
inductive SeedView
  | fullPrivacy (serialNumber value detector : SeedField)
  | pseudonym (detector : SeedField)
  deriving DecidableEq

/-- The view keys of one address; neither key is empty. -/
structure KeyView where
  address : CryptoAddress
  serialNumberKey : Bytes
  viewKey : Bytes
  detector? : Option Bytes
  serialNumberKey_ne : serialNumberKey ≠ []
  viewKey_ne : viewKey ≠ []
  deriving DecidableEq

/-- An account that watches. -/
inductive ViewAccount
  | seedBacked (view : SeedView)
  | keyBacked (view : KeyView)
  deriving DecidableEq

/-- The key material of a view account, as it is exported. -/
inductive ViewMaterial
  | rootSeeds (serialNumber? value? : Option Bytes) (detector : Bytes)
  | keys (serialNumber view : Bytes) (detector? : Option Bytes)
  deriving DecidableEq

namespace SeedView

/-- The privacy level of the view. -/
def level : SeedView → PrivacyLevel
  | fullPrivacy .. => .ringCt
  | pseudonym .. => .pseudonym

/-- The seed of the serial number key. -/
def serialNumber? : SeedView → Option SeedField
  | fullPrivacy serialNumber _ _ => some serialNumber
  | pseudonym _ => none

/-- The seed of the value key. -/
def value? : SeedView → Option SeedField
  | fullPrivacy _ value _ => some value
  | pseudonym _ => none

/-- The detector key. -/
def detector : SeedView → SeedField
  | fullPrivacy _ _ detector | pseudonym detector => detector

/-- A key of a root seed with the right size. -/
def checkedField (data : Bytes) : Except WalletError SeedField :=
  match FixedBytes.ofList? CryptoScheme.seedLength data with
  | some field => .ok field
  | none => .error .corruptedSeed

/-- A view from exported material: full privacy needs the serial number and the value seed, and a
pseudonym must have neither. -/
def ofMaterial (level : PrivacyLevel) (serialNumber? value? : Option Bytes) (detector : Bytes) :
    Except WalletError SeedView :=
  match level, serialNumber?, value? with
  | .ringCtPre, _, _ => .error .invalidPrivacyLevel
  | .ringCt, some serialNumber, some value => do
    return fullPrivacy (← checkedField serialNumber) (← checkedField value)
      (← checkedField detector)
  | .pseudonym, none, none => do return pseudonym (← checkedField detector)
  | _, _, _ => .error .mismatchedSchemePrivacyLevel

end SeedView

/-- The view part of a root seed. -/
def RootSeed.view (root : RootSeed) : SeedView :=
  match h : root.keys with
  | .legacy .. => absurd root.scheme_eq (by simp [h, KeySeeds.scheme, KeySeeds.level,
      PrivacyLevel.scheme])
  | .fullPrivacy _ serialNumber value detector => .fullPrivacy serialNumber value detector
  | .pseudonym _ detector => .pseudonym detector

namespace KeyView

/-- A view from exported keys, neither of which may be empty. -/
def ofMaterial (address : CryptoAddress) (serialNumber view : Bytes) (detector? : Option Bytes) :
    Except WalletError KeyView :=
  if h : serialNumber ≠ [] ∧ view ≠ [] then
    .ok ⟨address, serialNumber, view, detector?, h.1, h.2⟩
  else .error (.invalidParameter .emptyViewKeys)

end KeyView

/-- Serial numbers are usable if there is one for each coin and none is empty. -/
def checkSerialNumbers (coins : List CoinId) (numbers : List Bytes) :
    Except WalletError (List Bytes) :=
  if numbers.length ≠ coins.length then
    .error (.provider (.serialNumberCount coins.length numbers.length))
  else match (coins.zip numbers).find? (·.2.isEmpty) with
  | some (coin, _) => .error (.provider (.emptySerialNumber coin))
  | none => .ok numbers

namespace ViewAccount

variable {σ : Type}

/-- What the account is made from. -/
def kind : ViewAccount → AccountKind
  | seedBacked _ => .seedBacked
  | keyBacked _ => .keyBacked

/-- The privacy level of the account. -/
def level : ViewAccount → PrivacyLevel
  | seedBacked view => view.level
  | keyBacked view => view.address.level

/-- The scheme of the account. -/
def scheme (account : ViewAccount) : CryptoScheme := account.level.scheme

/-- The key material, as it is exported. -/
def material : ViewAccount → ViewMaterial
  | seedBacked view =>
    .rootSeeds (view.serialNumber?.map FixedBytes.toList) (view.value?.map FixedBytes.toList)
      view.detector.toList
  | keyBacked view => .keys view.serialNumberKey view.viewKey view.detector?

/-- The value of an output that belongs to the account, or nothing. -/
def receive (provider : Provider σ) (account : ViewAccount) (txVersion : UInt32)
    (output : Bytes) : WalletM σ (Option UInt64) := do
  let level ← consult (provider.outputLevel txVersion output)
  if level ≠ account.level then return none
  match account with
  | seedBacked view =>
    if ← consult (provider.detect txVersion output view.detector.toList) then
      consult (provider.valueByRoot txVersion output (view.value?.map FixedBytes.toList)
        view.detector.toList)
    else return none
  | keyBacked view =>
    let coinBytes ← consult (provider.outputCoinAddress txVersion output)
    if coinBytes = view.address.coin.bytes then
      consult (provider.valueByKeys txVersion output view.address.bytes view.viewKey)
    else return none

/-- The key that the account's serial numbers are computed with, for a number of coins. -/
def serialNumberKey (account : ViewAccount) (count : Nat) : SerialNumberKey :=
  match account with
  | seedBacked view => .rootSeed (view.serialNumber?.map FixedBytes.toList)
  | keyBacked view => .secretKeys (List.replicate count view.serialNumberKey)

/-- One serial number for each coin, in order; no coins need no provider. -/
def serialNumbers (provider : Provider σ) (account : ViewAccount) (coins : List CoinId)
    (ring : RingContext) : WalletM σ (List Bytes) := do
  if coins.isEmpty then return []
  let numbers ← consult
    (provider.serialNumbers coins ring (account.serialNumberKey coins.length))
  checkSerialNumbers coins numbers

end ViewAccount

end RingWallet
