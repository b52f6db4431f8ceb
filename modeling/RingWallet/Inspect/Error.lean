import RingWallet.Amount
import RingWallet.Error
import RingWallet.Inspect.Basic
import RingWallet.Log.Setup
import RingWallet.Node.Error

/-!
# Views of failures

A failure is shown by kind and wording, and a provider's failure with the reports below it too.
Where the wording comes from outside the wallet, the kind stands alone. A result is shown as its
value or as its failure.
-/

set_option autoImplicit false

namespace RingWallet

/-- The kind of a failure. -/
def WalletError.kind : WalletError → String
  | invalidCryptoScheme => "InvalidCryptoScheme"
  | invalidPrivacyLevel => "InvalidPrivacyLevel"
  | mismatchedSchemePrivacyLevel => "MismatchedSchemePrivacyLevel"
  | mismatchedSeedType => "MismatchedSeedType"
  | corruptedSeed => "CorruptedSeed"
  | invalidSeedLength .. => "InvalidSeedLength"
  | invalidAddress _ => "InvalidAddress"
  | invalidAccountType => "InvalidAccountType"
  | invalidParameter _ => "InvalidParameter"
  | ringNotFound _ => "RingNotFound"
  | unknownAccount _ => "UnknownAccount"
  | invalidStateTransition .. => "InvalidStateTransition"
  | provider _ => "Provider"
  | store _ => "Storage"
  | hex _ => "Hex"
  | config _ => "Config"
  | io => "Io"

/-- The kind of a store failure. -/
def StoreError.kind : StoreError → String
  | coinNotFound _ => "CoinNotFound"
  | transactionNotFound _ => "TransactionNotFound"
  | inconsistentBatch _ => "InconsistentBatch"

/-- The kind of a failure of the connection to a node. -/
def Node.NodeError.kind : NodeError → String
  | transport => "Transport"
  | json => "Json"
  | rpc _ => "Rpc"
  | hex _ => "Hex"
  | tls => "Tls"
  | io => "Io"
  | conversion _ => "Conversion"
  | emptyResult _ => "EmptyResult"

/-- The kind of what ends an operation without a result. -/
def Halt.kind : Halt → String
  | overflow => "Panic"

/-- The kind of a failure to set up a log. -/
def Log.SetupError.kind : SetupError → String
  | fileNotOpened | alreadyInstalled => "SubscriberInit"

namespace Inspect

/-- A failure by its kind alone. -/
def kindOnly (kind : String) : Json := .object [("error", .string kind)]

/-- A failure by kind, wording and what else is known. -/
def failure (kind message : String) (more : List (String × Json)) : Json :=
  .object ([("error", .string kind), ("message", .string message)] ++ more)

/-- A provider's failure under a wording. -/
def providerFailure (message : String) (error : ProviderError) : Json :=
  failure "Provider" message [("causes", view error.below)]

instance : Inspect ProviderError := ⟨fun error => providerFailure error.message error⟩

instance : Inspect StoreError := ⟨fun error => failure error.kind error.message []⟩

instance : Inspect WalletError where
  view
    | .provider error => providerFailure (WalletError.provider error).message error
    | .config .unreadable => kindOnly (WalletError.config .unreadable).kind
    | .io => kindOnly WalletError.io.kind
    | error => failure error.kind error.message []

instance : Inspect RingFault := ⟨fun fault => view (WalletError.ofRing fault)⟩

instance : Inspect Node.NodeError where
  view
    | .rpc error => failure (Node.NodeError.rpc error).kind (Node.NodeError.rpc error).message
        [("code", view error.code), ("text", view error.text)]
    | .transport => kindOnly Node.NodeError.transport.kind
    | .json => kindOnly Node.NodeError.json.kind
    | .tls => kindOnly Node.NodeError.tls.kind
    | .io => kindOnly Node.NodeError.io.kind
    | error => failure error.kind error.message []

instance : Inspect Log.SetupError := ⟨fun error => kindOnly error.kind⟩

instance : Inspect Halt := ⟨fun halt => kindOnly halt.kind⟩

instance {ε α : Type} [Inspect ε] [Inspect α] : Inspect (Except ε α) where
  view
    | .ok value => view value
    | .error error => view error

/-- What is wrong, or null. -/
def fault {ε : Type} [Inspect ε] : Except ε Unit → Json := view

end Inspect

end RingWallet
