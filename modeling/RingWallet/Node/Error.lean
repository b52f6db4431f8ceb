import RingWallet.Node.Message

/-!
# What can go wrong with a node

Failures of the connection, of reading an answer, and of turning it into the wallet's values.
-/

set_option autoImplicit false

namespace RingWallet.Node

/-- Why an answer is no value of the wallet. -/
inductive ConversionFault
  | wallet (error : WalletError)
  | negativeBlockCount (count : Int64)
  | negativeHeight (height : Int64)
  | withoutTransactions (hash : String)
  | outputIndex (txid : String) (place : Nat) (index : Int64)
  deriving DecidableEq

namespace ConversionFault

/-- The wording of a conversion fault. -/
def message : ConversionFault → String
  | wallet error => error.message
  | negativeBlockCount count => "negative block count " ++ toString count.toInt
  | negativeHeight height => "negative height " ++ toString height.toInt
  | withoutTransactions hash => "block " ++ hash ++ " was fetched without transactions"
  | outputIndex txid place index =>
    "tx " ++ txid ++ " output " ++ toString place ++ " has index " ++ toString index.toInt

end ConversionFault

/-- A failure of the connection to a node. -/
inductive NodeError
  /-- No answer came. -/
  | transport
  /-- The answer is no record of the expected form. -/
  | json
  /-- The node answered with an error object. -/
  | rpc (error : RpcError)
  | hex (error : HexError)
  /-- The certificate cannot be used. -/
  | tls
  /-- A file cannot be read. -/
  | io
  | conversion (fault : ConversionFault)
  /-- The answer to a method holds neither a result nor an error. -/
  | emptyResult (method : String)
  deriving DecidableEq

namespace NodeError

/-- The wording of a failure. -/
def message : NodeError → String
  | transport => "transport error"
  | json => "JSON error"
  | rpc error => "RPC error " ++ error.display
  | hex error => "hex error: " ++ error.message
  | tls => "TLS configuration error"
  | io => "IO error"
  | conversion fault => "conversion error: " ++ fault.message
  | emptyResult method => "empty result for " ++ method

/-- A failure as a chain of reports, outermost first; what the connection or the reader of answers
would say is left out. -/
def reports : NodeError → List String
  | transport | json | tls | io => []
  | hex error => [(hex error).message, error.message]
  | error => [error.message]

end NodeError

end RingWallet.Node
