import RingWallet.Chain.Source
import RingWallet.Node.Base64
import RingWallet.Node.ChainView
import RingWallet.Node.Response

/-!
# Asking a node

A client numbers its requests from zero, sends each by a transport of the caller's, and reads the
answer. Credentials go along with every request once a user name is set. The client is also a block
source: the block at a height is found by asking for its hash first.
-/

set_option autoImplicit false

namespace RingWallet.Node

/-- The settings of a connection. -/
structure ClientConfig where
  /-- The path that requests are sent to. -/
  path : String
  username? : Option String
  password? : Option String
  /-- The time to wait for an answer, in seconds. -/
  timeout : UInt64
  deriving DecidableEq

namespace ClientConfig

/-- A connection without credentials; the path that is sent starts with a slash. -/
def new (path : String) : ClientConfig :=
  ⟨if path.startsWith "/" then path else "/" ++ path, none, none, 3000⟩

/-- Sets user name and password. -/
def withAuth (config : ClientConfig) (username password : String) : ClientConfig :=
  { config with username? := some username, password? := some password }

/-- The header that carries the credentials, if a user name is set. -/
def authorization? (config : ClientConfig) : Option String :=
  config.username?.map fun username =>
    "Basic " ++ Base64.encode (Text.utf8 (username ++ ":" ++ config.password?.getD ""))

end ClientConfig

/-- A request as it is sent. -/
structure Request where
  verb : String
  path : String
  contentType : String
  authorization? : Option String
  body : Json

/-- A transport sends a request and gives the body of the answer, if one comes. -/
abbrev Transport (σ : Type) := Request → StateM σ (Option Bytes)

/-- The outside world with the number of the next request. -/
structure ClientState (σ : Type) where
  nextId : Nat
  outside : σ

/-- An operation of a client. -/
abbrev ClientM (σ α : Type) := ExceptT NodeError (StateM (ClientState σ)) α

/-- A client of a node. -/
structure Client (σ : Type) where
  config : ClientConfig
  send : Transport σ

namespace Client

variable {σ α : Type}

/-- The request that calls a method. -/
def request (client : Client σ) (id : Nat) (method : String) (params : List Json) : Request where
  verb := "POST"
  path := client.config.path
  contentType := "application/json"
  authorization? := client.config.authorization?
  body := .object [
    ("jsonrpc", .string "1.0"),
    ("method", .string method),
    ("params", .array params),
    ("id", .string (toString id))]

/-- Calls a method and reads its value. -/
def call (client : Client σ) (method : String) (params : List Json) (decode : JsonDecoder α) :
    ClientM σ α := ExceptT.mk fun state =>
  let (body?, outside) := (client.send (client.request state.nextId method params)).run
    state.outside
  let result := match body? with
    | some body => parseResponse decode method body
    | none => .error .transport
  (result, ⟨state.nextId + 1, outside⟩)

/-- A summary of the chain. -/
def chainInfo (client : Client σ) : ClientM σ ChainInfo :=
  client.call "getinfo" [] ChainInfo.decode

/-- The transactions that wait for a block. -/
def rawMempool (client : Client σ) : ClientM σ (List String) :=
  client.call "getrawmempool" [.bool false] (JsonDecoder.list JsonDecoder.text)

/-- The hash of the block at a height. -/
def blockHash (client : Client σ) (height : UInt64) : ClientM σ String :=
  client.call "getblockhash" [.ofUInt64 height] JsonDecoder.text

/-- The block with a hash, at a level of detail. -/
def blockAt (client : Client σ) (detail : UInt64) (hash : String) : ClientM σ BlockMessage :=
  client.call "getblockabe" [.string hash, .ofUInt64 detail] BlockMessage.decode

/-- The block with a hash, without its transactions. -/
def block (client : Client σ) (hash : String) : ClientM σ BlockMessage := client.blockAt 1 hash

/-- The block with a hash and its transactions. -/
def blockWithTxs (client : Client σ) (hash : String) : ClientM σ BlockMessage :=
  client.blockAt 2 hash

/-- A byte string that a method gives in hexadecimal. -/
def callBytes (client : Client σ) (method : String) (params : List Json) : ClientM σ Bytes := do
  let text ← client.call method params JsonDecoder.text
  parseBytes text

/-- The serialized block with a hash. -/
def blockBytes (client : Client σ) (hash : String) : ClientM σ Bytes :=
  client.callBytes "getblockabe" [.string hash, .ofUInt64 0]

/-- The serialized transaction with an identifier. -/
def txBytes (client : Client σ) (txid : String) : ClientM σ Bytes :=
  client.callBytes "getrawtransaction" [.string txid, .bool false]

/-- The transaction with an identifier. -/
def rawTx (client : Client σ) (txid : String) : ClientM σ TxMessage :=
  client.call "getrawtransaction" [.string txid, .bool true] TxMessage.decode

/-- The block at a height, without its transactions. -/
def blockByHeight (client : Client σ) (height : UInt64) : ClientM σ BlockMessage := do
  client.block (← client.blockHash height)

/-- The serialized block at a height. -/
def blockBytesByHeight (client : Client σ) (height : UInt64) : ClientM σ Bytes := do
  client.blockBytes (← client.blockHash height)

/-- The block at a height, as the tracker sees it. -/
def chainBlock (client : Client σ) (height : UInt64) : ClientM σ ChainBlock := do
  let block ← client.blockWithTxs (← client.blockHash height)
  block.toChain

/-- Sends a transaction to the network and gives its identifier. -/
def sendRawTx (client : Client σ) (tx : Bytes) : ClientM σ String :=
  client.call "sendrawtransactionabe" [.string (Hex.encode tx)] JsonDecoder.text

/-- The node as a block source. -/
def blockSource (client : Client σ) : BlockSource (ClientState σ) where
  fetch height := (client.blockBytesByHeight height).adapt NodeError.reports

end Client

end RingWallet.Node
