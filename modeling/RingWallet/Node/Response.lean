import RingWallet.Node.Error

/-!
# Reading an answer

An answer holds a result or an error object. An error object counts before any result. A missing
result, or null, is accepted only where the expected value can be null.
-/

set_option autoImplicit false

namespace RingWallet.Node

/-- The record of an answer. -/
structure Response where
  result? : Option Json
  error? : Option RpcError

namespace Response

/-- How many lists and objects may stand inside each other in a result. -/
def maxDepth : Nat := 126

/-- Reads the record of an answer. A result is kept as a value, so all of it must be readable. -/
def decode : JsonDecoder Response := fun tree => do
  let record ← JsonRecord.ofTree? ["result", "error"] tree
  return {
    result? := ← record.withDefault "result" none
      (JsonDecoder.nullable (JsonTree.settle maxDepth))
    error? := ← record.withDefault "error" none (JsonDecoder.nullable RpcError.decode) }

/-- The value of an answer to a method. -/
def value {α : Type} (decode : JsonDecoder α) (method : String) (response : Response) :
    Except NodeError α :=
  match response.error?, response.result? with
  | some error, _ => .error (.rpc error)
  | none, some result =>
    match decode result.toTree with
    | some value => .ok value
    | none => .error .json
  | none, none =>
    match decode .null with
    | some value => .ok value
    | none => .error (.emptyResult method)

end Response

/-- The value in the body of an answer to a method. -/
def parseResponse {α : Type} (decode : JsonDecoder α) (method : String) (body : Bytes) :
    Except NodeError α :=
  match JsonTree.read (Text.symbols body) >>= Response.decode with
  | some response => response.value decode method
  | none => .error .json

end RingWallet.Node
