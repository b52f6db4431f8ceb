import RingWallet.Inspect.Chain
import RingWallet.Node.Client

/-!
# Views of the connection to a node

Answers of a node are shown as their records; a request is shown with the headers it carries.
-/

set_option autoImplicit false

namespace RingWallet.Inspect

instance : Inspect Node.ChainInfo := ⟨fun info => view info.toJson⟩
instance : Inspect Node.BlockMessage := ⟨fun block => view block.toJson⟩
instance : Inspect Node.TxMessage := ⟨fun tx => view tx.toJson⟩

instance : Inspect Node.Request := ⟨fun request => .object ([
  ("verb", view request.verb), ("path", view request.path),
  ("content-type", view request.contentType), ("body", view request.body)]
    ++ (request.authorization?.map fun value => ("authorization", view value)).toList)⟩

instance : Inspect Node.ClientConfig := ⟨fun config => .object [
  ("username", view config.username?), ("password", view config.password?),
  ("timeout", view config.timeout)]⟩

/-- What a summary of the chain tells: the network and the height of the tip. -/
def chainFacts (info : Node.ChainInfo) : List (String × Json) := [
  ("network", view (info.network.map Network.name)), ("tip", view info.tipHeight)]

end RingWallet.Inspect
