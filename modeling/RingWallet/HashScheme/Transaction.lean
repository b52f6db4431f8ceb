import RingWallet.HashScheme.Expand
import RingWallet.HashScheme.Failure
import RingWallet.Provider

/-!
# Transactions of the stand-in scheme

An unsigned transaction lists inputs, outputs, fee and memo; a signed one adds the number of signers
and a keyed hash for each.
-/

set_option autoImplicit false

namespace RingWallet.HashScheme

/-- The bytes of one input. -/
def inputBytes (input : TxInput) : Bytes :=
  input.coin.txid.bytes ++ [input.coin.index] ++ (sha256 input.serialNumber).toList
    ++ Bytes.ofUInt64 input.value

/-- The bytes of one output. -/
def outputBytes (output : TxOutput) : Bytes :=
  (sha256 output.address.bytes).toList ++ Bytes.ofUInt64 output.value

/-- The unsigned transaction of a plan. -/
def buildUnsigned (plan : TxPlan) : UnsignedTx where
  data := Text.utf8 "mock-unsigned"
    ++ Bytes.ofNatLE 4 plan.inputs.length ++ plan.inputs.flatMap inputBytes
    ++ Bytes.ofNatLE 4 plan.outputs.length ++ plan.outputs.flatMap outputBytes
    ++ Bytes.ofUInt64 plan.fee
    ++ Bytes.ofNatLE 4 plan.memo.length ++ plan.memo

/-- The secrets that signers sign with. -/
def signingSecrets : SignerMaterial → List Bytes
  | .rootSeeds seeds => seeds.map fun seed => seed.keys.spend.toList
  | .keys sets => sets.map (·.spend)

/-- Signs a transaction. -/
def sign (unsigned : UnsignedTx) (signers : SignerMaterial) : Except Failure SignedTx :=
  let secrets := signingSecrets signers
  if secrets.isEmpty then .error .noSigners
  else
    let data := unsigned.data ++ [UInt8.ofNat secrets.length]
      ++ secrets.flatMap fun secret => (labelled "sig" [secret, unsigned.data]).toList
    .ok ⟨data, ⟨labelled "txid" [data]⟩⟩

end RingWallet.HashScheme
