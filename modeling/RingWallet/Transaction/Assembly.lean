import RingWallet.Account
import RingWallet.Amount

/-!
# Building transactions

Inputs and outputs are put in wire order, private ones first and pseudonymous ones behind, each
group in its given order. A plan is checked before the provider builds anything: it has inputs and
outputs, its totals fit a word, and inputs balance outputs and fee.
-/

set_option autoImplicit false

namespace RingWallet

variable {σ : Type}

/-- Whether an entry may stand in front of another one: a pseudonymous one not in front of a private
one. -/
def mayPrecede {α : Type} (isPseudonym : α → Bool) (a b : α) : Bool :=
  !isPseudonym a || isPseudonym b

/-- Private entries first, pseudonymous ones behind. The sort is stable, so each group stays in its
given order. -/
def wireOrder {α : Type} (isPseudonym : α → Bool) (entries : List α) : List α :=
  entries.mergeSort (mayPrecede isPseudonym)

/-- The inputs with the answer whether each is pseudonymous, as the provider reads their outputs. -/
def readPseudonymity (provider : Provider σ) :
    List TxInput → WalletM σ (List (Bool × TxInput))
  | [] => return []
  | input :: rest => do
    let level ← consult (provider.outputLevel input.txVersion input.output)
    let others ← readPseudonymity provider rest
    return (level.isPseudonym, input) :: others

/-- A wallet operation on a list of inputs. Where it fails, the list is left as it is then. -/
abbrev InPlaceM (σ α : Type) := ExceptT WalletError (StateT (List TxInput) (StateM σ)) α

/-- Puts inputs that were read back into the list, in wire order. -/
def putBack (tagged : List (Bool × TxInput)) : InPlaceM σ Unit :=
  modify (· ++ (wireOrder Prod.fst tagged).map Prod.snd)

/-- Puts the inputs of the list in wire order. All of them are taken out before the first is read,
and they are put back behind the last. -/
def sortInPlace (provider : Provider σ) : InPlaceM σ Unit := do
  let inputs ← getModify fun _ => []
  let tagged ← ExceptT.mk (liftM (readPseudonymity provider inputs).run)
  putBack tagged

/-- Puts inputs in wire order. The second result is the list that the caller is left with. -/
def sortInputs (provider : Provider σ) (inputs : List TxInput) :
    StateM σ (Except WalletError Unit × List TxInput) :=
  (sortInPlace provider).run.run inputs

/-- Puts outputs in wire order. -/
def sortOutputs (outputs : List TxOutput) : List TxOutput :=
  wireOrder (fun output => output.address.level.isPseudonym) outputs

/-- The sum of amounts, added up one after the other, if every sum on the way fits a word. -/
def checkedTotal (side : TransferSide) (values : List UInt64) : Except WalletError UInt64 :=
  match values.foldlM checkedAdd 0 with
  | some sum => .ok sum
  | none => .error (.invalidParameter (.totalOverflow side))

namespace TxPlan

/-- The sum of the inputs. -/
def inputTotal (plan : TxPlan) : Except WalletError UInt64 :=
  checkedTotal .input (plan.inputs.map (·.value))

/-- The sum of the outputs. -/
def outputTotal (plan : TxPlan) : Except WalletError UInt64 :=
  checkedTotal .output (plan.outputs.map (·.value))

/-- The checks before a transaction is built. -/
def check (plan : TxPlan) : Except WalletError Unit := do
  if plan.inputs.isEmpty then throw (.invalidParameter (.emptySide .input))
  if plan.outputs.isEmpty then throw (.invalidParameter (.emptySide .output))
  let outputs ← plan.outputTotal
  let required ← checkedTotal .output [outputs, plan.fee]
  let available ← plan.inputTotal
  unless available = required do
    throw (.invalidParameter (.unbalanced available required))

end TxPlan

/-- Builds the unsigned transaction of a plan. -/
def buildUnsigned (provider : Provider σ) (plan : TxPlan) : WalletM σ UnsignedTx := do
  plan.check
  let (result, inputs) ← sortInputs provider plan.inputs
  result
  consult (provider.buildUnsigned { plan with inputs, outputs := sortOutputs plan.outputs })

/-- Signs a transaction with accounts of one kind. -/
def signTransaction (provider : Provider σ) (unsigned : UnsignedTx) (signers : List Account) :
    WalletM σ SignedTx := do
  let material ← Account.signerMaterial signers
  consult (provider.sign unsigned material)

end RingWallet
