/-!
# Networks

The four networks an address can belong to, their numbers and their names.
-/

set_option autoImplicit false

namespace RingWallet

/-- A network. -/
inductive Network
  | main
  | regression
  | test
  | simulation
  deriving DecidableEq, Repr

namespace Network

/-- The number that stands for a network in every format; it fits four bits. -/
def code : Network → UInt8
  | main => 0
  | regression => 1
  | test => 2
  | simulation => 3

/-- The network with a given number. -/
def ofCode? (code : UInt8) : Option Network :=
  if code = 0 then some main
  else if code = 1 then some regression
  else if code = 2 then some test
  else if code = 3 then some simulation
  else none

/-- The name shown to users. -/
def name : Network → String
  | main => "mainnet"
  | regression => "regressionnet"
  | test => "testnet"
  | simulation => "simnet"

/-- The name shown in diagnostics. -/
def label : Network → String
  | main => "MainNet"
  | regression => "RegressionNet"
  | test => "TestNet"
  | simulation => "SimNet"

/-- The network a user names; the regression network has a second, shorter name. -/
def ofName? : String → Option Network
  | "mainnet" => some main
  | "regressionnet" | "regtest" => some regression
  | "testnet" => some test
  | "simnet" => some simulation
  | _ => none

theorem ofCode?_code (network : Network) : ofCode? network.code = some network := by
  cases network <;> rfl

end Network

end RingWallet
