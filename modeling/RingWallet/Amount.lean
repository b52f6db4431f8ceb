/-!
# Amounts

The smallest unit of money is a neutrino; ten million of them are one coin of the display currency.
Amounts in the display currency are floating-point numbers.

Amounts in neutrinos are 64-bit words. They are added with a look at the word's bound: what does not
fit is no sum.
-/

set_option autoImplicit false

namespace RingWallet

/-- The sum of two amounts, if it fits a word; one that does not wraps below its summands. -/
def checkedAdd (a b : UInt64) : Option UInt64 :=
  if a + b < a then none else some (a + b)

/-- What ends an operation without a result. Unlike an error, it is not answered to the caller: the
wallet stops. -/
inductive Halt
  | overflow
  deriving DecidableEq

end RingWallet

namespace RingWallet.Amount

/-- The number of neutrinos in one unit of the display currency. -/
def neutrinoPerUnit : Float := 10000000.0

/-- The flat fee that the node accepts, in neutrinos. -/
def standardFee : UInt64 := 1000000

/-- An amount of neutrinos in the display currency. -/
def toDisplay (neutrinos : Int64) : Float := neutrinos.toFloat / neutrinoPerUnit

/-- An amount of the display currency in neutrinos: the nearest whole number, halves away from
zero, and the nearest end of the range for amounts beyond it. What is no number counts as zero. -/
def ofDisplay (amount : Float) : Int64 := (amount * neutrinoPerUnit).round.toInt64

end RingWallet.Amount
