/-!
# Numbers in JSON text

A number is written as sign, digits, and perhaps a fraction and an exponent. Whole numbers that fit
64 bits stay exact. Every other number becomes a binary floating-point number by a fixed procedure:
as many digits as fit a 64-bit word are taken as a whole number, which is then scaled once by a
power of ten. The procedure, not the nearest value, is what counts.
-/

set_option autoImplicit false

namespace RingWallet

/-- A number of a JSON text. -/
inductive JsonNumber
  | natural (value : UInt64)
  /-- A whole number below zero. -/
  | negative (value : Int64)
  /-- Any other number, by its IEEE bits. -/
  | real (bits : UInt64)
  deriving DecidableEq

/-- A number as it is written: digits as numbers below ten. -/
structure NumberText where
  isNegative : Bool
  whole : List Nat
  /-- The digits behind the point. -/
  fraction? : Option (List Nat)
  exponent? : Option Int
  deriving DecidableEq

namespace NumberText

/-- Takes digits as long as the number they make fits a 64-bit word; gives the number and the
digits that are left. -/
def absorb (significand : Nat) : List Nat → Nat × List Nat
  | [] => (significand, [])
  | digit :: rest =>
    if significand * 10 + digit < UInt64.size then absorb (significand * 10 + digit) rest
    else (significand, digit :: rest)

/-- A power of ten up to `10 ^ 308`. -/
def powerOfTen (exponent : Nat) : Float := Float.ofScientific 1 false exponent

/-- Scales by a power of ten; nothing if the result is too large. Exponents below the table are
reached in steps of `10 ^ 308`, and `steps` of them always lead to zero. -/
def scale : (steps : Nat) → Float → Int → Option Float
  | steps, value, exponent =>
    if exponent.natAbs ≤ 308 then
      if 0 ≤ exponent then
        let scaled := value * powerOfTen exponent.natAbs
        if scaled.isInf then none else some scaled
      else some (value / powerOfTen exponent.natAbs)
    else if value == 0 then some value
    else if 0 ≤ exponent then none
    else match steps with
      | 0 => some 0
      | steps + 1 => scale steps (value / powerOfTen 308) (exponent + 308)

/-- The number as a floating-point number; nothing if it is too large. -/
def toReal? (text : NumberText) : Option UInt64 :=
  let (significand, wholeLeft) := absorb 0 text.whole
  let fraction := text.fraction?.getD []
  let (significand, fractionLeft) := absorb significand fraction
  let exponent : Int := (wholeLeft.length : Int) - (fraction.length - fractionLeft.length : Nat)
    + text.exponent?.getD 0
  (scale 3 (UInt64.ofNat significand).toFloat exponent).map fun value =>
    (if text.isNegative then -value else value).toBits

/-- The number that a text stands for; nothing if it is too large. Whole numbers that fit 64 bits
are exact, and a negative zero is a floating-point number. -/
def value? (text : NumberText) : Option JsonNumber :=
  let (significand, wholeLeft) := absorb 0 text.whole
  if text.fraction?.isNone && text.exponent?.isNone && wholeLeft.isEmpty then
    if !text.isNegative then some (.natural (UInt64.ofNat significand))
    else if 0 < significand ∧ significand ≤ 0x8000000000000000 then
      some (.negative (Int64.ofInt (-significand)))
    else text.toReal?.map .real
  else text.toReal?.map .real

end NumberText

end RingWallet
