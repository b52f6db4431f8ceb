import RingWallet.Log.Pattern.Parser

/-!
# Values of fields in directives

The value that a directive asks of a field is a number or a pattern. A number without a plus sign is
a pattern too, and no pattern starts with a plus sign.
-/

set_option autoImplicit false

namespace RingWallet.Log

/-- What follows a sign, if there is one. -/
def behindSign : List Char → List Char
  | '+' :: rest | '-' :: rest => rest
  | text => text

/-- Whether a text is the exponent of a number, or empty. -/
def isExponent : List Char → Bool
  | [] => true
  | 'e' :: rest | 'E' :: rest =>
    let digits := behindSign rest
    !digits.isEmpty && digits.all Char.isDigit
  | _ => false

/-- Whether a text is a decimal number without a sign: digits, perhaps a fraction, perhaps an
exponent. One of whole part and fraction may be empty. -/
def isDecimal (text : List Char) : Bool :=
  let whole := text.takeWhile Char.isDigit
  match text.dropWhile Char.isDigit with
  | '.' :: rest =>
    !(whole.isEmpty && (rest.takeWhile Char.isDigit).isEmpty)
      && isExponent (rest.dropWhile Char.isDigit)
  | rest => !whole.isEmpty && isExponent rest

/-- Whether a text is a number, or the name of something that is no finite number. -/
def isNumber (text : List Char) : Bool :=
  let size := behindSign text
  isDecimal size
    || ["inf", "infinity", "nan"].any fun name => name.toList == size.map Char.toLower

/-- Whether a directive can ask for a value. -/
def isFieldValue (text : List Char) : Bool :=
  isNumber text || (Pattern.ofText? text).any Pattern.isBuildable

end RingWallet.Log
