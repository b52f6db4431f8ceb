import RingWallet.Bytes

/-!
# Hexadecimal text

Two digits a byte, written in lower case and read in either case. Reading works on the UTF-8
bytes of the text, so a refusal names the first offending byte and its offset; a text of odd length
is refused before any digit is looked at. `decode_encode` says that every written text reads back.
-/

set_option autoImplicit false

namespace RingWallet

namespace Text

/-- The UTF-8 bytes of a text. -/
def utf8 (s : String) : Bytes := s.toList.flatMap String.utf8EncodeChar

/-- A digit below sixteen as a lower-case character. -/
def hexDigit (n : Nat) : Char :=
  if n < 10 then Char.ofNat (48 + n) else Char.ofNat (87 + n)

/-- A number in lower-case hexadecimal, padded with zeros to `width` digits. -/
def hexPadded (width n : Nat) : String :=
  let digits := String.ofList (Nat.toDigits 16 n)
  "".pushn '0' (width - digits.length) ++ digits

/-- Latin-1 characters that a quoted character shows by number: controls, the no-break space and
the soft hyphen. -/
def isUnprintableLatin1 (b : UInt8) : Bool :=
  b < 0x20 || (0x7f ≤ b && b ≤ 0xa0) || b == 0xad

/-- A byte, read as a Latin-1 character, between single quotes with its escape if it needs one. -/
def quotedByte (b : UInt8) : String :=
  let inner :=
    if b == 0 then "\\0"
    else if b == 9 then "\\t"
    else if b == 10 then "\\n"
    else if b == 13 then "\\r"
    else if b == 39 then "\\'"
    else if b == 92 then "\\\\"
    else if isUnprintableLatin1 b then "\\u\x7b" ++ hexPadded 1 b.toNat ++ "\x7d"
    else String.singleton (Char.ofNat b.toNat)
  "'" ++ inner ++ "'"

end Text

/-- Why a text is no hexadecimal byte string. -/
inductive HexError
  | oddLength
  | invalidCharacter (byte : UInt8) (position : Nat)
  deriving DecidableEq

namespace HexError

/-- The wording of a refusal. -/
def message : HexError → String
  | oddLength => "Odd number of digits"
  | invalidCharacter byte position =>
    "Invalid character " ++ Text.quotedByte byte ++ " at position " ++ toString position

end HexError

namespace Hex

/-- The two digits of a byte. -/
def digitsOf (b : UInt8) : List Char :=
  [Text.hexDigit (b.toNat / 16), Text.hexDigit (b.toNat % 16)]

/-- The digits of a byte string. -/
def encodeChars (bs : Bytes) : List Char := bs.flatMap digitsOf

/-- The text of a byte string, two lower-case digits a byte. -/
def encode (bs : Bytes) : String := String.ofList (encodeChars bs)

/-- The value of an ASCII digit of either case. -/
def digitValue? (b : UInt8) : Option UInt8 :=
  if 48 ≤ b && b ≤ 57 then some (b - 48)
  else if 97 ≤ b && b ≤ 102 then some (b - 87)
  else if 65 ≤ b && b ≤ 70 then some (b - 55)
  else none

/-- Reads digit pairs from a given offset on. -/
def decodePairs : (position : Nat) → Bytes → Except HexError Bytes
  | position, high :: low :: rest =>
    match digitValue? high with
    | none => .error (.invalidCharacter high position)
    | some h =>
      match digitValue? low with
      | none => .error (.invalidCharacter low (position + 1))
      | some l =>
        match decodePairs (position + 2) rest with
        | .error e => .error e
        | .ok bytes => .ok ((h * 16 + l) :: bytes)
  | _, [_] => .error .oddLength
  | _, [] => .ok []

/-- Reads the UTF-8 bytes of a hexadecimal text. -/
def decodeUtf8 (text : Bytes) : Except HexError Bytes :=
  if text.length % 2 = 1 then .error .oddLength else decodePairs 0 text

/-- Reads a hexadecimal text. -/
def decode (text : String) : Except HexError Bytes := decodeUtf8 (Text.utf8 text)

/-! ## What is written reads back -/

/-- The UTF-8 byte of a digit below sixteen. -/
def digitByte (n : Nat) : UInt8 := UInt8.ofNat (if n < 10 then 48 + n else 87 + n)

theorem utf8EncodeChar_hexDigit {n : Nat} (h : n < 16) :
    String.utf8EncodeChar (Text.hexDigit n) = [digitByte n] := by
  have hall : ∀ n : Fin 16, String.utf8EncodeChar (Text.hexDigit n) = [digitByte n] := by decide
  exact hall ⟨n, h⟩

theorem digitValue?_digitByte {n : Nat} (h : n < 16) :
    digitValue? (digitByte n) = some (UInt8.ofNat n) := by
  have hall : ∀ n : Fin 16, digitValue? (digitByte n) = some (UInt8.ofNat n) := by decide
  exact hall ⟨n, h⟩

theorem utf8_encode (bs : Bytes) :
    Text.utf8 (encode bs)
      = bs.flatMap fun b => [digitByte (b.toNat / 16), digitByte (b.toNat % 16)] := by
  unfold Text.utf8 encode encodeChars
  rw [String.toList_ofList, List.flatMap_assoc]
  refine congrArg (List.flatMap · bs) (funext fun b => ?_)
  have hhigh : b.toNat / 16 < 16 := by have := b.toNat_lt; omega
  have hlow : b.toNat % 16 < 16 := Nat.mod_lt _ (by decide)
  simp [digitsOf, utf8EncodeChar_hexDigit hhigh, utf8EncodeChar_hexDigit hlow]

theorem length_utf8_encode (bs : Bytes) : (Text.utf8 (encode bs)).length = 2 * bs.length := by
  rw [utf8_encode]
  induction bs with
  | nil => rfl
  | cons b bs ih => simp only [List.flatMap_cons, List.length_append, ih]; simp; omega

theorem digits_join (b : UInt8) :
    UInt8.ofNat (b.toNat / 16) * 16 + UInt8.ofNat (b.toNat % 16) = b := by
  apply UInt8.toNat.inj
  have := b.toNat_lt
  simp
  omega

theorem decodePairs_digits (position : Nat) (bs : Bytes) :
    decodePairs position
      (bs.flatMap fun b => [digitByte (b.toNat / 16), digitByte (b.toNat % 16)]) = .ok bs := by
  induction bs generalizing position with
  | nil => rfl
  | cons b bs ih =>
    have hhigh : b.toNat / 16 < 16 := by have := b.toNat_lt; omega
    have hlow : b.toNat % 16 < 16 := Nat.mod_lt _ (by decide)
    simp [decodePairs, digitValue?_digitByte hhigh, digitValue?_digitByte hlow, ih, digits_join]

theorem decode_encode (bs : Bytes) : decode (encode bs) = .ok bs := by
  have heven : ¬ (Text.utf8 (encode bs)).length % 2 = 1 := by
    rw [length_utf8_encode]
    omega
  unfold decode decodeUtf8
  rw [if_neg heven, utf8_encode]
  exact decodePairs_digits 0 bs

end Hex

end RingWallet
