import RingWallet.Text.CodeRange

/-!
# Blanks

The characters with the Unicode property White_Space, of version 17.
-/

set_option autoImplicit false

namespace RingWallet.Text

/-- The code points of blanks. -/
def blankRanges : CodeRanges := [
  (0x9, 0xd), (0x20, 0x20), (0x85, 0x85), (0xa0, 0xa0), (0x1680, 0x1680), (0x2000, 0x200a),
  (0x2028, 0x2029), (0x202f, 0x202f), (0x205f, 0x205f), (0x3000, 0x3000)]

/-- Whether a character is a blank. -/
def isBlank (c : Char) : Bool := blankRanges.contains c.toNat

theorem isOrdered_blankRanges : blankRanges.isOrdered = true := by decide

theorem count_blankRanges : blankRanges.count = 25 := by decide

/-- The blanks of the core library are among them. -/
theorem isBlank_of_isWhitespace {c : Char} (h : c.isWhitespace = true) : isBlank c = true := by
  simp only [Char.isWhitespace, Bool.or_eq_true, decide_eq_true_eq] at h
  rcases h with ((h | h) | h) | h <;> subst h <;> decide

end RingWallet.Text
