/-!
# Ranges of code points

A property of characters is given by closed ranges of code points in ascending order. Ranges that
touch are joined, so every property has one list of ranges.
-/

set_option autoImplicit false

namespace RingWallet.Text

/-- Closed ranges of code points. -/
abbrev CodeRanges := List (Nat × Nat)

namespace CodeRanges

/-- Whether a code point lies in one of the ranges. -/
def contains (ranges : CodeRanges) (code : Nat) : Bool :=
  ranges.any fun range => Nat.ble range.1 code && Nat.ble code range.2

/-- Whether every range is one, and the next starts behind it with a gap between. -/
def isOrdered : CodeRanges → Bool
  | [] => true
  | [range] => Nat.ble range.1 range.2
  | range :: next :: rest =>
    Nat.ble range.1 range.2 && Nat.ble (range.2 + 2) next.1 && isOrdered (next :: rest)

/-- The number of code points in the ranges. -/
def count (ranges : CodeRanges) : Nat :=
  ranges.foldl (fun total range => total + (range.2 + 1 - range.1)) 0

theorem contains_of_mem {ranges : CodeRanges} {first last code : Nat}
    (h : (first, last) ∈ ranges) (hfirst : first ≤ code) (hlast : code ≤ last) :
    ranges.contains code = true := by
  simp only [contains, List.any_eq_true, Bool.and_eq_true, Nat.ble_eq]
  exact ⟨(first, last), h, hfirst, hlast⟩

end CodeRanges

end RingWallet.Text
