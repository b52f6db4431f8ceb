/-!
# Slices of a text

Places in a text are counted in bytes of UTF-8. A text is cut at the place between two texts into
these two (`sliceUpTo_append`, `sliceFrom_append`).
-/

set_option autoImplicit false

namespace RingWallet.Text

/-- The length of a text in bytes of UTF-8. -/
def byteLength : List Char → Nat
  | [] => 0
  | c :: rest => c.utf8Size + byteLength rest

/-- The characters of a text from a place on. -/
def sliceFrom : List Char → (start : Nat) → List Char
  | text, 0 => text
  | [], _ => []
  | c :: rest, start => sliceFrom rest (start - c.utf8Size)

/-- The characters of a text up to a place. -/
def sliceUpTo : List Char → (stop : Nat) → List Char
  | [], _ => []
  | c :: rest, stop => if c.utf8Size ≤ stop then c :: sliceUpTo rest (stop - c.utf8Size) else []

/-- The characters of a text from one place up to another. -/
def slice (text : List Char) (start stop : Nat) : List Char :=
  sliceFrom (sliceUpTo text stop) start

theorem sliceFrom_append (front back : List Char) :
    sliceFrom (front ++ back) (byteLength front) = back := by
  induction front with
  | nil => cases back <;> rfl
  | cons c front ih =>
    have hsize := c.utf8Size_pos
    obtain ⟨n, hn⟩ : ∃ n, byteLength (c :: front) = n + 1 :=
      ⟨byteLength (c :: front) - 1, by simp only [byteLength]; omega⟩
    have hrest : n + 1 - c.utf8Size = byteLength front := by
      simp only [byteLength] at hn
      omega
    rw [hn, List.cons_append, sliceFrom, hrest, ih]
    omega

theorem sliceUpTo_append (front back : List Char) :
    sliceUpTo (front ++ back) (byteLength front) = front := by
  induction front with
  | nil =>
    cases back with
    | nil => rfl
    | cons c back =>
      have hsize := c.utf8Size_pos
      have h : ¬ c.utf8Size ≤ byteLength [] := by simp only [byteLength]; omega
      rw [List.nil_append, sliceUpTo, if_neg h]
  | cons c front ih =>
    have h : c.utf8Size ≤ byteLength (c :: front) := by simp only [byteLength]; omega
    have hrest : byteLength (c :: front) - c.utf8Size = byteLength front := by
      simp only [byteLength]
      omega
    rw [List.cons_append, sliceUpTo, if_pos h, hrest, ih]

end RingWallet.Text
