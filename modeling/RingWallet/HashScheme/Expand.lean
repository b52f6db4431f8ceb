import RingWallet.Digest.Sha256
import RingWallet.Hex

/-!
# Labelled hashing

The stand-in scheme replaces every primitive by SHA-256. Each use of the hash carries a label of its
own in front of the hashed parts, and long outputs are made by counting (`expand`).
-/

set_option autoImplicit false

namespace RingWallet.HashScheme

/-- SHA-256 of a label and parts. -/
def labelled (label : String) (parts : List Bytes) : Digest :=
  sha256 (Text.utf8 label ++ parts.flatten)

/-- The block of a long output with a given number. -/
def expandBlock (label : String) (parts : List Bytes) (counter : Nat) : Digest :=
  sha256 (Text.utf8 label ++ Bytes.ofNatLE 4 counter ++ parts.flatten)

/-- The first `count` blocks of a long output. -/
def expandBlocks (label : String) (parts : List Bytes) (count : Nat) : Bytes :=
  (List.range count).flatMap fun counter => (expandBlock label parts counter).toList

theorem length_expandBlocks (label : String) (parts : List Bytes) (count : Nat) :
    (expandBlocks label parts count).length = 32 * count := by
  induction count with
  | zero => rfl
  | succ count ih =>
    have hstep : expandBlocks label parts (count + 1)
        = expandBlocks label parts count ++ (expandBlock label parts count).toList := by
      simp [expandBlocks, List.range_succ]
    rw [hstep, List.length_append, ih, FixedBytes.length_toList]
    omega

/-- An output of any length, made by counting. -/
def expand (label : String) (parts : List Bytes) (length : Nat) : FixedBytes length :=
  ⟨(expandBlocks label parts ((length + 31) / 32)).take length, by
    rw [List.length_take, length_expandBlocks]
    omega⟩

end RingWallet.HashScheme
