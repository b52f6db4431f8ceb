import RingWallet.Bytes

/-!
# Reading a byte string front to back

A `Cursor` is a place in a byte string: the number of bytes already read and the bytes that are
left. A `ByteReader` moves the cursor forward or fails; running out of bytes is reported with the
place where the missing piece would have started, so each format names its own failure for that
(`Truncation`).

`fixed_append` and `fixed_eq_ok` say that a piece is read exactly when it stands in front.
-/

set_option autoImplicit false

namespace RingWallet

/-- A place in a byte string. -/
structure Cursor where
  position : Nat
  rest : Bytes
  deriving DecidableEq

/-- Failures that can say where a byte string ended too early. -/
class Truncation (ε : Type) where
  truncatedAt : Nat → ε

/-- A reader that moves a cursor forward or fails. -/
abbrev ByteReader (ε α : Type) := StateT Cursor (Except ε) α

namespace ByteReader

variable {ε α : Type}

/-- The reader's result from the start of a byte string. -/
def runFrom (reader : ByteReader ε α) (data : Bytes) : Except ε (α × Cursor) :=
  StateT.run reader ⟨0, data⟩

/-- The next `n` bytes, with the proof that they are `n`. -/
def fixed [Truncation ε] (n : Nat) : ByteReader ε (FixedBytes n) := fun cursor =>
  if h : n ≤ cursor.rest.length then
    .ok (⟨cursor.rest.take n, by simp [h]⟩, ⟨cursor.position + n, cursor.rest.drop n⟩)
  else .error (Truncation.truncatedAt cursor.position)

/-- The next `n` bytes. -/
def take [Truncation ε] (n : Nat) : ByteReader ε Bytes := do
  let piece ← fixed n
  return piece.toList

/-- The next byte. -/
def byte [Truncation ε] : ByteReader ε UInt8 := fun cursor =>
  match cursor.rest with
  | b :: rest => .ok (b, ⟨cursor.position + 1, rest⟩)
  | [] => .error (Truncation.truncatedAt cursor.position)

/-- A little-endian number of `width` bytes. -/
def natLE [Truncation ε] (width : Nat) : ByteReader ε Nat := do
  return Bytes.toNatLE (← take width)

/-- A 32-bit word. -/
def uint32 [Truncation ε] : ByteReader ε UInt32 := do return UInt32.ofNat (← natLE 4)

/-- A 64-bit word. -/
def uint64 [Truncation ε] : ByteReader ε UInt64 := do return UInt64.ofNat (← natLE 8)

/-- The results of `count` readings one after the other. -/
def replicate (count : Nat) (reader : ByteReader ε α) : ByteReader ε (List α) :=
  match count with
  | 0 => return []
  | count + 1 => do
    let first ← reader
    let others ← replicate count reader
    return first :: others

/-! ## A piece is read exactly when it stands in front -/

theorem fixed_append [Truncation ε] {n : Nat} (piece : FixedBytes n) (position : Nat)
    (rest : Bytes) :
    (fixed n : ByteReader ε (FixedBytes n)) ⟨position, piece.toList ++ rest⟩
      = .ok (piece, ⟨position + n, rest⟩) := by
  obtain ⟨bytes, rfl⟩ := piece
  have h : bytes.length ≤ (bytes ++ rest).length := by simp
  unfold fixed
  rw [dif_pos h]
  simp

theorem fixed_eq_ok [Truncation ε] {n : Nat} {piece : FixedBytes n} {cursor next : Cursor}
    (h : (fixed n : ByteReader ε (FixedBytes n)) cursor = .ok (piece, next)) :
    cursor.rest = piece.toList ++ next.rest ∧ next.position = cursor.position + n := by
  unfold fixed at h
  split at h
  · cases h
    simp
  · cases h

end ByteReader

end RingWallet
