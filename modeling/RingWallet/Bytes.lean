/-!
# Byte strings

Every codec of the wallet reads and writes lists of bytes. This module holds the two number
layouts the codecs share:

- `Bytes.ofNatLE` and `Bytes.toNatLE` write and read a number as little-endian digits of a fixed
  width; each undoes the other on numbers that fit (`toNatLE_ofNatLE`, `ofNatLE_toNatLE`);
- `FixedBytes n` is a byte string whose length is part of its type, for hashes and seed fields;
- `chunksOf` cuts a list into consecutive pieces of one size.
-/

set_option autoImplicit false

namespace RingWallet

/-- A byte string. -/
abbrev Bytes := List UInt8

namespace Bytes

/-! ## Little-endian numbers -/

/-- The `width` little-endian digits of `n`; digits beyond the width are dropped. -/
def ofNatLE : (width : Nat) → Nat → Bytes
  | 0, _ => []
  | width + 1, n => UInt8.ofNat n :: ofNatLE width (n / 256)

/-- The number whose little-endian digits these bytes are. -/
def toNatLE : Bytes → Nat
  | [] => 0
  | b :: rest => b.toNat + 256 * toNatLE rest

/-- How many byte strings of a width there are. -/
def count : (width : Nat) → Nat
  | 0 => 1
  | width + 1 => 256 * count width

@[simp] theorem length_ofNatLE (width n : Nat) : (ofNatLE width n).length = width := by
  induction width generalizing n with
  | zero => rfl
  | succ width ih => simp [ofNatLE, ih]

/-- Reading back a number that fits its width. -/
theorem toNatLE_ofNatLE (width n : Nat) (h : n < count width) :
    toNatLE (ofNatLE width n) = n := by
  induction width generalizing n with
  | zero => simp [count] at h; simp [ofNatLE, toNatLE, h]
  | succ width ih =>
    have hdiv : n / 256 < count width := Nat.div_lt_of_lt_mul h
    simp only [ofNatLE, toNatLE, ih _ hdiv, UInt8.toNat_ofNat']
    omega

/-- Writing back the number that a byte string reads as gives the same bytes. -/
theorem ofNatLE_toNatLE (bs : Bytes) : ofNatLE bs.length (toNatLE bs) = bs := by
  induction bs with
  | nil => rfl
  | cons b rest ih =>
    have hb : b.toNat < 256 := b.toNat_lt
    have hdiv : (b.toNat + 256 * toNatLE rest) / 256 = toNatLE rest := by omega
    have hhead : UInt8.ofNat (b.toNat + 256 * toNatLE rest) = b := by
      apply UInt8.toNat.inj
      rw [UInt8.toNat_ofNat']
      omega
    simp only [List.length_cons, ofNatLE, toNatLE, hdiv, hhead, ih]

/-- A byte string reads as a number that fits its length. -/
theorem toNatLE_lt (bs : Bytes) : toNatLE bs < count bs.length := by
  induction bs with
  | nil => simp [toNatLE, count]
  | cons b rest ih =>
    have hb : b.toNat < 256 := b.toNat_lt
    simp only [toNatLE, List.length_cons, count]
    omega

/-- Four little-endian bytes of a 32-bit word. -/
def ofUInt32 (v : UInt32) : Bytes := ofNatLE 4 v.toNat

/-- Eight little-endian bytes of a 64-bit word. -/
def ofUInt64 (v : UInt64) : Bytes := ofNatLE 8 v.toNat

@[simp] theorem length_ofUInt32 (v : UInt32) : (ofUInt32 v).length = 4 := by simp [ofUInt32]
@[simp] theorem length_ofUInt64 (v : UInt64) : (ofUInt64 v).length = 8 := by simp [ofUInt64]

theorem ofUInt64_toNatLE (v : UInt64) : UInt64.ofNat (toNatLE (ofUInt64 v)) = v := by
  rw [ofUInt64, toNatLE_ofNatLE _ _ (by have := v.toNat_lt; simp only [count]; omega)]
  simp

end Bytes

/-! ## Byte strings of a fixed length -/

/-- A byte string of exactly `n` bytes. -/
structure FixedBytes (n : Nat) where
  toList : Bytes
  length_eq : toList.length = n
  deriving DecidableEq

namespace FixedBytes

/-- The byte string as a fixed one, if it has the right length. -/
def ofList? (n : Nat) (bs : Bytes) : Option (FixedBytes n) :=
  if h : bs.length = n then some ⟨bs, h⟩ else none

/-- `n` copies of one byte. -/
def replicate (n : Nat) (b : UInt8) : FixedBytes n := ⟨List.replicate n b, by simp⟩

@[ext] theorem ext {n : Nat} {a b : FixedBytes n} (h : a.toList = b.toList) : a = b := by
  cases a; cases b; simp_all

@[simp] theorem length_toList {n : Nat} (a : FixedBytes n) : a.toList.length = n := a.length_eq

theorem ofList?_toList {n : Nat} (a : FixedBytes n) : ofList? n a.toList = some a := by
  simp [ofList?]

theorem ofList?_eq_some_iff {n : Nat} {bs : Bytes} {a : FixedBytes n} :
    ofList? n bs = some a ↔ bs = a.toList := by
  constructor
  · intro h
    unfold ofList? at h
    split at h
    · cases h; rfl
    · cases h
  · rintro rfl
    exact ofList?_toList a

instance {n : Nat} : Inhabited (FixedBytes n) := ⟨replicate n 0⟩

end FixedBytes

/-! ## Pieces of equal size -/

/-- Consecutive pieces of `size` elements; the last one may be shorter. -/
def chunksOf {α : Type} (size : Nat) (xs : List α) : List (List α) :=
  if _h : size = 0 ∨ xs = [] then []
  else xs.take size :: chunksOf size (xs.drop size)
  termination_by xs.length
  decreasing_by
    have : xs.length ≠ 0 := by simpa using fun hx => _h (Or.inr hx)
    simp only [List.length_drop]
    omega

theorem chunksOf_eq_nil {α : Type} {size : Nat} {xs : List α} (h : size = 0 ∨ xs = []) :
    chunksOf size xs = [] := by
  rw [chunksOf]
  exact dif_pos h

theorem chunksOf_eq_cons {α : Type} {size : Nat} {xs : List α} (h : ¬(size = 0 ∨ xs = [])) :
    chunksOf size xs = xs.take size :: chunksOf size (xs.drop size) := by
  rw [chunksOf]
  exact dif_neg h

end RingWallet
