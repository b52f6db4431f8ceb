import RingWallet.Digest

/-!
# SHA3-256

The hash of a byte string by the sponge construction over the Keccak permutation of 25 words of
64 bits: 136 bytes are absorbed between two permutations, and the first 32 bytes of the last state
are the result.
-/

set_option autoImplicit false

namespace RingWallet.Sha3

/-- Bytes absorbed between two permutations. -/
def rate : Nat := 136

/-- One constant for each of the 24 rounds. -/
def roundConstants : List UInt64 := [
  0x0000000000000001, 0x0000000000008082, 0x800000000000808a, 0x8000000080008000,
  0x000000000000808b, 0x0000000080000001, 0x8000000080008081, 0x8000000000008009,
  0x000000000000008a, 0x0000000000000088, 0x0000000080008009, 0x000000008000000a,
  0x000000008000808b, 0x800000000000008b, 0x8000000000008089, 0x8000000000008003,
  0x8000000000008002, 0x8000000000000080, 0x000000000000800a, 0x800000008000000a,
  0x8000000080008081, 0x8000000000008080, 0x0000000080000001, 0x8000000080008008]

/-- The rotation of each word, row by row. -/
def rotations : Array UInt64 := #[
  0, 1, 62, 28, 27, 36, 44, 6, 55, 20, 3, 10, 43, 25, 39, 41, 45, 15, 21, 8, 18, 2, 61, 56, 14]

/-- Rotation to the left. -/
def rotl (x n : UInt64) : UInt64 := if n == 0 then x else (x <<< n) ||| (x >>> (64 - n))

/-- The parity of column `x`. -/
def parity (s : Array UInt64) (x : Nat) : UInt64 :=
  s.getD x 0 ^^^ s.getD (x + 5) 0 ^^^ s.getD (x + 10) 0 ^^^ s.getD (x + 15) 0 ^^^ s.getD (x + 20) 0

/-- Adds to every word the parities of its two neighbouring columns. -/
def theta (s : Array UInt64) : Array UInt64 :=
  let c := #[parity s 0, parity s 1, parity s 2, parity s 3, parity s 4]
  Array.ofFn fun (i : Fin 25) =>
    let x := i.val % 5
    s.getD i.val 0 ^^^ (c.getD ((x + 4) % 5) 0 ^^^ rotl (c.getD ((x + 1) % 5) 0) 1)

/-- Rotates every word and moves it to its new place: the word at row `y`, column `x` comes from
column `x + 3 y` of row `x`. -/
def rhoPi (s : Array UInt64) : Array UInt64 :=
  Array.ofFn fun (i : Fin 25) =>
    let x := i.val % 5
    let y := i.val / 5
    let source := 5 * x + (x + 3 * y) % 5
    rotl (s.getD source 0) (rotations.getD source 0)

/-- Combines every word with the two that follow it in its row. -/
def chi (s : Array UInt64) : Array UInt64 :=
  Array.ofFn fun (i : Fin 25) =>
    let x := i.val % 5
    let row := i.val - x
    s.getD i.val 0 ^^^ ((~~~(s.getD (row + (x + 1) % 5) 0)) &&& s.getD (row + (x + 2) % 5) 0)

/-- One round. -/
def round (s : Array UInt64) (constant : UInt64) : Array UInt64 :=
  (chi (rhoPi (theta s))).modify 0 (· ^^^ constant)

/-- The permutation of the 25 words. -/
def permute (s : Array UInt64) : Array UInt64 := roundConstants.foldl round s

/-- The word whose little-endian bytes these are. -/
def wordLE (bs : Bytes) : UInt64 :=
  bs.foldr (fun b acc => (acc <<< 8) ||| b.toUInt64) 0

/-- Adds a block of `rate` bytes to the state and permutes it. -/
def absorb (s : Array UInt64) (block : Bytes) : Array UInt64 :=
  let words := (chunksOf 8 block).toArray.map wordLE
  permute (Array.ofFn fun (i : Fin 25) => s.getD i.val 0 ^^^ words.getD i.val 0)

/-- The message with its domain bits and the closing bit, filled up to whole blocks. -/
def pad (message : Bytes) : Bytes :=
  let free := rate - message.length % rate
  if free = 1 then message ++ [0x86]
  else message ++ 0x06 :: List.replicate (free - 2) 0 ++ [0x80]

/-- The first four words of a state as bytes. -/
def digest (s : Array UInt64) : Digest where
  toList := Bytes.ofUInt64 (s.getD 0 0) ++ Bytes.ofUInt64 (s.getD 1 0) ++
    Bytes.ofUInt64 (s.getD 2 0) ++ Bytes.ofUInt64 (s.getD 3 0)
  length_eq := by simp

end Sha3

/-- The SHA3-256 hash of a byte string. -/
def sha3 (message : Bytes) : Digest :=
  Sha3.digest ((chunksOf Sha3.rate (Sha3.pad message)).foldl Sha3.absorb (Array.replicate 25 0))

end RingWallet
