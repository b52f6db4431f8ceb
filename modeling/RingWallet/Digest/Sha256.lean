import RingWallet.Digest

/-!
# SHA-256

The hash of a byte string by the Secure Hash Standard: the message is padded to whole 64-byte
blocks, and each block is folded into eight 32-bit words by 64 rounds. The result has 32 bytes by
its type.
-/

set_option autoImplicit false

namespace RingWallet.Sha256

/-- The eight chaining words. -/
structure State where
  a : UInt32
  b : UInt32
  c : UInt32
  d : UInt32
  e : UInt32
  f : UInt32
  g : UInt32
  h : UInt32

/-- The chaining words before the first block. -/
def initial : State :=
  ⟨0x6a09e667, 0xbb67ae85, 0x3c6ef372, 0xa54ff53a, 0x510e527f, 0x9b05688c, 0x1f83d9ab, 0x5be0cd19⟩

/-- One constant for each round. -/
def roundConstants : Array UInt32 := #[
  0x428a2f98, 0x71374491, 0xb5c0fbcf, 0xe9b5dba5, 0x3956c25b, 0x59f111f1, 0x923f82a4, 0xab1c5ed5,
  0xd807aa98, 0x12835b01, 0x243185be, 0x550c7dc3, 0x72be5d74, 0x80deb1fe, 0x9bdc06a7, 0xc19bf174,
  0xe49b69c1, 0xefbe4786, 0x0fc19dc6, 0x240ca1cc, 0x2de92c6f, 0x4a7484aa, 0x5cb0a9dc, 0x76f988da,
  0x983e5152, 0xa831c66d, 0xb00327c8, 0xbf597fc7, 0xc6e00bf3, 0xd5a79147, 0x06ca6351, 0x14292967,
  0x27b70a85, 0x2e1b2138, 0x4d2c6dfc, 0x53380d13, 0x650a7354, 0x766a0abb, 0x81c2c92e, 0x92722c85,
  0xa2bfe8a1, 0xa81a664b, 0xc24b8b70, 0xc76c51a3, 0xd192e819, 0xd6990624, 0xf40e3585, 0x106aa070,
  0x19a4c116, 0x1e376c08, 0x2748774c, 0x34b0bcb5, 0x391c0cb3, 0x4ed8aa4a, 0x5b9cca4f, 0x682e6ff3,
  0x748f82ee, 0x78a5636f, 0x84c87814, 0x8cc70208, 0x90befffa, 0xa4506ceb, 0xbef9a3f7, 0xc67178f2]

/-- Rotation to the right. -/
def rotr (x : UInt32) (n : UInt32) : UInt32 := (x >>> n) ||| (x <<< (32 - n))

/-- Extends the message schedule by `n` words. -/
def extendSchedule : (n : Nat) → Array UInt32 → Array UInt32
  | 0, w => w
  | n + 1, w =>
    let t := w.size
    let x := w.getD (t - 15) 0
    let y := w.getD (t - 2) 0
    let s0 := rotr x 7 ^^^ rotr x 18 ^^^ (x >>> 3)
    let s1 := rotr y 17 ^^^ rotr y 19 ^^^ (y >>> 10)
    extendSchedule n (w.push (w.getD (t - 16) 0 + s0 + w.getD (t - 7) 0 + s1))

/-- The last `n` of the 64 rounds. -/
def rounds (w : Array UInt32) : (n : Nat) → State → State
  | 0, s => s
  | n + 1, s =>
    let i := 63 - n
    let s1 := rotr s.e 6 ^^^ rotr s.e 11 ^^^ rotr s.e 25
    let ch := (s.e &&& s.f) ^^^ ((~~~s.e) &&& s.g)
    let t1 := s.h + s1 + ch + roundConstants.getD i 0 + w.getD i 0
    let s0 := rotr s.a 2 ^^^ rotr s.a 13 ^^^ rotr s.a 22
    let maj := (s.a &&& s.b) ^^^ (s.a &&& s.c) ^^^ (s.b &&& s.c)
    rounds w n ⟨t1 + (s0 + maj), s.a, s.b, s.c, s.d + t1, s.e, s.f, s.g⟩

/-- Folds one block into the chaining words. -/
def compress (s : State) (block : Bytes) : State :=
  let w := extendSchedule 48 (Bytes.toWordsBE #[] block)
  let r := rounds w 64 s
  ⟨s.a + r.a, s.b + r.b, s.c + r.c, s.d + r.d, s.e + r.e, s.f + r.f, s.g + r.g, s.h + r.h⟩

/-- The message followed by the bit one, zeros, and its bit length as a big-endian word. -/
def pad (message : Bytes) : Bytes :=
  let n := message.length
  message ++ 0x80 :: List.replicate ((119 - n % 64) % 64) 0 ++ (Bytes.ofNatLE 8 (8 * n)).reverse

/-- The chaining words as bytes. -/
def State.digest (s : State) : Digest where
  toList := Bytes.ofUInt32BE s.a ++ Bytes.ofUInt32BE s.b ++ Bytes.ofUInt32BE s.c ++
    Bytes.ofUInt32BE s.d ++ Bytes.ofUInt32BE s.e ++ Bytes.ofUInt32BE s.f ++
    Bytes.ofUInt32BE s.g ++ Bytes.ofUInt32BE s.h
  length_eq := by simp

end Sha256

/-- The SHA-256 hash of a byte string. -/
def sha256 (message : Bytes) : Digest :=
  ((chunksOf 64 (Sha256.pad message)).foldl Sha256.compress Sha256.initial).digest

end RingWallet
