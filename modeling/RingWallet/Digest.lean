import RingWallet.Bytes

/-!
# Digests

The 32-byte result of a hash function, and the big-endian word layout that SHA-256 reads and
writes.
-/

set_option autoImplicit false

namespace RingWallet

/-- The result of a 256-bit hash function. -/
abbrev Digest := FixedBytes 32

namespace Bytes

/-- Four big-endian bytes of a 32-bit word. -/
def ofUInt32BE (v : UInt32) : Bytes :=
  [(v >>> 24).toUInt8, (v >>> 16).toUInt8, (v >>> 8).toUInt8, v.toUInt8]

/-- The big-endian words of a byte string; up to three bytes at the end that fill no word are
left out. -/
def toWordsBE (acc : Array UInt32) : Bytes → Array UInt32
  | a :: b :: c :: d :: rest =>
    toWordsBE
      (acc.push (a.toUInt32 <<< 24 ||| b.toUInt32 <<< 16 ||| c.toUInt32 <<< 8 ||| d.toUInt32)) rest
  | _ => acc

@[simp] theorem length_ofUInt32BE (v : UInt32) : (ofUInt32BE v).length = 4 := rfl

end Bytes

end RingWallet
