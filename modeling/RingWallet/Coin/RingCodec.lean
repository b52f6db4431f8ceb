import RingWallet.Bytes.Cursor
import RingWallet.Coin.Ring
import RingWallet.Digest.Sha256

/-!
# The serialized form of a ring

```text
version(4) first height(8) coinbase flag(1)
block count(1) block hash(32) for each block
member count(1) (txid(32) index(1) output length(4) output) for each member
```

All numbers are little-endian. A ring's identifier is the SHA-256 of this form.
-/

set_option autoImplicit false

namespace RingWallet

instance : Truncation RingFault := ⟨RingFault.truncated⟩

namespace CoinRing

/-! ## Writing -/

/-- The bytes of one member. -/
def memberBytes (member : CoinId × Bytes) : Bytes :=
  member.1.txid.bytes ++ [member.1.index] ++ Bytes.ofNatLE 4 member.2.length ++ member.2

/-- The serialized form of a ring. -/
def serialize (ring : CoinRing) : Bytes :=
  Bytes.ofUInt32 ring.version ++ Bytes.ofUInt64 ring.firstHeight
    ++ [if ring.isCoinbase then 1 else 0]
    ++ [UInt8.ofNat ring.blockHashes.length] ++ ring.blockHashes.flatMap HashId.bytes
    ++ [UInt8.ofNat ring.members.length] ++ ring.members.flatMap memberBytes

/-- The identifier of a ring. -/
def ringId (ring : CoinRing) : RingId := ⟨sha256 ring.serialize⟩

/-! ## Reading -/

/-- Reads an identifier. -/
def readId {ε : Type} [Truncation ε] (kind : IdKind) : ByteReader ε (HashId kind) := do
  return ⟨← ByteReader.fixed 32⟩

/-- Reads the coinbase flag, a byte that is zero or one. -/
def readFlag : ByteReader RingFault Bool := do
  let flag ← ByteReader.byte
  if flag = 0 then return false
  else if flag = 1 then return true
  else throw (.coinbaseFlag flag)

/-- Reads one member. -/
def readMember : ByteReader RingFault (CoinId × Bytes) := do
  let txid ← readId .transaction
  let index ← ByteReader.byte
  let length ← ByteReader.natLE 4
  let output ← ByteReader.take length
  return (⟨txid, index⟩, output)

/-- Reads a ring, which ends where the bytes end. -/
def read : ByteReader RingFault CoinRing := do
  let version ← ByteReader.uint32
  let firstHeight ← ByteReader.uint64
  let isCoinbase ← readFlag
  let blockCount ← ByteReader.byte
  let blockHashes ← ByteReader.replicate blockCount.toNat (readId .block)
  let memberCount ← ByteReader.byte
  let members ← ByteReader.replicate memberCount.toNat readMember
  let cursor ← get
  if cursor.rest.isEmpty then
    ofParts version firstHeight blockHashes (members.map Prod.fst) (members.map Prod.snd) isCoinbase
  else throw (.trailing cursor.rest.length)

/-- The ring with a given serialized form. -/
def deserialize (data : Bytes) : Except RingFault CoinRing := do
  let (ring, _) ← ByteReader.runFrom read data
  return ring

end CoinRing

end RingWallet
