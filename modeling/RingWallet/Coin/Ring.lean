import RingWallet.Error

/-!
# Rings

A ring is a set of outputs among which the spent one hides, together with the blocks it was drawn
from. A ring is never empty, and its counts and lengths fit the fields of its serialized form; both
are part of the type, and `CoinRing.ofParts` checks them.
-/

set_option autoImplicit false

namespace RingWallet

/-- The version written at the head of every new ring. -/
def CoinRing.currentVersion : UInt32 := 1

/-- The members of one ring with their serialized outputs, and the blocks they come from. -/
structure CoinRing where
  version : UInt32
  /-- The height of the first block of the window. -/
  firstHeight : UInt64
  blockHashes : List BlockHash
  members : List (CoinId × Bytes)
  isCoinbase : Bool
  members_pos : 0 < members.length
  members_le : members.length ≤ 255
  blocks_le : blockHashes.length ≤ 255
  outputs_lt : ∀ member ∈ members, member.2.length < UInt32.size
  deriving DecidableEq

namespace CoinRing

/-- A ring of given members and outputs; refuses an empty ring, outputs that do not pair up with
the members, and counts or lengths that have no serialized form. -/
def ofParts (version : UInt32) (firstHeight : UInt64) (blockHashes : List BlockHash)
    (coins : List CoinId) (outputs : List Bytes) (isCoinbase : Bool) : Except RingFault CoinRing :=
  if hempty : coins.length = 0 then .error .noMembers
  else if hcount : coins.length = outputs.length then
    if hsize : coins.length ≤ 255 ∧ blockHashes.length ≤ 255 then
      if hout : ∀ output ∈ outputs, output.length < UInt32.size then
        .ok {
          version, firstHeight, blockHashes, isCoinbase
          members := coins.zip outputs
          members_pos := by simp [← hcount]; omega
          members_le := by simp [← hcount]; omega
          blocks_le := hsize.2
          outputs_lt := fun _ h => hout _ (List.of_mem_zip h).2 }
      else .error .outputTooLarge
    else .error .tooLarge
  else .error (.outputCount coins.length outputs.length)

/-- The member coins in ring order. -/
def coins (ring : CoinRing) : List CoinId := ring.members.map Prod.fst

/-- The members' serialized outputs in ring order. -/
def outputs (ring : CoinRing) : List Bytes := ring.members.map Prod.snd

/-- The number of members. -/
def size (ring : CoinRing) : Nat := ring.members.length

/-- The place of the first member that is a given coin. -/
def indexOf? (ring : CoinRing) (coin : CoinId) : Option UInt8 :=
  (ring.coins.findIdx? (· == coin)).map UInt8.ofNat

/-- Whether a coin is a member. -/
def contains (ring : CoinRing) (coin : CoinId) : Bool := ring.coins.contains coin

/-- The output of the first member that is a given coin. -/
def outputOf? (ring : CoinRing) (coin : CoinId) : Option Bytes :=
  (ring.members.find? (·.1 == coin)).map Prod.snd

/-- A new ring of given members. -/
def ofMembers (firstHeight : UInt64) (blockHashes : List BlockHash)
    (members : List (CoinId × Bytes)) (isCoinbase : Bool) : Except RingFault CoinRing :=
  ofParts currentVersion firstHeight blockHashes (members.map Prod.fst) (members.map Prod.snd)
    isCoinbase

end CoinRing

end RingWallet
