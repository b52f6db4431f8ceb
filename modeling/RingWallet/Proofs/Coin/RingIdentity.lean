import RingWallet.Proofs.Bytes.Consumes
import RingWallet.Proofs.Coin.RingCodec
import RingWallet.Proofs.Digest

/-!
# A ring and its identifier

A ring is made of given parts exactly if they are its parts (`ofParts_eq_ok_iff`). It is read from its
serialized form and from no other bytes (`deserialize_eq_ok_iff`), so two rings have one identifier
only if they are the same ring or their serialized forms collide.
-/

set_option autoImplicit false

namespace RingWallet.CoinRing

/-! ## The constructor -/

/-- A ring of given parts exists exactly if some ring has these parts. -/
theorem ofParts_eq_ok_iff {version : UInt32} {firstHeight : UInt64} {blockHashes : List BlockHash}
    {coins : List CoinId} {outputs : List Bytes} {isCoinbase : Bool} {ring : CoinRing} :
    ofParts version firstHeight blockHashes coins outputs isCoinbase = .ok ring ↔
      ring.version = version ∧ ring.firstHeight = firstHeight ∧ ring.blockHashes = blockHashes ∧
        ring.coins = coins ∧ ring.outputs = outputs ∧ ring.isCoinbase = isCoinbase := by
  constructor
  · intro h
    unfold ofParts at h
    split at h
    · cases h
    · split at h
      · rename_i hcount
        split at h
        · split at h
          · cases h
            refine ⟨rfl, rfl, rfl, ?_, ?_, rfl⟩
            · exact List.map_fst_zip (Nat.le_of_eq hcount)
            · exact List.map_snd_zip (Nat.le_of_eq hcount.symm)
          · cases h
        · cases h
      · cases h
  · rintro ⟨rfl, rfl, rfl, rfl, rfl, rfl⟩
    exact ofParts_parts ring

/-- Parts are accepted exactly if their counts and lengths fit the serialized form. -/
theorem exists_ofParts_iff {version : UInt32} {firstHeight : UInt64} {blockHashes : List BlockHash}
    {coins : List CoinId} {outputs : List Bytes} {isCoinbase : Bool} :
    (∃ ring, ofParts version firstHeight blockHashes coins outputs isCoinbase = .ok ring) ↔
      0 < coins.length ∧ coins.length ≤ 255 ∧ coins.length = outputs.length ∧
        blockHashes.length ≤ 255 ∧ ∀ output ∈ outputs, output.length < UInt32.size := by
  constructor
  · rintro ⟨ring, hring⟩
    obtain ⟨-, -, rfl, rfl, rfl, -⟩ := ofParts_eq_ok_iff.mp hring
    refine ⟨?_, ?_, ?_, ring.blocks_le, ?_⟩
    · simpa [coins] using ring.members_pos
    · simpa [coins] using ring.members_le
    · simp [coins, outputs]
    · intro output houtput
      obtain ⟨member, hmember, rfl⟩ := List.mem_map.mp houtput
      exact ring.outputs_lt member hmember
  · rintro ⟨hpos, hle, hcount, hblocks, hlengths⟩
    unfold ofParts
    rw [dif_neg (Nat.ne_of_gt hpos), dif_pos hcount, dif_pos ⟨hle, hblocks⟩, dif_pos hlengths]
    exact ⟨_, rfl⟩

/-- Coins and outputs together are the members. -/
theorem members_eq_iff {ring : CoinRing} {members : List (CoinId × Bytes)} :
    ring.members = members ↔
      ring.coins = members.map Prod.fst ∧ ring.outputs = members.map Prod.snd := by
  constructor
  · rintro rfl
    exact ⟨rfl, rfl⟩
  · rintro ⟨hcoins, houtputs⟩
    exact (List.zip_of_prod hcoins houtputs).trans (List.zip_of_prod rfl rfl).symm

/-- A new ring of given members has these members and the version of new rings. -/
theorem ofMembers_eq_ok_iff {firstHeight : UInt64} {blockHashes : List BlockHash}
    {members : List (CoinId × Bytes)} {isCoinbase : Bool} {ring : CoinRing} :
    ofMembers firstHeight blockHashes members isCoinbase = .ok ring ↔
      ring.version = currentVersion ∧ ring.firstHeight = firstHeight ∧
        ring.blockHashes = blockHashes ∧ ring.members = members ∧
        ring.isCoinbase = isCoinbase := by
  rw [ofMembers, ofParts_eq_ok_iff, members_eq_iff, and_assoc]

/-! ## Reading is writing undone -/

theorem consumes_readId {ε : Type} [Truncation ε] (kind : IdKind) :
    (readId kind : ByteReader ε (HashId kind)).Consumes HashId.bytes :=
  (ByteReader.consumes_fixed 32).bind_pure fun _ => rfl

theorem consumes_readFlag : readFlag.Consumes fun flag => [if flag then 1 else 0] := by
  intro cursor next flag h
  obtain ⟨b, between, hbyte, h⟩ := ByteReader.bind_eq_ok h
  rw [ByteReader.consumes_byte hbyte]
  -- Of all bytes only the two flags are let through.
  split at h
  · rename_i hzero
    cases h
    rw [hzero]
    rfl
  · split at h
    · rename_i hone
      cases h
      rw [hone]
      rfl
    · cases h

theorem consumes_readMember : readMember.Consumes memberBytes := by
  intro cursor next member h
  obtain ⟨txid, behindTxid, htxid, h⟩ := ByteReader.bind_eq_ok h
  obtain ⟨index, behindIndex, hindex, h⟩ := ByteReader.bind_eq_ok h
  obtain ⟨length, behindLength, hlength, h⟩ := ByteReader.bind_eq_ok h
  obtain ⟨output, behindOutput, houtput, h⟩ := ByteReader.bind_eq_ok h
  cases h
  obtain ⟨rfl, hrest⟩ := ByteReader.take_eq_ok houtput
  rw [consumes_readId _ htxid, ByteReader.consumes_byte hindex,
    (ByteReader.natLE_eq_ok hlength).2, hrest]
  simp [memberBytes]

/-- A ring that was read takes up all the bytes there are. -/
theorem consumes_read {cursor last : Cursor} {ring : CoinRing}
    (h : read cursor = .ok (ring, last)) : cursor.rest = ring.serialize := by
  obtain ⟨version, behindVersion, hversion, h⟩ := ByteReader.bind_eq_ok h
  obtain ⟨firstHeight, behindHeight, hheight, h⟩ := ByteReader.bind_eq_ok h
  obtain ⟨isCoinbase, behindFlag, hflag, h⟩ := ByteReader.bind_eq_ok h
  obtain ⟨blockCount, behindBlockCount, hblockCount, h⟩ := ByteReader.bind_eq_ok h
  obtain ⟨blockHashes, behindHashes, hhashes, h⟩ := ByteReader.bind_eq_ok h
  obtain ⟨memberCount, behindMemberCount, hmemberCount, h⟩ := ByteReader.bind_eq_ok h
  obtain ⟨members, behindMembers, hmembers, h⟩ := ByteReader.bind_eq_ok h
  obtain ⟨_, _, hplace, h⟩ := ByteReader.bind_eq_ok h
  cases hplace
  split at h
  · rename_i hend
    -- Nothing is left, and the ring is the one of the parts that were read.
    obtain ⟨made, hmade, h⟩ := bind_eq_ok_iff.mp h
    cases h
    obtain ⟨rfl, rfl, rfl, hcoins, houtputs, rfl⟩ := ofParts_eq_ok_iff.mp hmade
    have hpairs : ring.members = members := members_eq_iff.mpr ⟨hcoins, houtputs⟩
    subst hpairs
    have hblocks := ByteReader.length_of_replicate hhashes
    have hcount := ByteReader.length_of_replicate hmembers
    rw [ByteReader.consumes_uint32 hversion, ByteReader.consumes_uint64 hheight,
      consumes_readFlag hflag, ByteReader.consumes_byte hblockCount,
      (consumes_readId _).replicate _ hhashes, ByteReader.consumes_byte hmemberCount,
      consumes_readMember.replicate _ hmembers, List.isEmpty_iff.mp hend]
    simp [serialize, hblocks, hcount]
  · cases h

/-- A ring is read from its serialized form and from no other bytes. -/
theorem deserialize_eq_ok_iff {data : Bytes} {ring : CoinRing} :
    deserialize data = .ok ring ↔ data = ring.serialize := by
  constructor
  · intro h
    obtain ⟨⟨found, last⟩, hread, h⟩ := bind_eq_ok_iff.mp h
    cases h
    exact consumes_read hread
  · rintro rfl
    exact deserialize_serialize ring

theorem serialize_injective {a b : CoinRing} (h : a.serialize = b.serialize) : a = b := by
  have ha := deserialize_serialize a
  rw [h, deserialize_serialize b] at ha
  exact (Except.ok.inj ha).symm

/-- Rings with one identifier are the same ring, or their serialized forms collide. -/
theorem ringId_eq_iff {a b : CoinRing} :
    a.ringId = b.ringId ↔ a = b ∨ Collision sha256 a.serialize b.serialize := by
  have hid : a.ringId = b.ringId ↔ sha256 a.serialize = sha256 b.serialize := by
    simp [ringId]
  have hform : a.serialize = b.serialize ↔ a = b := by
    constructor
    · exact serialize_injective
    · rintro rfl
      rfl
  rw [hid, hash_eq_iff, hform]

/-- A ring and its identifier. Reading and writing rings undo each other: a ring is read from its
serialized form and from no other bytes. Rings exist for exactly the parts whose counts and lengths
fit the fields of that form. And two rings with one identifier are the same ring, unless their
serialized forms are a collision of the hash that makes identifiers. -/
theorem ring_identity (ring other : CoinRing) (data : Bytes) :
    (deserialize data = .ok ring ↔ data = ring.serialize) ∧
    (∀ version firstHeight blockHashes coins outputs isCoinbase,
      (∃ made, ofParts version firstHeight blockHashes coins outputs isCoinbase = .ok made) ↔
        0 < coins.length ∧ coins.length ≤ 255 ∧ coins.length = outputs.length ∧
          blockHashes.length ≤ 255 ∧ ∀ output ∈ outputs, output.length < UInt32.size) ∧
    (ring.ringId = other.ringId ↔
      ring = other ∨ Collision sha256 ring.serialize other.serialize) :=
  ⟨deserialize_eq_ok_iff, fun _ _ _ _ _ _ => exists_ofParts_iff, ringId_eq_iff⟩

end RingWallet.CoinRing
