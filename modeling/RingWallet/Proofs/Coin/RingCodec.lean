import RingWallet.Coin.RingCodec
import RingWallet.Proofs.Bytes.Reads
import RingWallet.Proofs.Keyed

/-!
# Rings and their serialized form

Every ring is read back from its serialized form (`deserialize_serialize`). A ring that lists a coin
knows the coin's place; where the names in a ring differ, it also knows which output is the coin's.
-/

set_option autoImplicit false

namespace RingWallet.CoinRing

/-! ## The serialized form -/

theorem readId_reads {ε : Type} [Truncation ε] {kind : IdKind} (id : HashId kind) :
    (readId kind : ByteReader ε (HashId kind)).Reads id.bytes id :=
  (ByteReader.Reads.fixed id.digest).bind_pure HashId.mk

theorem readFlag_reads (flag : Bool) : readFlag.Reads [if flag then 1 else 0] flag := by
  cases flag <;> exact fun _ _ => rfl

theorem readMember_reads {member : CoinId × Bytes} (h : member.2.length < UInt32.size) :
    readMember.Reads (memberBytes member) member := by
  obtain ⟨⟨txid, index⟩, output⟩ := member
  unfold readMember memberBytes
  simp only [List.append_assoc]
  apply (readId_reads txid).bind
  apply (ByteReader.Reads.byte index).bind
  apply (ByteReader.Reads.natLE h).bind
  exact (ByteReader.Reads.take output).bind_pure fun output => ((⟨txid, index⟩ : CoinId), output)

/-- A ring is made again from its parts. -/
theorem ofParts_parts (ring : CoinRing) :
    ofParts ring.version ring.firstHeight ring.blockHashes (ring.members.map Prod.fst)
      (ring.members.map Prod.snd) ring.isCoinbase = .ok ring := by
  have hpos := ring.members_pos
  have hmembers : (ring.members.map Prod.fst).zip (ring.members.map Prod.snd) = ring.members :=
    (List.zip_of_prod rfl rfl).symm
  have houtputs : ∀ output ∈ ring.members.map Prod.snd, output.length < UInt32.size := by
    intro output hmem
    obtain ⟨member, hmember, rfl⟩ := List.mem_map.mp hmem
    exact ring.outputs_lt member hmember
  unfold ofParts
  rw [dif_neg (by rw [List.length_map]; omega), dif_pos (by rw [List.length_map, List.length_map]),
    dif_pos ⟨by rw [List.length_map]; exact ring.members_le, ring.blocks_le⟩, dif_pos houtputs]
  simp only [hmembers]

/-- A ring is read from its serialized form, which ends where the ring ends. -/
theorem read_serialize (ring : CoinRing) :
    ∃ cursor, read.runFrom ring.serialize = .ok (ring, cursor) := by
  have hhashes : ring.blockHashes.length < UInt8.size :=
    Nat.lt_of_le_of_lt ring.blocks_le (by decide)
  have hmembers : ring.members.length < UInt8.size :=
    Nat.lt_of_le_of_lt ring.members_le (by decide)
  have hreadHashes := ByteReader.Reads.replicate (ε := RingFault)
    (fun hash : BlockHash => hash.bytes) id fun hash (_ : hash ∈ ring.blockHashes) =>
      readId_reads hash
  have hreadMembers := ByteReader.Reads.replicate memberBytes id
    fun member (hmem : member ∈ ring.members) => readMember_reads (ring.outputs_lt member hmem)
  rw [List.map_id] at hreadHashes hreadMembers
  -- Nothing is left behind the members.
  have hlast : ∀ cursor : Cursor, (ofParts ring.version ring.firstHeight ring.blockHashes
      (ring.members.map Prod.fst) (ring.members.map Prod.snd) ring.isCoinbase >>= fun ring =>
        Except.ok (ring, cursor)) = .ok (ring, cursor) := by
    intro cursor
    rw [ofParts_parts]
    rfl
  rw [← List.append_nil ring.serialize]
  unfold ByteReader.runFrom StateT.run read serialize
  simp only [List.append_assoc]
  rw [(ByteReader.Reads.uint32 ring.version).bind_apply,
    (ByteReader.Reads.uint64 ring.firstHeight).bind_apply,
    (readFlag_reads ring.isCoinbase).bind_apply,
    (ByteReader.Reads.byte (UInt8.ofNat ring.blockHashes.length)).bind_apply,
    UInt8.toNat_ofNat_of_lt' hhashes, hreadHashes.bind_apply,
    (ByteReader.Reads.byte (UInt8.ofNat ring.members.length)).bind_apply,
    UInt8.toNat_ofNat_of_lt' hmembers, hreadMembers.bind_apply]
  exact ⟨_, hlast _⟩

theorem deserialize_serialize (ring : CoinRing) : deserialize ring.serialize = .ok ring := by
  obtain ⟨cursor, hread⟩ := read_serialize ring
  unfold deserialize
  rw [hread]
  rfl

/-! ## Members -/

theorem mem_coins_iff (ring : CoinRing) (coin : CoinId) :
    coin ∈ ring.coins ↔ ∃ output, (coin, output) ∈ ring.members := by
  unfold coins
  constructor
  · intro h
    obtain ⟨⟨_, output⟩, hmem, rfl⟩ := List.mem_map.mp h
    exact ⟨output, hmem⟩
  · rintro ⟨output, hmem⟩
    exact List.mem_map.mpr ⟨_, hmem, rfl⟩

theorem contains_iff (ring : CoinRing) (coin : CoinId) :
    ring.contains coin = true ↔ coin ∈ ring.coins := by
  unfold contains
  exact List.contains_iff_mem

/-- A listed coin has a place. -/
theorem exists_indexOf? {ring : CoinRing} {coin : CoinId} (h : coin ∈ ring.coins) :
    ∃ index, ring.indexOf? coin = some index := by
  have hsome : (ring.coins.findIdx? (· == coin)).isSome = true := by
    rw [List.findIdx?_isSome, List.any_eq_true]
    exact ⟨coin, h, beq_self_eq_true coin⟩
  obtain ⟨place, hplace⟩ := Option.isSome_iff_exists.mp hsome
  exact ⟨UInt8.ofNat place, by rw [indexOf?, hplace]; rfl⟩

/-- A coin that has a place is listed. -/
theorem mem_coins_of_indexOf? {ring : CoinRing} {coin : CoinId} {index : UInt8}
    (h : ring.indexOf? coin = some index) : coin ∈ ring.coins := by
  obtain ⟨place, hplace, -⟩ := Option.map_eq_some_iff.mp h
  have hsome : (ring.coins.findIdx? (· == coin)).isSome = true := by rw [hplace]; rfl
  rw [List.findIdx?_isSome, List.any_eq_true] at hsome
  obtain ⟨member, hmember, heq⟩ := hsome
  exact eq_of_beq heq ▸ hmember

/-- Where names differ, a member's output is the one that is found by its name. -/
theorem outputOf?_eq {ring : CoinRing} (hnodup : ring.coins.Nodup) {coin : CoinId} {output : Bytes}
    (h : (coin, output) ∈ ring.members) : ring.outputOf? coin = some output := by
  unfold outputOf?
  rw [find?_key_eq_some Prod.fst hnodup h]
  rfl

/-- A ring has no output for exactly the coins that are no members. -/
theorem outputOf?_eq_none_iff {ring : CoinRing} {coin : CoinId} :
    ring.outputOf? coin = none ↔ coin ∉ ring.coins := by
  constructor
  · intro hnone hcoin
    obtain ⟨output, hmember⟩ := (ring.mem_coins_iff coin).mp hcoin
    have hunfound := List.find?_eq_none.mp (Option.map_eq_none_iff.mp hnone) _ hmember
    exact hunfound (beq_self_eq_true coin)
  · intro hcoin
    rw [outputOf?, find?_key_eq_none Prod.fst hcoin]
    rfl

end RingWallet.CoinRing
