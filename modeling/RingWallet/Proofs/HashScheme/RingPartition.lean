import RingWallet.Proofs.Bytes.Consumes
import RingWallet.Proofs.HashScheme.Answers
import RingWallet.Proofs.HashScheme.Rings

/-!
# Rings partition the outputs of a window

Outputs of a window fall into two kinds: those of the first transaction of each block and all
others. Each kind is cut into full rings and a last one that may be smaller (`CutInto`). A block
that was decoded has only outputs that fit into a ring (`decodeBlock_gives`), so blocks that decode
form rings as long as there are not too many of them.

Laid end to end, the rings of a kind list the outputs of this kind in their order, and every output
of the window is in one ring, with its own bytes (`rings_partition_outputs`).
-/

set_option autoImplicit false

namespace RingWallet

namespace HashScheme

/-! ## Decoded outputs -/

theorem readOutput_gives : readOutput.Gives fun output => output.length < UInt32.size := by
  intro cursor last output h
  obtain ⟨length, between, hlength, h⟩ := ByteReader.bind_eq_ok h
  obtain ⟨hcount, -⟩ := ByteReader.take_eq_ok h
  rw [hcount]
  exact (ByteReader.natLE_eq_ok hlength).1

theorem readTx_gives : readTx.Gives fun tx => ∀ output ∈ tx.2, output.length < UInt32.size := by
  intro cursor last tx h
  obtain ⟨txid, behindTxid, -, h⟩ := ByteReader.bind_eq_ok h
  obtain ⟨count, behindCount, -, h⟩ := ByteReader.bind_eq_ok h
  obtain ⟨outputs, behindOutputs, houtputs, h⟩ := ByteReader.bind_eq_ok h
  cases h
  exact readOutput_gives.replicate _ houtputs

/-- Outputs of a decoded block are no longer than their length fields can tell. -/
theorem decodeBlock_gives {data : Bytes} {block : BlockOutputs} (h : decodeBlock data = .ok block) :
    ∀ tx ∈ block.txs, ∀ output ∈ tx.2, output.length < UInt32.size := by
  obtain ⟨⟨read, last⟩, hread, hsame⟩ := bind_eq_ok_iff.mp h
  cases hsame
  obtain ⟨height, behindHeight, -, hread⟩ := ByteReader.bind_eq_ok hread
  obtain ⟨hash, behindHash, -, hread⟩ := ByteReader.bind_eq_ok hread
  obtain ⟨count, behindCount, -, hread⟩ := ByteReader.bind_eq_ok hread
  obtain ⟨txs, behindTxs, htxs, hread⟩ := ByteReader.bind_eq_ok hread
  cases hread
  exact readTx_gives.replicate _ htxs

/-! ## Outputs in order -/

/-- The outputs of transactions one after the other, each named by its transaction and its index
there. -/
def outputsInOrder (txs : List (TxId × List Bytes)) : List (CoinId × Bytes) :=
  txs.flatMap fun tx => tx.2.mapIdx fun index output => (⟨tx.1, UInt8.ofNat index⟩, output)

theorem outputsInOrder_eq (txs : List (TxId × List Bytes)) :
    outputsInOrder txs = txs.flatMap namedOutputs := by
  apply List.flatMap_congr
  intro tx _
  exact List.mapIdx_eq_zipIdx_map

theorem coinbaseOutputs_eq (blocks : List BlockOutputs) :
    coinbaseOutputs blocks = outputsInOrder (blocks.filterMap (·.txs.head?)) := by
  rw [outputsInOrder_eq, List.filterMap_eq_flatMap_toList, List.flatMap_assoc]
  simp only [coinbaseOutputs, List.take_one]

theorem transferOutputs_eq (blocks : List BlockOutputs) :
    transferOutputs blocks = outputsInOrder (blocks.flatMap (·.txs.tail)) := by
  rw [outputsInOrder_eq, List.flatMap_assoc]
  simp only [transferOutputs, List.drop_one]

/-- Both kinds of outputs together are the outputs of all transactions. -/
theorem outputsInOrder_perm (blocks : List BlockOutputs) :
    (outputsInOrder (blocks.filterMap (·.txs.head?)) ++
        outputsInOrder (blocks.flatMap (·.txs.tail))).Perm
      (outputsInOrder (blocks.flatMap (·.txs))) := by
  rw [← coinbaseOutputs_eq, ← transferOutputs_eq, outputsInOrder_eq, List.flatMap_assoc]
  exact coinbase_append_transfer_perm blocks

/-- Outputs of blocks that were decoded fit into a ring. -/
theorem length_lt_of_decoded {blocks : List Bytes} {decoded : List BlockOutputs}
    (hdecoded : blocks.mapM decodeBlock = .ok decoded) :
    ∀ output ∈ coinbaseOutputs decoded ++ transferOutputs decoded,
      output.2.length < UInt32.size := by
  intro output houtput
  rw [(coinbase_append_transfer_perm decoded).mem_iff] at houtput
  obtain ⟨block, hblock, hnamed⟩ := List.mem_flatMap.mp houtput
  obtain ⟨tx, htx, hnamed⟩ := List.mem_flatMap.mp hnamed
  obtain ⟨index, hbytes, -⟩ := (mem_namedOutputs_iff tx output).mp hnamed
  obtain ⟨data, -, hdata⟩ := exists_of_mem_right (mapM_eq_ok_iff.mp hdecoded) hblock
  exact decodeBlock_gives hdata tx htx _ (List.mem_of_getElem? hbytes)

/-! ## Cutting one kind of outputs -/

section

variable {firstHeight : UInt64} {hashes : List BlockHash} {isCoinbase : Bool}
  {outputs : List (CoinId × Bytes)} {rings : List CoinRing}

/-- Rings of a window are what outputs are cut into. In their order the rings list the outputs; all
of them but the last have seven members, and each carries the window's first height and the hashes
of its blocks. -/
structure CutInto (firstHeight : UInt64) (hashes : List BlockHash)
    (outputs : List (CoinId × Bytes)) (rings : List CoinRing) : Prop where
  members_eq : rings.flatMap CoinRing.members = outputs
  size_pos : ∀ ring ∈ rings, 1 ≤ ring.size
  size_le : ∀ ring ∈ rings, ring.size ≤ 7
  size_eq : ∀ ring ∈ rings.dropLast, ring.size = 7
  firstHeight_eq : ∀ ring ∈ rings, ring.firstHeight = firstHeight
  blockHashes_eq : ∀ ring ∈ rings, ring.blockHashes = hashes

/-- Every ring is made of one piece of the outputs. -/
theorem exists_piece_of_ringsOf (h : ringsOf firstHeight hashes isCoinbase outputs = .ok rings)
    {ring : CoinRing} (hring : ring ∈ rings) :
    ∃ piece, CoinRing.ofMembers firstHeight hashes piece isCoinbase = .ok ring := by
  obtain ⟨piece, -, hmade⟩ := exists_of_mem_right (mapM_eq_ok_iff.mp h) hring
  exact ⟨piece, mapError_eq_ok_iff.mp hmade⟩

theorem isCoinbase_of_ringsOf (h : ringsOf firstHeight hashes isCoinbase outputs = .ok rings) :
    ∀ ring ∈ rings, ring.isCoinbase = isCoinbase := by
  intro ring hring
  obtain ⟨piece, hmade⟩ := exists_piece_of_ringsOf h hring
  obtain ⟨-, -, -, -, hkind⟩ := CoinRing.ofMembers_eq_ok_iff.mp hmade
  exact hkind

theorem cutInto_of_ringsOf (h : ringsOf firstHeight hashes isCoinbase outputs = .ok rings) :
    CutInto firstHeight hashes outputs rings := by
  have hpieces := map_members_of_ringsOf h
  have hsize : ∀ ring ∈ rings, 1 ≤ ring.size ∧ ring.size ≤ 7 := by
    intro ring hring
    apply length_of_mem_chunksOf
    rw [← hpieces]
    exact List.mem_map_of_mem hring
  have hfull : ∀ ring ∈ rings.dropLast, ring.size = 7 := by
    intro ring hring
    apply length_of_mem_dropLast_chunksOf
    rw [← hpieces, ← List.map_dropLast]
    exact List.mem_map_of_mem hring
  have hwindow : ∀ ring ∈ rings, ring.firstHeight = firstHeight ∧ ring.blockHashes = hashes := by
    intro ring hring
    obtain ⟨piece, hmade⟩ := exists_piece_of_ringsOf h hring
    obtain ⟨-, hheight, hhashes, -, -⟩ := CoinRing.ofMembers_eq_ok_iff.mp hmade
    exact ⟨hheight, hhashes⟩
  exact ⟨members_of_ringsOf h, fun ring hring => (hsize ring hring).1,
    fun ring hring => (hsize ring hring).2, hfull, fun ring hring => (hwindow ring hring).1,
    fun ring hring => (hwindow ring hring).2⟩

end

/-! ## Both kinds -/

/-- The rings of both kinds are told apart by their flag. -/
theorem filter_isCoinbase_append {coinbase transfer : List CoinRing}
    (hcoinbase : ∀ ring ∈ coinbase, ring.isCoinbase = true)
    (htransfer : ∀ ring ∈ transfer, ring.isCoinbase = false) :
    (coinbase ++ transfer).filter (·.isCoinbase) = coinbase ∧
      (coinbase ++ transfer).filter (!·.isCoinbase) = transfer := by
  have hbase : transfer.filter (·.isCoinbase) = [] :=
    List.filter_eq_nil_iff.mpr fun ring hring => by simp [htransfer ring hring]
  have hother : coinbase.filter (!·.isCoinbase) = [] :=
    List.filter_eq_nil_iff.mpr fun ring hring => by simp [hcoinbase ring hring]
  rw [List.filter_append, List.filter_append, hbase, hother, List.append_nil, List.nil_append]
  exact ⟨List.filter_eq_self.mpr hcoinbase,
    List.filter_eq_self.mpr fun ring hring => by simp [htransfer ring hring]⟩

/-- If no two rings list one coin, a member is a coinbase output exactly if its ring is of that
kind. -/
theorem mem_coinbase_iff {coinbase transfer : List CoinRing}
    (hcoinbase : ∀ ring ∈ coinbase, ring.isCoinbase = true)
    (htransfer : ∀ ring ∈ transfer, ring.isCoinbase = false)
    (hnames : (((coinbase ++ transfer).flatMap CoinRing.members).map Prod.fst).Nodup) :
    ∀ ring ∈ coinbase ++ transfer, ∀ member ∈ ring.members,
      member ∈ coinbase.flatMap CoinRing.members ↔ ring.isCoinbase = true := by
  intro ring hring member hmember
  rw [List.flatMap_append, List.map_append] at hnames
  rcases List.mem_append.mp hring with hring | hring
  · exact iff_of_true (List.mem_flatMap.mpr ⟨ring, hring, hmember⟩) (hcoinbase ring hring)
  · have hother : member ∈ transfer.flatMap CoinRing.members :=
      List.mem_flatMap.mpr ⟨ring, hring, hmember⟩
    refine iff_of_false (fun hbase => ?_) (by simp [htransfer ring hring])
    exact List.disjoint_of_nodup_append hnames (List.mem_map_of_mem hbase)
      (List.mem_map_of_mem hother)

/-- Rings partition the outputs of a window. From at least one and at most 255 blocks that decode
and whose outputs have different names, rings are always built. Those of coinbase outputs are what
the outputs of the first transaction of each block are cut into, the others what all other outputs
are cut into, and the members of a ring are of one kind. So every output is listed in exactly one
ring, with its own bytes. -/
theorem rings_partition_outputs (supply : RandSupply) {blocks : List Bytes}
    {decoded : List BlockOutputs} {first : BlockOutputs}
    (hdecoded : blocks.mapM decodeBlock = .ok decoded) (hfirst : decoded.head? = some first)
    (hcount : blocks.length ≤ 255)
    (hnames : ((outputsInOrder (decoded.flatMap (·.txs))).map Prod.fst).Nodup) :
    ∃ rings, Answers ((provider supply).buildRings blocks) rings ∧
      CutInto first.height (decoded.map (·.hash))
        (outputsInOrder (decoded.filterMap (·.txs.head?))) (rings.filter (·.isCoinbase)) ∧
      CutInto first.height (decoded.map (·.hash))
        (outputsInOrder (decoded.flatMap (·.txs.tail))) (rings.filter (!·.isCoinbase)) ∧
      (∀ ring ∈ rings, ∀ member ∈ ring.members,
        member ∈ outputsInOrder (decoded.filterMap (·.txs.head?)) ↔ ring.isCoinbase = true) ∧
      ∀ output ∈ outputsInOrder (decoded.flatMap (·.txs)), ∃ ring,
        rings.filter (·.contains output.1) = [ring] ∧
          ring.outputOf? output.1 = some output.2 := by
  obtain ⟨rest, rfl⟩ := List.head?_eq_some_iff.mp hfirst
  obtain ⟨coinbase, transfer, hcoinbase, htransfer, hbuilt⟩ :=
    exists_buildRings_of_decoded hdecoded hcount (length_lt_of_decoded hdecoded)
  rw [coinbaseOutputs_eq] at hcoinbase
  rw [transferOutputs_eq] at htransfer
  have hbase := cutInto_of_ringsOf hcoinbase
  have hother := cutInto_of_ringsOf htransfer
  have hflagBase := isCoinbase_of_ringsOf hcoinbase
  have hflagOther := isCoinbase_of_ringsOf htransfer
  obtain ⟨hfilterBase, hfilterOther⟩ := filter_isCoinbase_append hflagBase hflagOther
  -- Together the rings list all outputs, so that their members have different names, too.
  have hmembers : ((coinbase ++ transfer).flatMap CoinRing.members).Perm
      (outputsInOrder ((first :: rest).flatMap (·.txs))) := by
    rw [List.flatMap_append, hbase.members_eq, hother.members_eq]
    exact outputsInOrder_perm (first :: rest)
  have hapart := (hmembers.map Prod.fst).nodup_iff.mpr hnames
  refine ⟨coinbase ++ transfer, answer_answers hbuilt, ?_, ?_, ?_, ?_⟩
  · rw [hfilterBase]
    exact hbase
  · rw [hfilterOther]
    exact hother
  · have hkinds := mem_coinbase_iff hflagBase hflagOther hapart
    rw [hbase.members_eq] at hkinds
    exact hkinds
  · intro output houtput
    exact exists_only_ring hapart (hmembers.mem_iff.mpr houtput)

namespace FullRing

/-- Eight coinbase outputs of one byte each and another output. -/
def full : ChainBlock := ⟨6, ⟨.replicate 32 1⟩, none,
  [⟨⟨.replicate 32 2⟩, 1, [], [[0], [1], [2], [3], [4], [5], [6], [7]]⟩,
    ⟨⟨.replicate 32 3⟩, 1, [], [[8]]⟩]⟩

/-- A block without transactions. -/
def empty : ChainBlock := ⟨7, ⟨.replicate 32 4⟩, none, []⟩

def decoded : List BlockOutputs := [outputsOf full, outputsOf empty]

/-- The last of the coinbase outputs. -/
def lastMined : CoinId × Bytes := (⟨⟨.replicate 32 2⟩, 7⟩, [7])

end FullRing

open FullRing in
/-- In a window whose second block is empty, the eight coinbase outputs are cut into rings, and the
last of them is listed in one ring only. -/
theorem full_ring_partition :
    ∃ rings, Answers ((provider countingSupply).buildRings [encodeBlock full, encodeBlock empty])
        rings ∧
      CutInto 6 [full.hash, empty.hash] (outputsInOrder ((full.txs.take 1).map
        fun tx => (tx.txid, tx.outputs))) (rings.filter (·.isCoinbase)) ∧
      ∃ ring, rings.filter (·.contains lastMined.1) = [ring] ∧
        ring.outputOf? lastMined.1 = some [7] := by
  have hdecoded : [encodeBlock full, encodeBlock empty].mapM decodeBlock = .ok decoded := by
    decide +kernel
  obtain ⟨rings, hrings, hcoinbase, -, -, hone⟩ := rings_partition_outputs countingSupply hdecoded
    rfl (by decide) (by decide)
  exact ⟨rings, hrings, hcoinbase, hone lastMined (by decide)⟩

end HashScheme

end RingWallet
