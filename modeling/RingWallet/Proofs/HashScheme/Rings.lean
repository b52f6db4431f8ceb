import Mathlib.Data.List.Perm.Basic
import RingWallet.HashScheme.Rings
import RingWallet.Proofs.Coin.RingIdentity
import RingWallet.Proofs.HashScheme.Block

/-!
# The rings of a window

Blocks that fit their fields always form rings, and together the rings list the outputs of the
blocks, each once: first the coinbase outputs, then all others (`exists_buildRings`). If the
transactions of the blocks have different identifiers, the outputs have different names, so every
output of the blocks is in one ring, with its own bytes (`exists_lastRing`).
-/

set_option autoImplicit false

namespace RingWallet

/-! ## Pieces of equal size -/

theorem flatten_chunksOf {α : Type} {size : Nat} (hsize : size ≠ 0) (xs : List α) :
    (chunksOf size xs).flatten = xs := by
  induction xs using chunksOf.induct size with
  | case1 xs hnone =>
    rw [chunksOf_eq_nil hnone, hnone.resolve_left hsize]
    rfl
  | case2 xs hsome ih =>
    rw [chunksOf_eq_cons hsome, List.flatten_cons, ih, List.take_append_drop]

/-- No piece is empty, and none is larger than asked for. -/
theorem length_of_mem_chunksOf {α : Type} {size : Nat} {xs chunk : List α}
    (h : chunk ∈ chunksOf size xs) : 0 < chunk.length ∧ chunk.length ≤ size := by
  induction xs using chunksOf.induct size with
  | case1 xs hnone =>
    rw [chunksOf_eq_nil hnone] at h
    cases h
  | case2 xs hsome ih =>
    rw [chunksOf_eq_cons hsome] at h
    rcases List.mem_cons.mp h with rfl | hrest
    · have hpos := List.length_pos_iff.mpr fun hnil => hsome (.inr hnil)
      have hsize : size ≠ 0 := fun hzero => hsome (.inl hzero)
      rw [List.length_take]
      omega
    · exact ih hrest

/-- All pieces but the last are as large as asked for. -/
theorem length_of_mem_dropLast_chunksOf {α : Type} {size : Nat} {xs chunk : List α}
    (h : chunk ∈ (chunksOf size xs).dropLast) : chunk.length = size := by
  induction xs using chunksOf.induct size with
  | case1 xs hnone =>
    rw [chunksOf_eq_nil hnone] at h
    cases h
  | case2 xs hsome ih =>
    rw [chunksOf_eq_cons hsome] at h
    -- A piece that is not the last one leaves something behind it.
    have hbehind : chunksOf size (xs.drop size) ≠ [] := by
      intro hnil
      rw [hnil] at h
      cases h
    rw [List.dropLast_cons_of_ne_nil hbehind] at h
    rcases List.mem_cons.mp h with rfl | hrest
    · apply List.length_take_of_le
      by_contra hshort
      apply hbehind
      exact chunksOf_eq_nil (.inr (List.drop_eq_nil_of_le (by omega)))
    · exact ih hrest

theorem mem_of_mem_chunksOf {α : Type} {size : Nat} (hsize : size ≠ 0) {xs chunk : List α} {x : α}
    (hchunk : chunk ∈ chunksOf size xs) (hx : x ∈ chunk) : x ∈ xs := by
  rw [← flatten_chunksOf hsize xs]
  exact List.mem_flatten.mpr ⟨chunk, hchunk, hx⟩

namespace HashScheme

/-! ## Building rings -/

theorem exists_ringsOf (firstHeight : UInt64) {hashes : List BlockHash}
    (hhashes : hashes.length ≤ 255) (isCoinbase : Bool) {outputs : List (CoinId × Bytes)}
    (houtputs : ∀ output ∈ outputs, output.2.length < UInt32.size) :
    ∃ rings, ringsOf firstHeight hashes isCoinbase outputs = .ok rings := by
  apply exists_mapM_eq_ok_iff.mpr
  intro chunk hchunk
  obtain ⟨hpos, hle⟩ := length_of_mem_chunksOf hchunk
  have hle : chunk.length ≤ 255 := Nat.le_trans hle (by decide)
  have hfit : ∀ member ∈ chunk, member.2.length < UInt32.size := fun member hmem =>
    houtputs member (mem_of_mem_chunksOf (by decide) hchunk hmem)
  let ring : CoinRing :=
    ⟨CoinRing.currentVersion, firstHeight, hashes, chunk, isCoinbase, hpos, hle, hhashes, hfit⟩
  refine ⟨ring, ?_⟩
  exact mapError_eq_ok_iff.mpr (CoinRing.ofMembers_eq_ok_iff.mpr ⟨rfl, rfl, rfl, rfl, rfl⟩)

/-- Rings that outputs were cut into have the pieces of the outputs as members. -/
theorem map_members_of_ringsOf {firstHeight : UInt64} {hashes : List BlockHash} {isCoinbase : Bool}
    {outputs : List (CoinId × Bytes)} {rings : List CoinRing}
    (h : ringsOf firstHeight hashes isCoinbase outputs = .ok rings) :
    rings.map CoinRing.members = chunksOf ChainParams.standardRingSize outputs := by
  have hone : ∀ (chunk : List (CoinId × Bytes)) (ring : CoinRing),
      (CoinRing.ofMembers firstHeight hashes chunk isCoinbase).mapError Failure.ringConstruction =
        .ok ring → ring.members = id chunk := by
    intro chunk ring hring
    obtain ⟨-, -, -, hmembers, -⟩ := CoinRing.ofMembers_eq_ok_iff.mp (mapError_eq_ok_iff.mp hring)
    exact hmembers
  rw [map_of_mapM_eq_ok hone h, List.map_id]

/-- Rings that outputs were cut into list these outputs, in their order. -/
theorem members_of_ringsOf {firstHeight : UInt64} {hashes : List BlockHash} {isCoinbase : Bool}
    {outputs : List (CoinId × Bytes)} {rings : List CoinRing}
    (h : ringsOf firstHeight hashes isCoinbase outputs = .ok rings) :
    rings.flatMap CoinRing.members = outputs := by
  rw [List.flatMap_def, map_members_of_ringsOf h, flatten_chunksOf (by decide)]

/-- Blocks form rings if they can be decoded, there is one at least, and both kinds of outputs can
be cut into rings. -/
theorem buildRings_eq_ok_iff {blocks : List Bytes} {rings : List CoinRing} :
    buildRings blocks = .ok rings ↔
      ∃ first rest coinbase transfer, blocks.mapM decodeBlock = .ok (first :: rest) ∧
        ringsOf first.height ((first :: rest).map (·.hash)) true
          (coinbaseOutputs (first :: rest)) = .ok coinbase ∧
        ringsOf first.height ((first :: rest).map (·.hash)) false
          (transferOutputs (first :: rest)) = .ok transfer ∧
        coinbase ++ transfer = rings := by
  unfold buildRings
  constructor
  · intro h
    obtain ⟨decoded, hdecoded, h⟩ := bind_eq_ok_iff.mp h
    cases decoded with
    | nil => cases h
    | cons first rest =>
      obtain ⟨coinbase, hcoinbase, h⟩ := bind_eq_ok_iff.mp h
      obtain ⟨transfer, htransfer, h⟩ := bind_eq_ok_iff.mp h
      exact ⟨first, rest, coinbase, transfer, hdecoded, hcoinbase, htransfer, Except.ok.inj h⟩
  · rintro ⟨first, rest, coinbase, transfer, hdecoded, hcoinbase, htransfer, rfl⟩
    refine bind_eq_ok_iff.mpr ⟨_, hdecoded, bind_eq_ok_iff.mpr ⟨_, hcoinbase, ?_⟩⟩
    exact bind_eq_ok_iff.mpr ⟨_, htransfer, rfl⟩

/-- Blocks that can be decoded form rings, if they are not too many and their outputs fit. -/
theorem exists_buildRings_of_decoded {blocks : List Bytes} {first : BlockOutputs}
    {rest : List BlockOutputs} (hdecoded : blocks.mapM decodeBlock = .ok (first :: rest))
    (hcount : blocks.length ≤ 255)
    (houtputs : ∀ output ∈ coinbaseOutputs (first :: rest) ++ transferOutputs (first :: rest),
      output.2.length < UInt32.size) :
    ∃ coinbase transfer,
      ringsOf first.height ((first :: rest).map (·.hash)) true
        (coinbaseOutputs (first :: rest)) = .ok coinbase ∧
      ringsOf first.height ((first :: rest).map (·.hash)) false
        (transferOutputs (first :: rest)) = .ok transfer ∧
      buildRings blocks = .ok (coinbase ++ transfer) := by
  have hhashes : ((first :: rest).map (·.hash)).length ≤ 255 := by
    rw [List.length_map, ← (mapM_eq_ok_iff.mp hdecoded).length_eq]
    exact hcount
  obtain ⟨coinbase, hcoinbase⟩ := exists_ringsOf first.height hhashes true fun output hmem =>
    houtputs output (List.mem_append_left _ hmem)
  obtain ⟨transfer, htransfer⟩ := exists_ringsOf first.height hhashes false fun output hmem =>
    houtputs output (List.mem_append_right _ hmem)
  exact ⟨coinbase, transfer, hcoinbase, htransfer, buildRings_eq_ok_iff.mpr
    ⟨first, rest, coinbase, transfer, hdecoded, hcoinbase, htransfer, rfl⟩⟩

/-! ## The outputs of blocks -/

/-- The outputs of a block with their names. -/
def BlockOutputs.named (block : BlockOutputs) : List (CoinId × Bytes) :=
  block.txs.flatMap namedOutputs

/-- Coinbase outputs and all others are the outputs of the blocks, in some order. -/
theorem coinbase_append_transfer_perm (blocks : List BlockOutputs) :
    (coinbaseOutputs blocks ++ transferOutputs blocks).Perm
      (blocks.flatMap BlockOutputs.named) := by
  refine (List.flatMap_append_perm blocks _ _).trans (.of_eq ?_)
  apply List.flatMap_congr
  intro block _
  rw [← List.flatMap_append, List.take_append_drop, BlockOutputs.named]

/-- The rings of blocks list the blocks' outputs, in some order. -/
theorem members_of_buildRings {blocks : List Bytes} {rings : List CoinRing}
    (h : buildRings blocks = .ok rings) :
    ∃ decoded, blocks.mapM decodeBlock = .ok decoded ∧
      (rings.flatMap CoinRing.members).Perm (decoded.flatMap BlockOutputs.named) := by
  obtain ⟨first, rest, coinbase, transfer, hdecoded, hcoinbase, htransfer, rfl⟩ :=
    buildRings_eq_ok_iff.mp h
  refine ⟨first :: rest, hdecoded, ?_⟩
  rw [List.flatMap_append, members_of_ringsOf hcoinbase, members_of_ringsOf htransfer]
  exact coinbase_append_transfer_perm _

/-- All outputs of blocks with their names: the coinbase outputs first. -/
def windowOutputs (blocks : List ChainBlock) : List (CoinId × Bytes) :=
  coinbaseOutputs (blocks.map outputsOf) ++ transferOutputs (blocks.map outputsOf)

/-- An output is named by its transaction and its index. -/
theorem mem_namedOutputs_iff (tx : TxId × List Bytes) (entry : CoinId × Bytes) :
    entry ∈ namedOutputs tx ↔
      ∃ index, tx.2[index]? = some entry.2 ∧ entry.1 = ⟨tx.1, UInt8.ofNat index⟩ := by
  unfold namedOutputs
  constructor
  · intro h
    obtain ⟨⟨output, index⟩, hmem, rfl⟩ := List.mem_map.mp h
    exact ⟨index, List.mem_zipIdx_iff_getElem?.mp hmem, rfl⟩
  · rintro ⟨index, houtput, hname⟩
    refine List.mem_map.mpr ⟨(entry.2, index), List.mem_zipIdx_iff_getElem?.mpr houtput, ?_⟩
    rw [← hname]

/-- The outputs of a window are those of its transactions, in some order. -/
theorem windowOutputs_perm (blocks : List ChainBlock) :
    (windowOutputs blocks).Perm
      ((blocks.flatMap (·.txs)).flatMap fun tx => namedOutputs (tx.txid, tx.outputs)) := by
  refine (coinbase_append_transfer_perm (blocks.map outputsOf)).trans (.of_eq ?_)
  rw [List.flatMap_map, List.flatMap_assoc]
  apply List.flatMap_congr
  intro block _
  rw [BlockOutputs.named, outputsOf, List.flatMap_map]

theorem mem_windowOutputs_iff (blocks : List ChainBlock) (entry : CoinId × Bytes) :
    entry ∈ windowOutputs blocks ↔ ∃ block ∈ blocks, ∃ tx ∈ block.txs, ∃ index,
      tx.outputs[index]? = some entry.2 ∧ entry.1 = ⟨tx.txid, UInt8.ofNat index⟩ := by
  rw [(windowOutputs_perm blocks).mem_iff]
  simp only [List.mem_flatMap, mem_namedOutputs_iff]
  constructor
  · rintro ⟨tx, ⟨block, hblock, htx⟩, hentry⟩
    exact ⟨block, hblock, tx, htx, hentry⟩
  · rintro ⟨block, hblock, tx, htx, hentry⟩
    exact ⟨tx, ⟨block, hblock, htx⟩, hentry⟩

/-- Blocks that fit their fields are read back, one by one. -/
theorem mapM_decodeBlock {blocks : List ChainBlock} (hfits : ∀ block ∈ blocks, BlockFits block) :
    (blocks.map encodeBlock).mapM decodeBlock = .ok (blocks.map outputsOf) := by
  rw [mapM_eq_ok_iff, List.forall₂_map_left_iff, List.forall₂_map_right_iff, List.forall₂_same]
  exact fun block hmem => decodeBlock_encodeBlock (hfits block hmem)

/-- Blocks that fit their fields form rings, which list the blocks' outputs. -/
theorem exists_buildRings {blocks : List ChainBlock} (hsome : blocks ≠ [])
    (hcount : blocks.length ≤ 255) (hfits : ∀ block ∈ blocks, BlockFits block) :
    ∃ rings, buildRings (blocks.map encodeBlock) = .ok rings ∧
      rings.flatMap CoinRing.members = windowOutputs blocks := by
  have hdecoded := mapM_decodeBlock hfits
  obtain ⟨first, rest, rfl⟩ := List.exists_cons_of_ne_nil hsome
  -- The outputs of a window are outputs of its transactions, whose lengths fit.
  have hlengths : ∀ entry ∈ windowOutputs (first :: rest), entry.2.length < UInt32.size := by
    intro entry hentry
    obtain ⟨block, hblock, tx, htx, index, houtput, -⟩ := (mem_windowOutputs_iff _ _).mp hentry
    exact ((hfits block hblock).tx tx htx).output_lt _ (List.mem_of_getElem? houtput)
  obtain ⟨coinbase, transfer, hcoinbase, htransfer, hrings⟩ :=
    exists_buildRings_of_decoded hdecoded (by rwa [List.length_map]) hlengths
  refine ⟨coinbase ++ transfer, hrings, ?_⟩
  rw [List.flatMap_append, members_of_ringsOf hcoinbase, members_of_ringsOf htransfer]
  rfl

/-! ## Finding outputs in rings -/

/-- Outputs of one transaction have different names, since an index fits a byte. -/
theorem nodup_namedOutputs {tx : ChainTx} (h : TxFits tx) :
    ((namedOutputs (tx.txid, tx.outputs)).map Prod.fst).Nodup := by
  have hnames : (namedOutputs (tx.txid, tx.outputs)).map Prod.fst =
      (List.range' 0 tx.outputs.length).map fun index => ⟨tx.txid, UInt8.ofNat index⟩ := by
    unfold namedOutputs
    rw [← List.zipIdx_map_snd, List.map_map, List.map_map]
    rfl
  rw [hnames]
  refine List.Nodup.map_on (fun a ha b hb heq => ?_) List.nodup_range'
  have houtputs := h.outputs_le
  have hindex : UInt8.ofNat a = UInt8.ofNat b := (CoinId.mk.inj heq).2
  have hnat := congrArg UInt8.toNat hindex
  rw [List.mem_range'_1] at ha hb
  rw [UInt8.toNat_ofNat', UInt8.toNat_ofNat'] at hnat
  omega

/-- Outputs of transactions with different identifiers have different names. -/
theorem nodup_windowOutputs {blocks : List ChainBlock}
    (htxids : ((blocks.flatMap (·.txs)).map (·.txid)).Nodup)
    (hfits : ∀ block ∈ blocks, BlockFits block) :
    ((windowOutputs blocks).map Prod.fst).Nodup := by
  rw [((windowOutputs_perm blocks).map Prod.fst).nodup_iff, List.map_flatMap, List.nodup_flatMap]
  constructor
  · intro tx htx
    obtain ⟨block, hblock, htx⟩ := List.mem_flatMap.mp htx
    exact nodup_namedOutputs ((hfits block hblock).tx tx htx)
  · -- A name tells its transaction, so two transactions share no name.
    have htxid : ∀ (tx : ChainTx) (name : CoinId),
        name ∈ (namedOutputs (tx.txid, tx.outputs)).map Prod.fst → name.txid = tx.txid := by
      intro tx name hname
      obtain ⟨entry, hentry, rfl⟩ := List.mem_map.mp hname
      obtain ⟨index, -, heq⟩ := (mem_namedOutputs_iff _ _).mp hentry
      rw [heq]
    refine (List.pairwise_map.mp htxids).imp fun {a b} hne name ha hb => hne ?_
    exact (htxid a name ha).symm.trans (htxid b name hb)

variable {blocks : List ChainBlock} {rings : List CoinRing}

/-- If no two rings list one coin, the ring of a member is the only one that lists it. -/
theorem filter_contains_eq_singleton
    (hnames : ((rings.flatMap CoinRing.members).map Prod.fst).Nodup) {ring : CoinRing}
    (hring : ring ∈ rings) {coin : CoinId} (hcoin : coin ∈ ring.coins) :
    rings.filter (·.contains coin) = [ring] := by
  have hlisted : ∀ {others : List CoinRing} {other : CoinRing}, other ∈ others →
      coin ∈ other.coins → coin ∈ (others.flatMap CoinRing.members).map Prod.fst := by
    intro others other hother hcoin
    rw [List.map_flatMap]
    exact List.mem_flatMap.mpr ⟨other, hother, hcoin⟩
  induction rings with
  | nil => cases hring
  | cons first rest ih =>
    rw [List.flatMap_cons, List.map_append, List.nodup_append] at hnames
    obtain ⟨-, hrest, hapart⟩ := hnames
    rcases List.mem_cons.mp hring with rfl | hring
    · have hnone : rest.filter (·.contains coin) = [] := by
        rw [List.filter_eq_nil_iff]
        intro other hother hcontains
        have hlater := hlisted hother ((other.contains_iff coin).mp hcontains)
        exact hapart coin hcoin coin hlater rfl
      rw [List.filter_cons, if_pos ((ring.contains_iff coin).mpr hcoin), hnone]
    · have hnot : ¬ first.contains coin = true := by
        intro hcontains
        exact hapart coin ((first.contains_iff coin).mp hcontains) coin (hlisted hring hcoin) rfl
      rw [List.filter_cons, if_neg hnot, ih hrest hring]

/-- If no two rings list one coin, a member is listed in one ring only, which knows its bytes. -/
theorem exists_only_ring (hnames : ((rings.flatMap CoinRing.members).map Prod.fst).Nodup)
    {member : CoinId × Bytes} (hmember : member ∈ rings.flatMap CoinRing.members) :
    ∃ ring, rings.filter (·.contains member.1) = [ring] ∧
      ring.outputOf? member.1 = some member.2 := by
  obtain ⟨ring, hring, hmember⟩ := List.mem_flatMap.mp hmember
  have hlisted : member.1 ∈ ring.coins := List.mem_map_of_mem hmember
  refine ⟨ring, filter_contains_eq_singleton hnames hring hlisted, ?_⟩
  rw [List.map_flatMap, List.nodup_flatMap] at hnames
  exact CoinRing.outputOf?_eq (hnames.1 ring hring) hmember

/-- Every output of a window is listed in one of its rings. -/
theorem exists_ring_of_mem (hmembers : rings.flatMap CoinRing.members = windowOutputs blocks)
    {entry : CoinId × Bytes} (hentry : entry ∈ windowOutputs blocks) :
    ∃ ring ∈ rings, entry.1 ∈ ring.coins := by
  rw [← hmembers] at hentry
  obtain ⟨ring, hring, hmem⟩ := List.mem_flatMap.mp hentry
  exact ⟨ring, hring, List.mem_map_of_mem hmem⟩

/-- A window of at most one output has at most one ring. -/
theorem eq_of_length_windowOutputs_le
    (hmembers : rings.flatMap CoinRing.members = windowOutputs blocks)
    (hone : (windowOutputs blocks).length ≤ 1) :
    ∀ a ∈ rings, ∀ b ∈ rings, a = b := by
  rw [← hmembers] at hone
  match rings with
  | [] => exact fun a ha => nomatch ha
  | [ring] =>
    intro a ha b hb
    rw [List.mem_singleton.mp ha, List.mem_singleton.mp hb]
  | first :: second :: rest =>
    -- Two rings would have two members.
    have hfirst := first.members_pos
    have hsecond := second.members_pos
    rw [List.flatMap_cons, List.flatMap_cons, List.length_append, List.length_append] at hone
    omega

/-- A ring that lists an output of a window knows its bytes. -/
theorem outputOf?_of_window (hmembers : rings.flatMap CoinRing.members = windowOutputs blocks)
    (hnodup : ((windowOutputs blocks).map Prod.fst).Nodup) {ring : CoinRing} (hring : ring ∈ rings)
    {entry : CoinId × Bytes} (hentry : entry ∈ windowOutputs blocks)
    (hlisted : entry.1 ∈ ring.coins) : ring.outputOf? entry.1 = some entry.2 := by
  rw [← hmembers] at hnodup hentry
  obtain ⟨only, honly, houtput⟩ := exists_only_ring hnodup hentry
  have hfound : ring ∈ rings.filter (·.contains entry.1) :=
    List.mem_filter.mpr ⟨hring, (ring.contains_iff entry.1).mpr hlisted⟩
  rw [honly, List.mem_singleton] at hfound
  rw [hfound]
  exact houtput

end HashScheme

end RingWallet
