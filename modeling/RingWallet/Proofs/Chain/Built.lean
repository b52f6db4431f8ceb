import Mathlib.Data.List.Flatten
import RingWallet.LocalChain
import RingWallet.Proofs.Chain.Windows
import RingWallet.Proofs.HashScheme.Rings
import RingWallet.Proofs.Outcome

/-!
# Chains that are built by pushing

A chain is built by pushing blocks whose outputs are outputs of the stand-in scheme and whose counts
and lengths fit their fields (`LocalChain.Built`). Its blocks stand at their heights
(`Built.plainBlock`). If all transactions of the chain have different identifiers, the chain is
short enough for heights to be told apart (`Built.length_le`), the blocks of every complete window can
be fetched (`fetchGroup_answers`), and they form rings that list the outputs of the window
(`Built.exists_windowRings`).
-/

set_option autoImplicit false

namespace RingWallet

/-! ## Pushed blocks -/

/-- Outputs of the stand-in scheme whose count and lengths fit their fields. -/
structure PlainOutputs (outputs : List Bytes) : Prop where
  length_le : outputs.length ≤ 255
  plain : ∀ data ∈ outputs, HashScheme.IsPlain data

namespace LocalChain

/-- Chains that are built by pushing blocks of plain outputs. -/
inductive Built : LocalChain → Prop where
  | empty : Built .empty
  | push {chain : LocalChain} {coinbase : List Bytes} {txs : List NewTx} (hchain : Built chain)
      (hcoinbase : PlainOutputs coinbase) (htxs : ∀ tx ∈ txs, PlainOutputs tx.outputs)
      (hcount : txs.length + 1 ≤ 65535) : Built (chain.push coinbase txs)

/-- What is known of the block at a place of a built chain. -/
structure PlainBlock (place : Nat) (block : ChainBlock) : Prop where
  height_eq : block.height = UInt64.ofNat place
  txs_le : block.txs.length ≤ 65535
  coinbase : ∃ tx ∈ block.txs, tx.txid = txidAt (UInt64.ofNat place) 0
  version_eq : ∀ tx ∈ block.txs, tx.version = txVersion
  outputs : ∀ tx ∈ block.txs, PlainOutputs tx.outputs

theorem plainBlock_nextBlock {chain : LocalChain} {coinbase : List Bytes} {txs : List NewTx}
    (hcoinbase : PlainOutputs coinbase) (htxs : ∀ tx ∈ txs, PlainOutputs tx.outputs)
    (hcount : txs.length + 1 ≤ 65535) :
    PlainBlock chain.blocks.length (chain.nextBlock coinbase txs) := by
  -- Every transaction of the block is one of those pushed, at some place.
  have hpushed : ∀ tx ∈ (chain.nextBlock coinbase txs).txs,
      ∃ pushed ∈ (⟨[], coinbase⟩ :: txs : List NewTx), tx.version = txVersion ∧
        tx.outputs = pushed.outputs := by
    intro tx htx
    obtain ⟨⟨pushed, place⟩, hmem, rfl⟩ := List.mem_map.mp htx
    exact ⟨pushed, List.mem_of_getElem? (List.mem_zipIdx_iff_getElem?.mp hmem), rfl, rfl⟩
  constructor
  · rfl
  · unfold nextBlock
    rw [List.length_map, List.length_zipIdx, List.length_cons]
    exact hcount
  · refine ⟨_, List.mem_map_of_mem (a := (⟨[], coinbase⟩, 0)) ?_, rfl⟩
    exact List.mem_zipIdx_iff_getElem?.mpr rfl
  · intro tx htx
    obtain ⟨_, -, hversion, -⟩ := hpushed tx htx
    exact hversion
  · intro tx htx
    obtain ⟨pushed, hmem, -, houtputs⟩ := hpushed tx htx
    rw [houtputs]
    rcases List.mem_cons.mp hmem with rfl | hmem
    · exact hcoinbase
    · exact htxs pushed hmem

variable {chain : LocalChain} {place : Nat} {block : ChainBlock}

theorem Built.plainBlock (h : chain.Built) (hblock : chain.blocks[place]? = some block) :
    PlainBlock place block := by
  induction h generalizing place block with
  | empty => cases hblock
  | @push chain coinbase txs hchain hcoinbase htxs hcount ih =>
    change (chain.blocks ++ [chain.nextBlock coinbase txs])[place]? = some block at hblock
    rcases Nat.lt_or_ge place chain.blocks.length with hold | hnew
    · rw [List.getElem?_append_left hold] at hblock
      exact ih hblock
    · rw [List.getElem?_append_right hnew, List.getElem?_singleton] at hblock
      split at hblock
      · rename_i hzero
        cases hblock
        have hplace : place = chain.blocks.length := by omega
        rw [hplace]
        exact plainBlock_nextBlock hcoinbase htxs hcount
      · cases hblock

/-- Plain outputs fit their fields. -/
theorem PlainBlock.fits (h : PlainBlock place block) : HashScheme.BlockFits block where
  txs_le := h.txs_le
  tx tx htx := {
    outputs_le := (h.outputs tx htx).length_le
    output_lt := fun data hdata => ((h.outputs tx htx).plain data hdata).length_lt }

/-- The identifiers of all transactions differ. -/
def DistinctTxids (chain : LocalChain) : Prop :=
  ((chain.blocks.flatMap (·.txs)).map (·.txid)).Nodup

/-- Blocks at different places share no transaction. -/
theorem DistinctTxids.ne (h : chain.DistinctTxids) {other : Nat} {otherBlock : ChainBlock}
    (hlt : place < other) (hblock : chain.blocks[place]? = some block)
    (hother : chain.blocks[other]? = some otherBlock) {tx otherTx : ChainTx}
    (htx : tx ∈ block.txs) (hotherTx : otherTx ∈ otherBlock.txs) : tx.txid ≠ otherTx.txid := by
  unfold DistinctTxids at h
  rw [List.map_flatMap, List.nodup_flatMap] at h
  obtain ⟨hplace, rfl⟩ := List.getElem?_eq_some_iff.mp hblock
  obtain ⟨hotherPlace, rfl⟩ := List.getElem?_eq_some_iff.mp hother
  have hdisjoint := List.pairwise_iff_getElem.mp h.2 place other hplace hotherPlace hlt
  intro heq
  exact hdisjoint (List.mem_map_of_mem htx) (heq ▸ List.mem_map_of_mem hotherTx)

/-- Heights tell the blocks of a built chain apart, since coinbase transactions are named by
them. -/
theorem Built.length_le (h : chain.Built) (htxids : chain.DistinctTxids) :
    chain.blocks.length ≤ UInt64.size := by
  by_contra hlong
  have hlast : UInt64.size < chain.blocks.length := by omega
  have hfirst : 0 < chain.blocks.length := by omega
  obtain ⟨tx, htx, htxid⟩ := (h.plainBlock (List.getElem?_eq_getElem hfirst)).coinbase
  obtain ⟨other, hother, hotherTxid⟩ := (h.plainBlock (List.getElem?_eq_getElem hlast)).coinbase
  have hwrap : UInt64.ofNat UInt64.size = UInt64.ofNat 0 := rfl
  refine htxids.ne (by decide) (List.getElem?_eq_getElem hfirst) (List.getElem?_eq_getElem hlast)
    htx hother ?_
  rw [htxid, hotherTxid, hwrap]

/-! ## Windows of blocks -/

/-- The blocks of a chain from a place on. -/
def window (chain : LocalChain) (start count : Nat) : List ChainBlock :=
  (chain.blocks.drop start).take count

theorem mem_window_iff (chain : LocalChain) (start count : Nat) (block : ChainBlock) :
    block ∈ chain.window start count ↔
      ∃ place, start ≤ place ∧ place < start + count ∧ chain.blocks[place]? = some block := by
  unfold window
  rw [List.mem_iff_getElem?]
  simp only [List.getElem?_take, List.getElem?_drop]
  constructor
  · rintro ⟨offset, h⟩
    split at h
    · exact ⟨start + offset, by omega, by omega, h⟩
    · cases h
  · rintro ⟨place, hstart, hend, h⟩
    refine ⟨place - start, ?_⟩
    rw [if_pos (by omega), Nat.add_sub_cancel' hstart]
    exact h

theorem DistinctTxids.window (h : chain.DistinctTxids) (start count : Nat) :
    (((chain.window start count).flatMap (·.txs)).map (·.txid)).Nodup := by
  have hsub : (chain.window start count).Sublist chain.blocks :=
    (List.take_sublist _ _).trans (List.drop_sublist _ _)
  exact ((hsub.flatMap _).map _).nodup h

/-- The source of a chain gives every block at its height. -/
theorem require_answers {σ : Type} (hlength : chain.blocks.length ≤ UInt64.size)
    (hblock : chain.blocks[place]? = some block) :
    Answers ((chain.source : BlockSource σ).require (UInt64.ofNat place))
      (HashScheme.encodeBlock block) := by
  obtain ⟨hplace, -⟩ := List.getElem?_eq_some_iff.mp hblock
  have hfound : chain.block? (UInt64.ofNat place) = some block := by
    unfold block?
    rw [UInt64.toNat_ofNat_of_lt' (by omega)]
    exact hblock
  have hfetch : Answers ((chain.source : BlockSource σ).fetch (UInt64.ofNat place))
      (HashScheme.encodeBlock block) := by
    unfold source
    dsimp only
    rw [hfound]
    exact .pure _
  exact hfetch.adapt _

theorem fetchAll_answers {σ : Type} (hlength : chain.blocks.length ≤ UInt64.size)
    {start count : Nat} (hend : start + count ≤ chain.blocks.length) :
    Answers ((chain.source : BlockSource σ).fetchAll
        ((List.range' start count).map UInt64.ofNat))
      ((chain.window start count).map HashScheme.encodeBlock) := by
  induction count generalizing start with
  | zero => exact .pure []
  | succ count ih =>
    have hstart : start < chain.blocks.length := by omega
    have hfirst := require_answers (σ := σ) hlength (List.getElem?_eq_getElem hstart)
    have hwindow : chain.window start (count + 1) =
        chain.blocks[start] :: chain.window (start + 1) count := by
      unfold window
      rw [List.drop_eq_getElem_cons hstart, List.take_succ_cons]
    rw [hwindow, List.range'_succ]
    unfold BlockSource.fetchAll
    exact hfirst.bind ((ih (by omega)).bind (.pure _))

/-- The first place of the window that holds a place. -/
def windowStart (params : ChainParams) (place : Nat) : Nat := place - place % params.groupSize

/-- The block at a place of a window is one of the window's blocks. -/
theorem mem_window_of_le (params : ChainParams) (place : Nat) {other : Nat}
    (hfrom : windowStart params place ≤ other) (hto : other ≤ params.windowEnd place)
    (hblock : chain.blocks[other]? = some block) :
    block ∈ chain.window (windowStart params place) params.groupSize := by
  have hpos := params.groupSize_pos
  rw [params.windowEnd_eq] at hto
  refine (chain.mem_window_iff _ _ block).mpr ⟨other, hfrom, ?_, hblock⟩
  unfold windowStart
  omega

/-- The blocks of a complete window form rings, which list the outputs of the window, and all of
these have different names. -/
theorem Built.exists_windowRings (h : chain.Built) (htxids : chain.DistinctTxids)
    {params : ChainParams} (hend : params.windowEnd place < chain.blocks.length) :
    ∃ rings,
      HashScheme.buildRings ((chain.window (windowStart params place) params.groupSize).map
        HashScheme.encodeBlock) = .ok rings ∧
      rings.flatMap CoinRing.members =
        HashScheme.windowOutputs (chain.window (windowStart params place) params.groupSize) ∧
      ((HashScheme.windowOutputs (chain.window (windowStart params place)
        params.groupSize)).map Prod.fst).Nodup := by
  have hpos := params.groupSize_pos
  have hfits : ∀ block ∈ chain.window (windowStart params place) params.groupSize,
      HashScheme.BlockFits block := by
    intro block hmem
    obtain ⟨blockPlace, -, -, hblock⟩ := (chain.mem_window_iff _ _ block).mp hmem
    exact (h.plainBlock hblock).fits
  have hcount : (chain.window (windowStart params place) params.groupSize).length =
      params.groupSize := by
    rw [params.windowEnd_eq] at hend
    unfold window windowStart
    rw [List.length_take, List.length_drop]
    omega
  have hsome : chain.window (windowStart params place) params.groupSize ≠ [] := by
    intro hnil
    rw [hnil, List.length_nil] at hcount
    omega
  have hfew : (chain.window (windowStart params place) params.groupSize).length ≤ 255 := by
    rw [hcount]
    exact params.groupSize_le
  obtain ⟨rings, hrings, hmembers⟩ := HashScheme.exists_buildRings hsome hfew hfits
  exact ⟨rings, hrings, hmembers, HashScheme.nodup_windowOutputs (htxids.window _ _) hfits⟩

/-- The blocks of a window are given once the window is complete. -/
theorem fetchGroup_answers {σ : Type} (hlength : chain.blocks.length ≤ UInt64.size)
    (params : ChainParams) (hend : params.windowEnd place < chain.blocks.length) :
    Answers (fetchGroup (chain.source : BlockSource σ) params (UInt64.ofNat place))
      ((chain.window (windowStart params place) params.groupSize).map HashScheme.encodeBlock) := by
  have hle := params.le_windowEnd place
  have hpos := params.groupSize_pos
  unfold fetchGroup
  rw [params.groupHeights_eq (by omega)]
  apply fetchAll_answers hlength
  rw [params.windowEnd_eq] at hend
  omega

end LocalChain

end RingWallet
