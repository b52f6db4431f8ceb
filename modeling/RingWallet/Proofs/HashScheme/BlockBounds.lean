import RingWallet.Proofs.Except
import RingWallet.Proofs.HashScheme.Block

/-!
# The largest blocks that are read back

An output is indexed by one byte, so a transaction whose outputs can all be scanned has up to 256
of them, one more than the one byte of its count can tell (`IsScannable`). A transaction with 256
outputs is read back without any, and the bytes of its outputs are taken for what stands behind it
(`decodeBlock_of_full`).

`scannable_block_read_back_iff` says that this is the only limit: a block that can be scanned is
read back exactly if none of its transactions is that large.
-/

set_option autoImplicit false

namespace RingWallet.HashScheme

/-- A block that can be scanned as a whole, within the field of its transaction count: every output
has an index of one byte and a length that fits its field. -/
structure IsScannable (block : ChainBlock) : Prop where
  txs_le : block.txs.length ≤ 65535
  outputs_le : ∀ tx ∈ block.txs, tx.outputs.length ≤ 256
  output_lt : ∀ tx ∈ block.txs, ∀ output ∈ tx.outputs, output.length < UInt32.size

/-- The transaction has an output for every index there is. -/
def IsFull (tx : ChainTx) : Prop := tx.outputs.length = 256

instance (tx : ChainTx) : Decidable (IsFull tx) := inferInstanceAs (Decidable (_ = _))

section

variable {block : ChainBlock} {front behind : List ChainTx} {full : ChainTx}

theorem IsScannable.txFits (h : IsScannable block) {tx : ChainTx} (hmem : tx ∈ block.txs)
    (hfull : ¬ IsFull tx) : TxFits tx where
  outputs_le := by
    have hle := h.outputs_le tx hmem
    unfold IsFull at hfull
    omega
  output_lt := h.output_lt tx hmem

/-- The identifier and the count of a full transaction are read as a transaction without outputs. -/
theorem readTx_reads_full (h : IsFull full) :
    readTx.Reads (full.txid.bytes ++ [UInt8.ofNat full.outputs.length]) (full.txid, []) := by
  -- 256 outputs are counted as none.
  have hcount : UInt8.ofNat full.outputs.length = 0 := by
    rw [show full.outputs.length = 256 from h]
    rfl
  rw [hcount]
  exact (ByteReader.Reads.fixed full.txid.digest).bind
    ((ByteReader.Reads.byte 0).bind (.pure (full.txid, [])))

/-- Behind the count of a full transaction, reading goes on in the bytes of its outputs. -/
theorem readTxs_of_full (hfront : ∀ tx ∈ front, TxFits tx) (hfull : IsFull full) (count : Nat)
    (position : Nat) (rest : Bytes) :
    ∃ cursor, ByteReader.replicate (front.length + (count + 1)) readTx
        ⟨position, front.flatMap txBytes ++
          (full.txid.bytes ++ [UInt8.ofNat full.outputs.length] ++ rest)⟩ =
      (ByteReader.replicate count readTx cursor).map fun result =>
        (front.map (fun tx => (tx.txid, tx.outputs)) ++ (full.txid, []) :: result.1,
          result.2) := by
  have hreads := ByteReader.Reads.replicate_append txBytes
    (fun tx : ChainTx => (tx.txid, tx.outputs)) (fun tx hmem => readTx_reads (hfront tx hmem))
    (count + 1) position
  rw [hreads, ByteReader.replicate, (readTx_reads_full hfull).bind_apply]
  have hmap : ∀ read : Except Failure (List (TxId × List Bytes) × Cursor),
      Except.map (fun result => (front.map (fun tx => (tx.txid, tx.outputs)) ++ result.1, result.2))
        (read >>= fun result => Except.ok ((full.txid, []) :: result.1, result.2)) =
      read.map fun result =>
        (front.map (fun tx => (tx.txid, tx.outputs)) ++ (full.txid, []) :: result.1, result.2) := by
    intro read
    cases read <;> rfl
  exact ⟨_, hmap (ByteReader.replicate count readTx _)⟩

theorem decodeBlock_eq_map (data : Bytes) :
    decodeBlock data = (ByteReader.runFrom readBlock data).map Prod.fst := by
  unfold decodeBlock
  cases ByteReader.runFrom readBlock data <;> rfl

/-- Behind height, hash and count, a block is read transaction by transaction. -/
theorem decodeBlock_eq (hcount : block.txs.length ≤ 65535) :
    ∃ position, decodeBlock (encodeBlock block) =
      (ByteReader.replicate block.txs.length readTx
        ⟨position, block.txs.flatMap txBytes⟩).map fun result =>
          ⟨block.height, block.hash, result.1⟩ := by
  have hfits : block.txs.length < Bytes.count 2 := Nat.lt_of_le_of_lt hcount (by decide)
  rw [decodeBlock_eq_map]
  unfold ByteReader.runFrom StateT.run readBlock encodeBlock
  simp only [List.append_assoc]
  rw [(ByteReader.Reads.uint64 block.height).bind_apply, HashId.bytes,
    (ByteReader.Reads.fixed block.hash.digest).bind_apply,
    (ByteReader.Reads.natLE hfits).bind_apply]
  have hmap : ∀ read : Except Failure (List (TxId × List Bytes) × Cursor),
      Except.map Prod.fst (read >>= fun result =>
        Except.ok (BlockOutputs.mk block.height ⟨block.hash.digest⟩ result.1, result.2)) =
      read.map fun result => ⟨block.height, block.hash, result.1⟩ := by
    intro read
    cases read <;> rfl
  exact ⟨_, hmap (ByteReader.replicate block.txs.length readTx _)⟩

/-- A block whose first full transaction is known is read as if that had no outputs. -/
theorem decodeBlock_of_full (hcount : block.txs.length ≤ 65535)
    (htxs : block.txs = front ++ full :: behind) (hfront : ∀ tx ∈ front, TxFits tx)
    (hfull : IsFull full) :
    ∃ cursor, decodeBlock (encodeBlock block) =
      (ByteReader.replicate behind.length readTx cursor).map fun result =>
        ⟨block.height, block.hash,
          front.map (fun tx => (tx.txid, tx.outputs)) ++ (full.txid, []) :: result.1⟩ := by
  obtain ⟨position, hdecode⟩ := decodeBlock_eq hcount
  obtain ⟨cursor, hread⟩ := readTxs_of_full hfront hfull behind.length position
    (full.outputs.flatMap (fun output => Bytes.ofNatLE 4 output.length ++ output) ++
      behind.flatMap txBytes)
  have hlength : block.txs.length = front.length + (behind.length + 1) := by simp [htxs]
  have hbytes : block.txs.flatMap txBytes = front.flatMap txBytes ++
      (full.txid.bytes ++ [UInt8.ofNat full.outputs.length] ++
        (full.outputs.flatMap (fun output => Bytes.ofNatLE 4 output.length ++ output) ++
          behind.flatMap txBytes)) := by
    simp [htxs, txBytes]
  refine ⟨cursor, ?_⟩
  rw [hdecode, hlength, hbytes, hread]
  cases ByteReader.replicate behind.length readTx cursor <;> rfl

/-- A block with a full transaction is not read back. -/
theorem decodeBlock_ne_of_full (hcount : block.txs.length ≤ 65535)
    (htxs : block.txs = front ++ full :: behind) (hfront : ∀ tx ∈ front, TxFits tx)
    (hfull : IsFull full) : decodeBlock (encodeBlock block) ≠ .ok (outputsOf block) := by
  intro hback
  obtain ⟨cursor, hread⟩ := decodeBlock_of_full hcount htxs hfront hfull
  rw [hread, map_eq_ok_iff] at hback
  obtain ⟨result, -, hsame⟩ := hback
  -- The two lists of transactions differ where the full transaction stands.
  have htail := congrArg BlockOutputs.txs hsame
  rw [outputsOf, htxs, List.map_append, List.append_cancel_left_eq, List.map_cons] at htail
  have hnone : [] = full.outputs := congrArg Prod.snd (List.cons.inj htail).1
  rw [IsFull, ← hnone] at hfull
  cases hfull

/-- Transactions among which some are full have a first one. -/
theorem exists_first_full {txs : List ChainTx} (h : ∃ tx ∈ txs, IsFull tx) :
    ∃ front full behind, txs = front ++ full :: behind ∧ (∀ tx ∈ front, ¬ IsFull tx) ∧
      IsFull full := by
  obtain ⟨tx, hmem, hfull⟩ := h
  have hsome : (txs.find? fun tx => decide (IsFull tx)).isSome = true :=
    List.find?_isSome.mpr ⟨tx, hmem, decide_eq_true hfull⟩
  obtain ⟨first, hfirst⟩ := Option.isSome_iff_exists.mp hsome
  obtain ⟨hfirstFull, front, behind, htxs, hfront⟩ := List.find?_eq_some_iff_append.mp hfirst
  exact ⟨front, first, behind, htxs, by simpa using hfront, of_decide_eq_true hfirstFull⟩

/-- A block that can be scanned is read back exactly if none of its transactions has 256 outputs.

Otherwise the first of these is read without outputs, behind the transactions in front of it as they
are. If it is the last of the block, reading even succeeds with that. -/
theorem scannable_block_read_back_iff (h : IsScannable block) :
    (decodeBlock (encodeBlock block) = .ok (outputsOf block) ↔
      ∀ tx ∈ block.txs, tx.outputs.length ≠ 256) ∧
    ∀ front full behind, block.txs = front ++ full :: behind →
      (∀ tx ∈ front, tx.outputs.length ≠ 256) → full.outputs.length = 256 →
      let known := front.map (fun tx => (tx.txid, tx.outputs)) ++ [(full.txid, [])]
      (∀ decoded, decodeBlock (encodeBlock block) = .ok decoded → ∃ others,
        decoded = ⟨block.height, block.hash, known ++ others⟩) ∧
      (behind = [] → decodeBlock (encodeBlock block) = .ok ⟨block.height, block.hash, known⟩) := by
  have hfits : ∀ {front full behind}, block.txs = front ++ full :: behind →
      (∀ tx ∈ front, ¬ IsFull tx) → ∀ tx ∈ front, TxFits tx := fun htxs hfront tx hmem =>
    h.txFits (htxs ▸ List.mem_append_left _ hmem) (hfront tx hmem)
  refine ⟨⟨fun hback => ?_, fun hsmall => ?_⟩, fun front full behind htxs hfront hfull => ?_⟩
  · by_contra hnot
    push Not at hnot
    -- The transactions in front of the first full one fit, so reading gets as far as that.
    obtain ⟨front, full, behind, htxs, hfront, hfull⟩ := exists_first_full hnot
    exact decodeBlock_ne_of_full h.txs_le htxs (hfits htxs hfront) hfull hback
  · exact decodeBlock_encodeBlock ⟨h.txs_le, fun tx hmem => h.txFits hmem (hsmall tx hmem)⟩
  · obtain ⟨cursor, hread⟩ := decodeBlock_of_full h.txs_le htxs (hfits htxs hfront) hfull
    rw [hread]
    refine ⟨fun decoded hdecoded => ?_, fun hlast => ?_⟩
    · obtain ⟨result, -, rfl⟩ := map_eq_ok_iff.mp hdecoded
      exact ⟨result.1, by rw [List.append_assoc, List.singleton_append]⟩
    · subst hlast
      rfl

end

/-- A block of one transaction with a number of empty outputs. -/
def blockOfEmpty (count : Nat) : ChainBlock :=
  ⟨0, .zero .block, none, [⟨.zero .transaction, 1, [], List.replicate count []⟩]⟩

theorem length_outputs_of_mem_blockOfEmpty {count : Nat} {tx : ChainTx}
    (hmem : tx ∈ (blockOfEmpty count).txs) : tx.outputs.length = count := by
  obtain rfl := List.mem_singleton.mp hmem
  exact List.length_replicate

theorem isScannable_blockOfEmpty {count : Nat} (h : count ≤ 256) :
    IsScannable (blockOfEmpty count) where
  txs_le := by
    change 1 ≤ 65535
    decide
  outputs_le tx hmem := Nat.le_trans (Nat.le_of_eq (length_outputs_of_mem_blockOfEmpty hmem)) h
  output_lt tx hmem output houtput := by
    rw [List.mem_singleton.mp hmem] at houtput
    rw [(List.mem_replicate.mp houtput).2]
    decide

/-- With 255 outputs the block is read back, and with 256 it is read without any. -/
theorem empty_outputs_read_back :
    decodeBlock (encodeBlock (blockOfEmpty 255)) = .ok (outputsOf (blockOfEmpty 255)) ∧
      decodeBlock (encodeBlock (blockOfEmpty 256)) =
        .ok ⟨0, .zero .block, [(.zero .transaction, [])]⟩ := by
  have hfits := scannable_block_read_back_iff (isScannable_blockOfEmpty (show 255 ≤ 256 by decide))
  have hfull := scannable_block_read_back_iff (isScannable_blockOfEmpty (show 256 ≤ 256 by decide))
  refine ⟨hfits.1.mpr fun tx hmem => ?_, ?_⟩
  · rw [length_outputs_of_mem_blockOfEmpty hmem]
    decide
  · exact (hfull.2 [] _ [] rfl (fun _ hmem => nomatch hmem)
      (length_outputs_of_mem_blockOfEmpty List.mem_cons_self)).2 rfl

/-- Not every block that can be scanned is read back. -/
theorem not_every_scannable_block_read_back :
    ¬ ∀ block, IsScannable block → decodeBlock (encodeBlock block) = .ok (outputsOf block) := by
  intro h
  have hscannable : IsScannable (blockOfEmpty 256) := isScannable_blockOfEmpty (Nat.le_refl 256)
  have htxs : (blockOfEmpty 256).txs =
      [] ++ ⟨.zero .transaction, 1, [], List.replicate 256 []⟩ :: [] := rfl
  have hfull : IsFull ⟨.zero .transaction, 1, [], List.replicate 256 []⟩ := List.length_replicate
  exact decodeBlock_ne_of_full hscannable.txs_le htxs (fun _ hmem => nomatch hmem) hfull
    (h _ hscannable)

end RingWallet.HashScheme
