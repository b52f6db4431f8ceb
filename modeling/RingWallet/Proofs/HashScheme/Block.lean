import RingWallet.HashScheme.Block
import RingWallet.HashScheme.Output
import RingWallet.Proofs.Bytes.Reads

/-!
# Blocks and outputs of the stand-in scheme are read back

A block whose counts and lengths fit their fields is read back from its serialized form, without its
inputs (`decodeBlock_encodeBlock`), and so is every output (`Output.parse_serialize`).
-/

set_option autoImplicit false

namespace RingWallet.HashScheme

/-! ## Blocks -/

/-- The counts and lengths of a transaction fit their fields. -/
structure TxFits (tx : ChainTx) : Prop where
  outputs_le : tx.outputs.length ≤ 255
  output_lt : ∀ output ∈ tx.outputs, output.length < UInt32.size

/-- The counts and lengths of a block fit their fields. -/
structure BlockFits (block : ChainBlock) : Prop where
  txs_le : block.txs.length ≤ 65535
  tx : ∀ tx ∈ block.txs, TxFits tx

/-- A block as rings need it. -/
def outputsOf (block : ChainBlock) : BlockOutputs :=
  ⟨block.height, block.hash, block.txs.map fun tx => (tx.txid, tx.outputs)⟩

theorem readOutput_reads {output : Bytes} (h : output.length < UInt32.size) :
    readOutput.Reads (Bytes.ofNatLE 4 output.length ++ output) output :=
  (ByteReader.Reads.natLE h).bind (.take output)

theorem readTx_reads {tx : ChainTx} (h : TxFits tx) :
    readTx.Reads (txBytes tx) (tx.txid, tx.outputs) := by
  have hcount : tx.outputs.length < UInt8.size := Nat.lt_of_le_of_lt h.outputs_le (by decide)
  have houtputs := ByteReader.Reads.replicate
    (fun output : Bytes => Bytes.ofNatLE 4 output.length ++ output) id
    fun output hmem => readOutput_reads (h.output_lt output hmem)
  rw [List.map_id] at houtputs
  unfold readTx txBytes
  rw [List.append_assoc]
  apply (ByteReader.Reads.fixed tx.txid.digest).bind
  apply (ByteReader.Reads.byte (UInt8.ofNat tx.outputs.length)).bind
  rw [UInt8.toNat_ofNat_of_lt' hcount]
  exact houtputs.bind_pure fun outputs => (tx.txid, outputs)

theorem readBlock_reads {block : ChainBlock} (h : BlockFits block) :
    readBlock.Reads (encodeBlock block) (outputsOf block) := by
  have hcount : block.txs.length < Bytes.count 2 := Nat.lt_of_le_of_lt h.txs_le (by decide)
  have htxs := ByteReader.Reads.replicate txBytes (fun tx : ChainTx => (tx.txid, tx.outputs))
    fun tx hmem => readTx_reads (h.tx tx hmem)
  unfold readBlock encodeBlock
  simp only [List.append_assoc]
  apply (ByteReader.Reads.uint64 block.height).bind
  apply (ByteReader.Reads.fixed block.hash.digest).bind
  apply (ByteReader.Reads.natLE hcount).bind
  exact htxs.bind_pure fun txs => BlockOutputs.mk block.height block.hash txs

theorem decodeBlock_encodeBlock {block : ChainBlock} (h : BlockFits block) :
    decodeBlock (encodeBlock block) = .ok (outputsOf block) := by
  have hread := (readBlock_reads h).runFrom []
  rw [List.append_nil] at hread
  unfold decodeBlock
  rw [hread]
  rfl

/-! ## Outputs -/

namespace Output

theorem length_serialize (output : Output) :
    output.serialize.length = 13 + output.coinAddress.length := by
  simp [serialize]
  omega

/-- An output is read back if the length of its coin address fits its field. -/
theorem parse_serialize {output : Output} (h : output.coinAddress.length < UInt32.size) :
    parse output.serialize = .ok output := by
  have hcode : PrivacyLevel.ofCode? output.level.code = some output.level := by
    cases output.level <;> rfl
  have hlength : Bytes.toNatLE (Bytes.ofNatLE 4 output.coinAddress.length) =
      output.coinAddress.length := Bytes.toNatLE_ofNatLE 4 _ h
  have hvalue : UInt64.ofNat (Bytes.toNatLE (Bytes.ofUInt64 output.value)) = output.value :=
    Bytes.ofUInt64_toNatLE output.value
  unfold parse serialize
  simp only [hcode, List.append_assoc]
  rw [List.take_left' (Bytes.length_ofNatLE 4 _), hlength, if_pos (by simp; omega),
    ← List.drop_drop, List.drop_left' (Bytes.length_ofNatLE 4 _), List.take_left' rfl,
    List.drop_left' rfl, hvalue]

end Output

/-- Bytes are the serialized form of an output with a coin address of less than `2 ^ 31` bytes. -/
inductive IsPlain : Bytes → Prop where
  | intro {output : Output} (hlength : output.coinAddress.length < 2147483648) :
      IsPlain output.serialize

/-- Plain bytes fit their field. -/
theorem IsPlain.length_lt {data : Bytes} (h : IsPlain data) : data.length < UInt32.size := by
  cases h with
  | intro hlength =>
    have hsize : UInt32.size = 4294967296 := rfl
    rw [Output.length_serialize]
    omega

end RingWallet.HashScheme
