import Mathlib.Data.List.Nodup
import RingWallet.Node.ChainView
import RingWallet.Proofs.Hex

/-!
# What the messages of a node stand for

A message stands for a transaction or a block of the chain if its texts spell the identifiers and
the bytes there (`TxMessage.ReadsAs`, `BlockMessage.ReadsAs`). The outputs of a transaction come in
any order, but their indices must count from zero without a gap (`TxMessage.Numbered`), and an output
goes to the place that its index says.

`conversion_exact` says that messages are converted to exactly what they stand for, when there is
anything they stand for, and that the order of the outputs plays no part, in failures either. A
failure for the indices is about the sorted indices alone, and outputs with different indices are
sorted in one way only.
-/

set_option autoImplicit false

namespace RingWallet.Node

/-! ## Texts -/

theorem parseId_eq_ok_iff {kind : IdKind} {text : String} {id : HashId kind} :
    parseId kind text = .ok id ↔ Hex.Spells text id.bytes :=
  mapError_eq_ok_iff.trans HashId.ofHex_eq_ok_iff

theorem exists_parseId_iff {kind : IdKind} {text : String} :
    (∃ id, parseId kind text = .ok id) ↔ Hex.IsDigits 32 text := by
  simp only [parseId_eq_ok_iff, ← HashId.ofHex_eq_ok_iff, HashId.exists_ofHex_eq_ok_iff]

theorem parseBytes_eq_ok_iff {text : String} {bytes : Bytes} :
    parseBytes text = .ok bytes ↔ Hex.Spells text bytes :=
  mapError_eq_ok_iff.trans Hex.decode_eq_ok_iff

theorem exists_parseBytes_iff {text : String} :
    (∃ bytes, parseBytes text = .ok bytes) ↔ ∃ count, Hex.IsDigits count text := by
  simp only [parseBytes_eq_ok_iff, ← Hex.decode_eq_ok_iff, Hex.exists_decode_eq_ok_iff]

/-! ## Inputs -/

namespace InputMessage

/-- What an input stands for: its ring and the hashes of its blocks, in order, and its serial
number. -/
structure ReadsAs (input : InputMessage) (chain : ChainInput) : Prop where
  ring : List.Forall₂ (fun point coin => Hex.Spells point.txid coin.txid.bytes ∧
    coin.index = point.index) input.ring.outPoints chain.ring
  blockHashes : List.Forall₂ (fun text hash => Hex.Spells text hash.bytes)
    input.ring.blockHashes chain.blockHashes
  serialNumber : Hex.Spells input.serialNumber chain.serialNumber

/-- An input whose identifiers have 64 digits each, with a serial number of whole bytes. -/
structure IsReadable (input : InputMessage) : Prop where
  ring : ∀ point ∈ input.ring.outPoints, Hex.IsDigits 32 point.txid
  blockHashes : ∀ text ∈ input.ring.blockHashes, Hex.IsDigits 32 text
  serialNumber : ∃ count, Hex.IsDigits count input.serialNumber

end InputMessage

/-- A ring member of an input. -/
def OutPoint.toChain (point : OutPoint) : Except NodeError CoinId := do
  return CoinId.mk (← parseId .transaction point.txid) point.index

theorem OutPoint.toChain_eq_ok_iff {point : OutPoint} {coin : CoinId} :
    point.toChain = .ok coin ↔
      Hex.Spells point.txid coin.txid.bytes ∧ coin.index = point.index := by
  unfold toChain
  rw [bind_eq_ok_iff]
  simp only [parseId_eq_ok_iff]
  constructor
  · rintro ⟨txid, hspells, h⟩
    cases h
    exact ⟨hspells, rfl⟩
  · rintro ⟨hspells, hindex⟩
    refine ⟨coin.txid, hspells, ?_⟩
    rw [← hindex]
    rfl

theorem OutPoint.exists_toChain_iff {point : OutPoint} :
    (∃ coin, point.toChain = .ok coin) ↔ Hex.IsDigits 32 point.txid := by
  unfold toChain
  rw [exists_bind_eq_ok_iff fun txid => exists_pure_eq_ok_iff, exists_parseId_iff, and_true]

theorem InputMessage.toChain_eq (input : InputMessage) :
    input.toChain = (do
      let ring ← input.ring.outPoints.mapM OutPoint.toChain
      let blockHashes ← input.ring.blockHashes.mapM (parseId .block)
      let serialNumber ← parseBytes input.serialNumber
      return ⟨serialNumber, ring, blockHashes⟩) :=
  rfl

theorem InputMessage.toChain_eq_ok_iff {input : InputMessage} {chain : ChainInput} :
    input.toChain = .ok chain ↔ input.ReadsAs chain := by
  rw [toChain_eq]
  simp only [bind_eq_ok_iff, mapM_eq_ok_iff, OutPoint.toChain_eq_ok_iff, parseId_eq_ok_iff,
    parseBytes_eq_ok_iff]
  constructor
  · rintro ⟨ring, hring, blockHashes, hhashes, serialNumber, hserial, h⟩
    cases h
    exact ⟨hring, hhashes, hserial⟩
  · rintro ⟨hring, hhashes, hserial⟩
    exact ⟨_, hring, _, hhashes, _, hserial, rfl⟩

theorem InputMessage.exists_toChain_iff {input : InputMessage} :
    (∃ chain, input.toChain = .ok chain) ↔ input.IsReadable := by
  rw [toChain_eq, exists_bind_eq_ok_iff fun ring => exists_bind_eq_ok_iff fun hashes =>
    exists_bind_eq_ok_iff fun number => exists_pure_eq_ok_iff]
  simp only [exists_mapM_eq_ok_iff, OutPoint.exists_toChain_iff, exists_parseId_iff,
    exists_parseBytes_iff, and_true]
  constructor
  · rintro ⟨hring, hhashes, hserial⟩
    exact ⟨hring, hhashes, hserial⟩
  · rintro ⟨hring, hhashes, hserial⟩
    exact ⟨hring, hhashes, hserial⟩

/-! ## Outputs in order -/

namespace TxMessage

/-- The indices of the outputs count from zero without a gap, in any order. -/
def Numbered (tx : TxMessage) : Prop :=
  (tx.outputs.map fun output => output.index.toInt).Perm
    ((List.range tx.outputs.length).map Int.ofNat)

/-- No output is misplaced if the indices count up from the first place. -/
theorem misplaced?_eq_none_iff {place : Nat} {outputs : List OutputMessage} :
    misplaced? place outputs = none ↔
      (outputs.map fun output => output.index.toInt) =
        (List.range' place outputs.length).map Int.ofNat := by
  induction outputs generalizing place with
  | nil => simp [misplaced?]
  | cons output rest ih =>
    rw [misplaced?, List.map_cons, List.length_cons, List.range'_succ, List.map_cons,
      List.cons.injEq]
    split
    · rename_i hindex
      rw [ih]
      exact (and_iff_right hindex).symm
    · rename_i hindex
      exact iff_of_false nofun fun h => hindex h.1

/-- The first misplaced output is found by the indices alone. -/
theorem misplaced?_congr (place : Nat) {outputs others : List OutputMessage}
    (h : outputs.map (·.index) = others.map (·.index)) :
    (misplaced? place outputs).map (fun found => (found.1, found.2.index)) =
      (misplaced? place others).map (fun found => (found.1, found.2.index)) := by
  induction outputs generalizing place others with
  | nil =>
    cases List.map_eq_nil_iff.mp h.symm
    rfl
  | cons output rest ih =>
    obtain ⟨other, others, rfl, hindex, hrest⟩ := List.map_eq_cons_iff.mp h.symm
    rw [misplaced?, misplaced?, hindex]
    split
    · exact ih _ hrest.symm
    · rw [Option.map_some, Option.map_some, hindex]

section

variable (tx : TxMessage)

theorem sortedOutputs_perm : tx.sortedOutputs.Perm tx.outputs := List.mergeSort_perm _ _

theorem sortedOutputs_pairwise : tx.sortedOutputs.Pairwise fun a b => a.index ≤ b.index := by
  have htrans : ∀ a b c : OutputMessage, decide (a.index ≤ b.index) = true →
      decide (b.index ≤ c.index) = true → decide (a.index ≤ c.index) = true := by
    intro a b c hab hbc
    exact decide_eq_true (Int64.le_trans (of_decide_eq_true hab) (of_decide_eq_true hbc))
  have htotal : ∀ a b : OutputMessage,
      (decide (a.index ≤ b.index) || decide (b.index ≤ a.index)) = true := by
    intro a b
    rw [Bool.or_eq_true, decide_eq_true_eq, decide_eq_true_eq]
    exact Int64.le_total a.index b.index
  exact (List.pairwise_mergeSort htrans htotal tx.outputs).imp of_decide_eq_true

/-- Sorted outputs are in place exactly if the indices count from zero in some order. -/
theorem misplaced?_sortedOutputs_iff : misplaced? 0 tx.sortedOutputs = none ↔ tx.Numbered := by
  have hperm := tx.sortedOutputs_perm.map fun output => output.index.toInt
  rw [misplaced?_eq_none_iff, tx.sortedOutputs_perm.length_eq, ← List.range_eq_range']
  constructor
  · intro h
    exact hperm.symm.trans (.of_eq h)
  · intro h
    -- Both lists ascend, and there is only one way to put their members in order.
    refine (hperm.trans h).eq_of_pairwise (fun a b _ _ => Int.le_antisymm) ?_ ?_
    · rw [List.pairwise_map]
      exact tx.sortedOutputs_pairwise.imp Int64.le_iff_toInt_le.mp
    · rw [List.pairwise_map]
      exact List.pairwise_lt_range.imp fun h => Int.ofNat_le.mpr (Nat.le_of_lt h)

/-- Outputs that come in another order are sorted by the same indices. -/
theorem map_index_sortedOutputs {outputs : List OutputMessage} (h : outputs.Perm tx.outputs) :
    ({ tx with outputs } : TxMessage).sortedOutputs.map (·.index) =
      tx.sortedOutputs.map (·.index) := by
  have hperm := (sortedOutputs_perm { tx with outputs }).trans (h.trans tx.sortedOutputs_perm.symm)
  refine (hperm.map _).eq_of_pairwise (fun a b _ _ => Int64.le_antisymm) ?_ ?_
  · rw [List.pairwise_map]
    exact sortedOutputs_pairwise _
  · rw [List.pairwise_map]
    exact tx.sortedOutputs_pairwise

theorem Numbered.eq_of_index {tx : TxMessage} (h : tx.Numbered) {a b : OutputMessage}
    (ha : a ∈ tx.outputs) (hb : b ∈ tx.outputs) (hindex : a.index = b.index) : a = b := by
  have hnodup : (tx.outputs.map fun output => output.index.toInt).Nodup :=
    h.nodup_iff.mpr (List.Nodup.map (fun _ _ => Int.ofNat.inj) List.nodup_range)
  exact List.inj_on_of_nodup_map hnodup ha hb (congrArg Int64.toInt hindex)

/-- Numbered outputs are sorted in one way, in whatever order they come. -/
theorem Numbered.sortedOutputs_eq {tx : TxMessage} (hnumbered : tx.Numbered)
    {outputs : List OutputMessage} (h : outputs.Perm tx.outputs) :
    ({ tx with outputs } : TxMessage).sortedOutputs = tx.sortedOutputs := by
  have hperm := (sortedOutputs_perm { tx with outputs }).trans (h.trans tx.sortedOutputs_perm.symm)
  refine hperm.eq_of_pairwise (fun a b ha hb hab hba => ?_) (sortedOutputs_pairwise _)
    tx.sortedOutputs_pairwise
  have hindex := Int64.le_antisymm hab hba
  refine hnumbered.eq_of_index ?_ (tx.sortedOutputs_perm.mem_iff.mp hb) hindex
  exact h.mem_iff.mp ((sortedOutputs_perm { tx with outputs }).mem_iff.mp ha)

/-- Every output of a numbered transaction is sorted to the place of its index. -/
theorem Numbered.index_eq {tx : TxMessage} (h : tx.Numbered) {place : Nat}
    {output : OutputMessage} (houtput : tx.sortedOutputs[place]? = some output) :
    output.index.toInt = place := by
  have hindices := misplaced?_eq_none_iff.mp (tx.misplaced?_sortedOutputs_iff.mpr h)
  obtain ⟨hlt, -⟩ := List.getElem?_eq_some_iff.mp houtput
  have hplace := congrArg (·[place]?) hindices
  simp only [List.getElem?_map, houtput, Option.map_some, List.getElem?_range' hlt] at hplace
  rw [Option.some.inj hplace]
  exact congrArg Int.ofNat (by omega)

end

end TxMessage

/-! ## Transactions -/

namespace TxMessage

/-- What a transaction stands for: its inputs in order, and its outputs at the places of their
indices. -/
structure ReadsAs (tx : TxMessage) (chain : ChainTx) : Prop where
  numbered : tx.Numbered
  txid : Hex.Spells tx.txid chain.txid.bytes
  version : chain.version = tx.version
  inputs : List.Forall₂ InputMessage.ReadsAs tx.inputs chain.inputs
  length_outputs : tx.outputs.length = chain.outputs.length
  outputs : ∀ output ∈ tx.outputs, ∀ place : Nat, output.index.toInt = place →
    ∃ script, chain.outputs[place]? = some script ∧ Hex.Spells output.script script

/-- A transaction whose outputs are numbered and whose texts can be read. -/
structure IsReadable (tx : TxMessage) : Prop where
  numbered : tx.Numbered
  txid : Hex.IsDigits 32 tx.txid
  inputs : ∀ input ∈ tx.inputs, input.IsReadable
  outputs : ∀ output ∈ tx.outputs, ∃ count, Hex.IsDigits count output.script

/-- The conversion of a transaction with its outputs in a given order. -/
def convertWith (tx : TxMessage) (outputs : List OutputMessage) : Except NodeError ChainTx := do
  let txid ← parseId .transaction tx.txid
  let inputs ← tx.inputs.mapM InputMessage.toChain
  let scripts ← outputs.mapM fun output => parseBytes output.script
  return ⟨txid, tx.version, inputs, scripts⟩

theorem toChain_eq (tx : TxMessage) :
    tx.toChain =
      match (misplaced? 0 tx.sortedOutputs).map (fun found => (found.1, found.2.index)) with
      | some (place, index) => .error (.conversion (.outputIndex tx.txid place index))
      | none => tx.convertWith tx.sortedOutputs := by
  unfold toChain
  dsimp only
  cases misplaced? 0 tx.sortedOutputs <;> rfl

theorem toChain_of_numbered {tx : TxMessage} (h : tx.Numbered) :
    tx.toChain = tx.convertWith tx.sortedOutputs := by
  rw [toChain_eq, tx.misplaced?_sortedOutputs_iff.mpr h]
  rfl

theorem numbered_of_toChain {tx : TxMessage} {chain : ChainTx} (h : tx.toChain = .ok chain) :
    tx.Numbered := by
  rw [toChain_eq] at h
  rw [← misplaced?_sortedOutputs_iff]
  cases hmisplaced : misplaced? 0 tx.sortedOutputs with
  | none => rfl
  | some found =>
    rw [hmisplaced] at h
    cases h

/-- The order of the outputs plays no part. -/
theorem toChain_eq_of_perm {tx : TxMessage} {outputs : List OutputMessage}
    (h : outputs.Perm tx.outputs) : ({ tx with outputs } : TxMessage).toChain = tx.toChain := by
  have hfound := misplaced?_congr 0 (tx.map_index_sortedOutputs h)
  rw [toChain_eq, toChain_eq, hfound]
  cases hmisplaced : misplaced? 0 tx.sortedOutputs with
  | none =>
    have hnumbered := tx.misplaced?_sortedOutputs_iff.mp hmisplaced
    change convertWith _ _ = tx.convertWith tx.sortedOutputs
    rw [hnumbered.sortedOutputs_eq h]
    rfl
  | some found => rfl

/-- The scripts of sorted outputs stand at the places of their indices. -/
theorem Numbered.forall₂_scripts_iff {tx : TxMessage} (h : tx.Numbered) {scripts : List Bytes} :
    List.Forall₂ (fun output script => Hex.Spells output.script script) tx.sortedOutputs scripts ↔
      tx.outputs.length = scripts.length ∧ ∀ output ∈ tx.outputs, ∀ place : Nat,
        output.index.toInt = place →
          ∃ script, scripts[place]? = some script ∧ Hex.Spells output.script script := by
  have hperm := tx.sortedOutputs_perm
  rw [List.forall₂_iff_get, ← hperm.length_eq]
  refine and_congr_right fun hlength => ?_
  constructor
  · intro hspells output hmem place hindex
    obtain ⟨sortedPlace, houtput⟩ := List.mem_iff_getElem?.mp (hperm.mem_iff.mpr hmem)
    -- The place among the sorted outputs is the index.
    cases Int.ofNat.inj (hindex.symm.trans (h.index_eq houtput))
    obtain ⟨hlt, rfl⟩ := List.getElem?_eq_some_iff.mp houtput
    have hplace : place < scripts.length := hlength ▸ hlt
    exact ⟨_, List.getElem?_eq_getElem hplace, hspells place hlt hplace⟩
  · intro hplaces place hsorted hscript
    obtain ⟨script, hfound, hspells⟩ := hplaces _ (hperm.mem_iff.mp (List.getElem_mem hsorted))
      place (h.index_eq (List.getElem?_eq_getElem hsorted))
    rw [List.getElem?_eq_getElem hscript] at hfound
    cases hfound
    exact hspells

theorem convertWith_eq_ok_iff {tx : TxMessage} {outputs : List OutputMessage} {chain : ChainTx} :
    tx.convertWith outputs = .ok chain ↔
      Hex.Spells tx.txid chain.txid.bytes ∧ chain.version = tx.version ∧
        List.Forall₂ InputMessage.ReadsAs tx.inputs chain.inputs ∧
        List.Forall₂ (fun output script => Hex.Spells output.script script) outputs
          chain.outputs := by
  unfold convertWith
  simp only [bind_eq_ok_iff, mapM_eq_ok_iff, parseId_eq_ok_iff, parseBytes_eq_ok_iff,
    InputMessage.toChain_eq_ok_iff]
  constructor
  · rintro ⟨txid, htxid, inputs, hinputs, scripts, hscripts, h⟩
    cases h
    exact ⟨htxid, rfl, hinputs, hscripts⟩
  · rintro ⟨htxid, hversion, hinputs, hscripts⟩
    refine ⟨_, htxid, _, hinputs, _, hscripts, ?_⟩
    rw [← hversion]
    rfl

theorem exists_convertWith_iff {tx : TxMessage} {outputs : List OutputMessage} :
    (∃ chain, tx.convertWith outputs = .ok chain) ↔
      Hex.IsDigits 32 tx.txid ∧ (∀ input ∈ tx.inputs, input.IsReadable) ∧
        ∀ output ∈ outputs, ∃ count, Hex.IsDigits count output.script := by
  unfold convertWith
  rw [exists_bind_eq_ok_iff fun txid => exists_bind_eq_ok_iff fun inputs =>
    exists_bind_eq_ok_iff fun scripts => exists_pure_eq_ok_iff]
  simp only [exists_mapM_eq_ok_iff, InputMessage.exists_toChain_iff, exists_parseId_iff,
    exists_parseBytes_iff, and_true]

theorem toChain_eq_ok_iff {tx : TxMessage} {chain : ChainTx} :
    tx.toChain = .ok chain ↔ tx.ReadsAs chain := by
  constructor
  · intro h
    have hnumbered := numbered_of_toChain h
    rw [toChain_of_numbered hnumbered, convertWith_eq_ok_iff,
      hnumbered.forall₂_scripts_iff] at h
    obtain ⟨htxid, hversion, hinputs, hlength, houtputs⟩ := h
    exact ⟨hnumbered, htxid, hversion, hinputs, hlength, houtputs⟩
  · intro h
    rw [toChain_of_numbered h.numbered, convertWith_eq_ok_iff, h.numbered.forall₂_scripts_iff]
    exact ⟨h.txid, h.version, h.inputs, h.length_outputs, h.outputs⟩

theorem exists_toChain_iff {tx : TxMessage} :
    (∃ chain, tx.toChain = .ok chain) ↔ tx.IsReadable := by
  have houtputs : (∀ output ∈ tx.sortedOutputs, ∃ count, Hex.IsDigits count output.script) ↔
      ∀ output ∈ tx.outputs, ∃ count, Hex.IsDigits count output.script := by
    simp only [tx.sortedOutputs_perm.mem_iff]
  constructor
  · rintro ⟨chain, h⟩
    have hnumbered := numbered_of_toChain h
    rw [toChain_of_numbered hnumbered] at h
    obtain ⟨htxid, hinputs, hscripts⟩ := exists_convertWith_iff.mp ⟨chain, h⟩
    exact ⟨hnumbered, htxid, hinputs, houtputs.mp hscripts⟩
  · intro h
    rw [toChain_of_numbered h.numbered, exists_convertWith_iff, houtputs]
    exact ⟨h.txid, h.inputs, h.outputs⟩

end TxMessage

/-! ## Blocks -/

/-- What the text of a previous hash stands for; an empty one for none. -/
def ReadsPrevious (text : String) : Option BlockHash → Prop
  | none => text = ""
  | some hash => Hex.Spells text hash.bytes

namespace BlockMessage

/-- What a block stands for: it has transactions and a height that is not negative. -/
structure ReadsAs (block : BlockMessage) (chain : ChainBlock) : Prop where
  height : (chain.height.toNat : Int) = block.height.toInt
  hash : Hex.Spells block.hash chain.hash.bytes
  previous : ReadsPrevious block.previousHash chain.previous?
  txs : ∃ txs, block.txs? = some txs ∧ List.Forall₂ TxMessage.ReadsAs txs chain.txs

/-- A block with transactions that can be read, at a height that is not negative, whose texts can be
read. -/
structure IsReadable (block : BlockMessage) : Prop where
  height : 0 ≤ block.height.toInt
  hash : Hex.IsDigits 32 block.hash
  previous : block.previousHash = "" ∨ Hex.IsDigits 32 block.previousHash
  txs : ∃ txs, block.txs? = some txs ∧ ∀ tx ∈ txs, tx.IsReadable

end BlockMessage

theorem parseNonNegative_eq_ok_iff {fault : ConversionFault} {n : Int64} {height : UInt64} :
    parseNonNegative fault n = .ok height ↔ (height.toNat : Int) = n.toInt := by
  unfold parseNonNegative
  split
  · rename_i hnegative
    refine iff_of_false nofun fun h => ?_
    have hnegative : n.toInt < 0 := Int64.lt_iff_toInt_lt.mp hnegative
    omega
  · rename_i hnonnegative
    have hle : 0 ≤ n := Int64.not_lt.mp hnonnegative
    have hvalue : (n.toUInt64.toNat : Int) = n.toInt := by
      rw [Int64.toNat_toUInt64_of_le hle]
      exact Int.toNat_of_nonneg (Int64.le_iff_toInt_le.mp hle)
    rw [← hvalue, Except.ok.injEq, Int.ofNat_inj, UInt64.toNat_inj, eq_comm]

theorem exists_parseNonNegative_iff {fault : ConversionFault} {n : Int64} :
    (∃ height, parseNonNegative fault n = .ok height) ↔ 0 ≤ n.toInt := by
  simp only [parseNonNegative_eq_ok_iff]
  constructor
  · rintro ⟨height, h⟩
    omega
  · intro h
    have hlt : n.toInt < 2 ^ 63 := n.toInt_lt
    have hfits : n.toInt.toNat < UInt64.size := by
      change n.toInt.toNat < 2 ^ 64
      omega
    refine ⟨UInt64.ofNat n.toInt.toNat, ?_⟩
    rw [UInt64.toNat_ofNat_of_lt' hfits, Int.toNat_of_nonneg h]

/-- The previous hash of a block. -/
def parsePrevious (text : String) : Except NodeError (Option BlockHash) :=
  if text.isEmpty then pure none else some <$> parseId .block text

theorem parsePrevious_eq_ok_iff {text : String} {previous? : Option BlockHash} :
    parsePrevious text = .ok previous? ↔ ReadsPrevious text previous? := by
  unfold parsePrevious
  split
  · rename_i hempty
    have hempty : text = "" := String.isEmpty_iff.mp hempty
    cases previous? with
    | none => exact iff_of_true rfl hempty
    | some hash =>
      refine iff_of_false nofun fun hspells => ?_
      -- An identifier has 64 digits.
      have hlength := (exists_parseId_iff.mp ⟨hash, parseId_eq_ok_iff.mpr hspells⟩).length_eq
      rw [hempty] at hlength
      cases hlength
  · rename_i hsome
    change (parseId .block text).map some = .ok previous? ↔ _
    rw [map_eq_ok_iff]
    cases previous? with
    | none =>
      refine iff_of_false ?_ fun hempty => hsome (String.isEmpty_iff.mpr hempty)
      rintro ⟨hash, -, h⟩
      cases h
    | some hash =>
      simp only [Option.some.injEq, exists_eq_right]
      exact parseId_eq_ok_iff

theorem exists_parsePrevious_iff {text : String} :
    (∃ previous?, parsePrevious text = .ok previous?) ↔ text = "" ∨ Hex.IsDigits 32 text := by
  simp only [parsePrevious_eq_ok_iff]
  constructor
  · rintro ⟨previous?, h⟩
    cases previous? with
    | none => exact .inl h
    | some hash => exact .inr (exists_parseId_iff.mp ⟨hash, parseId_eq_ok_iff.mpr h⟩)
  · rintro (h | h)
    · exact ⟨none, h⟩
    · obtain ⟨hash, hhash⟩ := exists_parseId_iff.mpr h
      exact ⟨some hash, parseId_eq_ok_iff.mp hhash⟩

namespace BlockMessage

theorem toChain_of_some {block : BlockMessage} {txs : List TxMessage} (h : block.txs? = some txs) :
    block.toChain = (do
      let height ← parseNonNegative (.negativeHeight block.height) block.height
      let previous? ← parsePrevious block.previousHash
      let hash ← parseId .block block.hash
      let txs ← txs.mapM TxMessage.toChain
      return ⟨height, hash, previous?, txs⟩) := by
  unfold toChain parsePrevious
  rw [h]
  apply bind_congr
  intro height
  split <;> rfl

theorem toChain_of_none {block : BlockMessage} (h : block.txs? = none) :
    block.toChain = .error (.conversion (.withoutTransactions block.hash)) := by
  unfold toChain
  rw [h]
  rfl

theorem toChain_eq_ok_iff {block : BlockMessage} {chain : ChainBlock} :
    block.toChain = .ok chain ↔ block.ReadsAs chain := by
  cases htxs : block.txs? with
  | none =>
    rw [toChain_of_none htxs]
    refine iff_of_false nofun fun h => ?_
    obtain ⟨txs, hsome, -⟩ := h.txs
    rw [htxs] at hsome
    cases hsome
  | some txs =>
    rw [toChain_of_some htxs]
    simp only [bind_eq_ok_iff, parseNonNegative_eq_ok_iff, parsePrevious_eq_ok_iff,
      parseId_eq_ok_iff, mapM_eq_ok_iff, TxMessage.toChain_eq_ok_iff]
    constructor
    · rintro ⟨height, hheight, previous?, hprevious, hash, hhash, chainTxs, hall, h⟩
      cases h
      exact ⟨hheight, hhash, hprevious, txs, htxs, hall⟩
    · rintro ⟨hheight, hhash, hprevious, others, hothers, hall⟩
      rw [htxs] at hothers
      cases hothers
      exact ⟨_, hheight, _, hprevious, _, hhash, _, hall, rfl⟩

theorem exists_toChain_iff {block : BlockMessage} :
    (∃ chain, block.toChain = .ok chain) ↔ block.IsReadable := by
  cases htxs : block.txs? with
  | none =>
    rw [toChain_of_none htxs]
    refine iff_of_false nofun fun h => ?_
    obtain ⟨txs, hsome, -⟩ := h.txs
    rw [htxs] at hsome
    cases hsome
  | some txs =>
    rw [toChain_of_some htxs, exists_bind_eq_ok_iff fun height => exists_bind_eq_ok_iff
      fun previous? => exists_bind_eq_ok_iff fun hash => exists_bind_eq_ok_iff fun txs =>
        exists_pure_eq_ok_iff]
    simp only [exists_parseNonNegative_iff, exists_parsePrevious_iff, exists_parseId_iff,
      exists_mapM_eq_ok_iff, TxMessage.exists_toChain_iff, and_true]
    constructor
    · rintro ⟨hheight, hprevious, hhash, hall⟩
      exact ⟨hheight, hhash, hprevious, txs, htxs, hall⟩
    · rintro ⟨hheight, hhash, hprevious, others, hothers, hall⟩
      rw [htxs] at hothers
      cases hothers
      exact ⟨hheight, hprevious, hhash, hall⟩

end BlockMessage

/-- Every transaction and every block that a node answers is converted to exactly what it stands for.
It is converted at all exactly if its texts can be read, the outputs of its transactions are numbered
and, for a block, the transactions are there and the height is not negative. Outputs in another order
make no difference to the transaction or to the failure. -/
theorem conversion_exact :
    (∀ (tx : TxMessage) (chain : ChainTx), tx.toChain = .ok chain ↔ tx.ReadsAs chain) ∧
    (∀ tx : TxMessage, (∃ chain, tx.toChain = .ok chain) ↔ tx.IsReadable) ∧
    (∀ (tx : TxMessage) (outputs : List OutputMessage), outputs.Perm tx.outputs →
      ({ tx with outputs } : TxMessage).toChain = tx.toChain) ∧
    (∀ (block : BlockMessage) (chain : ChainBlock),
      block.toChain = .ok chain ↔ block.ReadsAs chain) ∧
    ∀ block : BlockMessage, (∃ chain, block.toChain = .ok chain) ↔ block.IsReadable :=
  ⟨fun _ _ => TxMessage.toChain_eq_ok_iff, fun _ => TxMessage.exists_toChain_iff,
    fun _ _ => TxMessage.toChain_eq_of_perm, fun _ _ => BlockMessage.toChain_eq_ok_iff,
    fun _ => BlockMessage.exists_toChain_iff⟩

/-- A transaction with two outputs in order. -/
def twoOutputs : TxMessage where
  hex := ""
  txid := (HashId.zero .transaction).toHex
  hash := ""
  time := 0
  blockHash := ""
  blockTime := 0
  confirmations := 0
  version := 1
  size := 0
  fullSize := 0
  memo := ""
  fee := 0
  witness := ""
  inputs := []
  outputs := [⟨0, "0a"⟩, ⟨1, "0B"⟩]

/-- With its outputs swapped, the transaction is converted to the same. -/
theorem conversion_exact_of_swapped :
    [(⟨1, "0B"⟩ : OutputMessage), ⟨0, "0a"⟩].Perm twoOutputs.outputs ∧
      ({ twoOutputs with outputs := [⟨1, "0B"⟩, ⟨0, "0a"⟩] } : TxMessage).toChain =
        twoOutputs.toChain :=
  have hswap : [(⟨1, "0B"⟩ : OutputMessage), ⟨0, "0a"⟩].Perm twoOutputs.outputs := .swap _ _ _
  ⟨hswap, conversion_exact.2.2.1 twoOutputs _ hswap⟩

end RingWallet.Node
