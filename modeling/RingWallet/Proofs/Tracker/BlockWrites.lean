import RingWallet.Proofs.Store.Writes
import RingWallet.Proofs.Tracker.Effects
import RingWallet.Proofs.Tracker.Follow

/-!
# What a block writes

Who owns an output is a question to the provider; once the answers are known, so are the writes of a
block, whatever the store holds (`blockWrites`). An operation performs a list of writes if it makes
all of them where it succeeds, and the first of them, up to some point, where it fails
(`TrackM.Performs`). Recording a block, which is all that a block does before its maturity is handled,
performs the writes of the block (`recordBlock_performs`).
-/

set_option autoImplicit false

namespace RingWallet

variable {σ α β : Type}

/-! ## Owners -/

/-- A table of owners: for each output of a transaction version its owner and value, if it has one. -/
abbrev OwnerTable := UInt32 → Bytes → Option (AccountId × UInt64)

/-- Whatever the provider says about the owner of an output stands in the table. -/
def Provider.Tells (provider : Provider σ) (accounts : List (AccountId × ViewAccount))
    (ownerOf : OwnerTable) : Prop :=
  ∀ version output owner?, Returns (recognise provider version output accounts) owner? →
    owner? = ownerOf version output

/-- The answers of a provider that follows itself make a table. -/
theorem Provider.Follows.exists_tells {provider : Provider σ} (h : provider.Follows provider)
    (accounts : List (AccountId × ViewAccount)) : ∃ ownerOf, provider.Tells accounts ownerOf := by
  classical
  refine ⟨fun version output =>
    if hsome : ∃ owner?, Returns (recognise provider version output accounts) owner? then
      hsome.choose
    else none, fun version output owner? hreturns => ?_⟩
  have hsome : ∃ owner?, Returns (recognise provider version output accounts) owner? :=
    ⟨owner?, hreturns⟩
  dsimp only
  rw [dif_pos hsome]
  exact (h.recognise_echoes version output accounts).returns_unique hreturns hsome.choose_spec

/-- A provider that follows another tells the same owners. -/
theorem Provider.Follows.tells {provider good : Provider σ} (h : provider.Follows good)
    {accounts : List (AccountId × ViewAccount)} {ownerOf : OwnerTable}
    (htells : good.Tells accounts ownerOf) : provider.Tells accounts ownerOf := by
  intro version output owner? hreturns
  have hanswers := h.recognise_echoes version output accounts owner? hreturns
  obtain ⟨state, -, -⟩ := hreturns
  obtain ⟨after, hgood⟩ := hanswers state
  exact htells version output owner? (.of_outcome hgood)

/-! ## Writes -/

/-- The write of an output, if it has an owner. -/
def receiveWrites (coinOf : AccountId → UInt64 → Coin) :
    Option (AccountId × UInt64) → List BlockWrite
  | none => []
  | some (account, value) => [.receive (coinOf account value)]

/-- The write of a transaction's inputs, unless it is a coinbase. -/
def spendWrites (isCoinbase : Bool) (tx : ChainTx) : List BlockWrite :=
  if isCoinbase then [] else [.spend tx.inputs]

/-- The writes of outputs from a given index on. -/
def outputWrites (ownerOf : OwnerTable) (tx : ChainTx) (isCoinbase : Bool) (blockHash : BlockHash)
    (height : UInt64) : (index : Nat) → List Bytes → List BlockWrite
  | _, [] => []
  | index, output :: rest =>
    receiveWrites (receivedCoin tx isCoinbase blockHash height index output)
        (ownerOf tx.version output) ++
      outputWrites ownerOf tx isCoinbase blockHash height (index + 1) rest

/-- The writes of transactions. -/
def txWrites (ownerOf : OwnerTable) (blockHash : BlockHash) (height : UInt64) :
    (isCoinbase : Bool) → List ChainTx → List BlockWrite
  | _, [] => []
  | isCoinbase, tx :: rest =>
    outputWrites ownerOf tx isCoinbase blockHash height 0 tx.outputs ++
      (spendWrites isCoinbase tx ++ txWrites ownerOf blockHash height false rest)

/-- The writes of a block. -/
def blockWrites (ownerOf : OwnerTable) (block : ChainBlock) : List BlockWrite :=
  txWrites ownerOf block.hash block.height true block.txs ++ [.confirm block]

theorem isFresh_of_mem_outputWrites {ownerOf : OwnerTable} {tx : ChainTx} {isCoinbase : Bool}
    {blockHash : BlockHash} {height : UInt64} {index : Nat} {outputs : List Bytes}
    {write : BlockWrite}
    (h : write ∈ outputWrites ownerOf tx isCoinbase blockHash height index outputs) :
    write.IsFresh := by
  induction outputs generalizing index with
  | nil => cases h
  | cons output rest ih =>
    rcases List.mem_append.mp h with h | h
    · cases howner : ownerOf tx.version output with
      | none =>
        rw [howner] at h
        cases h
      | some owner =>
        rw [howner] at h
        rw [List.mem_singleton.mp h]
        exact receivedCoin_isFresh tx isCoinbase blockHash height index output owner.1 owner.2
    · exact ih h

theorem isFresh_of_mem_txWrites {ownerOf : OwnerTable} {blockHash : BlockHash} {height : UInt64}
    {isCoinbase : Bool} {txs : List ChainTx} {write : BlockWrite}
    (h : write ∈ txWrites ownerOf blockHash height isCoinbase txs) : write.IsFresh := by
  induction txs generalizing isCoinbase with
  | nil => cases h
  | cons tx rest ih =>
    rcases List.mem_append.mp h with h | h
    · exact isFresh_of_mem_outputWrites h
    · rcases List.mem_append.mp h with h | h
      · cases isCoinbase with
        | true => cases h
        | false =>
          rw [List.mem_singleton.mp h]
          trivial
      · exact ih h

/-- Every coin that a block receives is fresh. -/
theorem isFresh_of_mem_blockWrites {ownerOf : OwnerTable} {block : ChainBlock} {write : BlockWrite}
    (h : write ∈ blockWrites ownerOf block) : write.IsFresh := by
  rcases List.mem_append.mp h with h | h
  · exact isFresh_of_mem_txWrites h
  · rw [List.mem_singleton.mp h]
    trivial

/-! ## Operations that perform writes -/

namespace TrackM

/-- The operation makes the first of the writes, and all of them if it succeeds. -/
def Performs (op : TrackM σ α) (writes : List BlockWrite) : Prop :=
  ∀ state, ∃ done, done <+: writes ∧
    (outcome op state).2.store = BlockWrite.performAll done state.store ∧
    ((outcome op state).1.isOk = true → done = writes)

namespace Performs

theorem bind {op : TrackM σ α} {next : α → TrackM σ β} {first second : List BlockWrite}
    (hop : op.Performs first) (hnext : ∀ a, Returns op a → (next a).Performs second) :
    TrackM.Performs (op >>= next) (first ++ second) := by
  intro state
  obtain ⟨done, hfront, hstore, hall⟩ := hop state
  rcases hrun : outcome op state with ⟨result, after⟩
  rw [hrun] at hstore hall
  cases result with
  | error e =>
    -- The second operation is not reached.
    rw [outcome_bind_of_error hrun]
    exact ⟨done, hfront.trans (List.prefix_append first second), hstore, fun h => nomatch h⟩
  | ok a =>
    rw [outcome_bind_of_ok hrun]
    obtain ⟨later, hlater, hstoreLater, hallLater⟩ := hnext a (.of_outcome hrun) after
    rw [hall rfl] at hstore
    refine ⟨first ++ later, (List.prefix_append_right_inj first).mpr hlater, ?_, fun h => ?_⟩
    · rw [hstoreLater, hstore]
      exact List.foldl_append.symm
    · rw [hallLater h]

/-- An operation behind one that writes nothing. -/
theorem bind_right {op : TrackM σ α} {next : α → TrackM σ β} {writes : List BlockWrite}
    (hop : op.Performs []) (hnext : ∀ a, Returns op a → (next a).Performs writes) :
    TrackM.Performs (op >>= next) writes :=
  hop.bind hnext

/-- An operation in front of one that writes nothing. -/
theorem bind_left {op : TrackM σ α} {next : α → TrackM σ β} {writes : List BlockWrite}
    (hop : op.Performs writes) (hnext : ∀ a, Returns op a → (next a).Performs []) :
    TrackM.Performs (op >>= next) writes := by
  have hboth := hop.bind hnext
  rw [List.append_nil] at hboth
  exact hboth

theorem pure (a : α) : TrackM.Performs (Pure.pure a : TrackM σ α) [] :=
  fun _ => ⟨[], List.prefix_refl [], rfl, fun _ => rfl⟩

/-- A failure makes none of the writes. -/
theorem throw (e : WalletError) (writes : List BlockWrite) :
    TrackM.Performs (MonadExcept.throw e : TrackM σ α) writes :=
  fun _ => ⟨[], List.nil_prefix, rfl, fun h => nomatch h⟩

theorem outside (op : WalletM σ α) : (TrackM.outside op).Performs [] :=
  fun _ => ⟨[], List.prefix_refl [], rfl, fun _ => rfl⟩

theorem onStore {change : CoinStore → α × CoinStore} {writes : List BlockWrite}
    (h : ∀ store, (change store).2 = BlockWrite.performAll writes store) :
    (TrackM.onStore change : TrackM σ α).Performs writes :=
  fun state => ⟨writes, List.prefix_refl writes, h state.store, fun _ => rfl⟩

end Performs

end TrackM

namespace Tracker

variable (tracker : Tracker) {provider : Provider σ} {ownerOf : OwnerTable}

theorem scanOutputs_performs (htells : provider.Tells tracker.accounts.toList ownerOf)
    (tx : ChainTx) (isCoinbase : Bool) (blockHash : BlockHash) (height : UInt64) (index : Nat)
    (outputs : List Bytes) :
    (tracker.scanOutputs provider tx isCoinbase blockHash height index outputs).Performs
      (outputWrites ownerOf tx isCoinbase blockHash height index outputs) := by
  induction outputs generalizing index with
  | nil => exact .pure []
  | cons output rest ih =>
    by_cases hindex : index < 256
    · rw [scanOutputs_cons tracker provider tx isCoinbase blockHash height hindex]
      apply TrackM.Performs.bind_right (.outside _)
      intro owner? howner
      -- What the provider answered is what the table says.
      rw [htells _ _ _ (TrackM.returns_of_outside howner)]
      apply TrackM.Performs.bind (.onStore fun store => ?_)
      · exact fun isNew _ => .bind_left (ih (index + 1)) fun _ _ => .pure _
      · cases ownerOf tx.version output <;> rfl
    · rw [scanOutputs_cons_of_ge tracker provider tx isCoinbase blockHash height hindex]
      exact .throw _ _

theorem processTxs_performs (htells : provider.Tells tracker.accounts.toList ownerOf)
    (blockHash : BlockHash) (height : UInt64) (isCoinbase : Bool) (txs : List ChainTx) :
    (tracker.processTxs provider blockHash height isCoinbase txs).Performs
      (txWrites ownerOf blockHash height isCoinbase txs) := by
  induction txs generalizing isCoinbase with
  | nil => exact .pure _
  | cons tx rest ih =>
    rw [processTxs_cons]
    apply TrackM.Performs.bind
      (scanOutputs_performs tracker htells tx isCoinbase blockHash height 0 tx.outputs)
    intro received _
    apply TrackM.Performs.bind (.onStore fun store => ?_)
    · exact fun spends _ => .bind_left (ih false) fun _ _ => .pure _
    · cases isCoinbase <;> rfl

/-- Everything that a block does before its maturity is handled. -/
def recordBlock (provider : Provider σ) (block : ChainBlock) :
    TrackM σ ((List CoinId × SpendReport) × List TxId) := do
  let found ← tracker.processTxs provider block.hash block.height true block.txs
  let confirmedTxs ← TrackM.onStore (CoinStore.trackPending block)
  return (found, confirmedTxs)

theorem recordBlock_performs (htells : provider.Tells tracker.accounts.toList ownerOf)
    (block : ChainBlock) :
    (tracker.recordBlock provider block).Performs (blockWrites ownerOf block) := by
  apply TrackM.Performs.bind (processTxs_performs tracker htells _ _ true block.txs)
  intro found _
  apply TrackM.Performs.bind_left (.onStore fun store => rfl)
  exact fun confirmedTxs _ => .pure _

theorem processBlock_eq_record (provider : Provider σ) (source : BlockSource σ)
    (block : ChainBlock) :
    tracker.processBlock provider source block = (do
      let recorded ← tracker.recordBlock provider block
      let maturity ← tracker.handleMaturity provider source block.height
      return ⟨block.height, recorded.1.1, recorded.1.2, maturity, recorded.2⟩) := by
  unfold processBlock recordBlock
  simp only [bind_assoc, pure_bind]

end Tracker

end RingWallet
