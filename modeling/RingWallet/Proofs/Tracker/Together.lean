import RingWallet.Proofs.Tracker.Settle

/-!
# Two trackers side by side

Two operations that run side by side keep a relation of their stores if the stores are related behind
them wherever both succeed (`TrackM.Relates`). Two trackers that watch one account alike, and split
the outputs of a block between that account and others, keep the relation that their stores share the
account (`processBlock_relates`).
-/

set_option autoImplicit false

namespace RingWallet

variable {σ α β γ δ : Type}

/-! ## Operations side by side -/

namespace TrackM

variable {relation : CoinStore → CoinStore → Prop}

/-- Where two operations succeed from related stores, the stores behind them are related. -/
def Relates (relation : CoinStore → CoinStore → Prop) (op : TrackM σ α) (other : TrackM σ β) :
    Prop :=
  ∀ state state' after after' a b, relation state.store state'.store →
    outcome op state = (.ok a, after) → outcome other state' = (.ok b, after') →
      relation after.store after'.store

namespace Relates

theorem bind {op : TrackM σ α} {other : TrackM σ β} {next : α → TrackM σ γ}
    {nextOther : β → TrackM σ δ} (hop : op.Relates relation other)
    (hnext : ∀ a b, Returns op a → Returns other b → (next a).Relates relation (nextOther b)) :
    TrackM.Relates relation (op >>= next) (other >>= nextOther) := by
  intro state state' after after' c d hrelated hrun hrun'
  -- Both first halves succeeded, so the relation holds in between.
  obtain ⟨a, between, hfirst, hsecond⟩ := outcome_bind_eq_ok hrun
  obtain ⟨b, between', hfirst', hsecond'⟩ := outcome_bind_eq_ok hrun'
  have hbetween := hop state state' between between' a b hrelated hfirst hfirst'
  exact hnext a b (.of_outcome hfirst) (.of_outcome hfirst') between between' after after' c d
    hbetween hsecond hsecond'

theorem pure (a : α) (b : β) :
    TrackM.Relates relation (Pure.pure a : TrackM σ α) (Pure.pure b : TrackM σ β) := by
  intro state state' after after' c d hrelated hrun hrun'
  cases hrun
  cases hrun'
  exact hrelated

theorem throw (e : WalletError) (other : TrackM σ β) :
    TrackM.Relates relation (MonadExcept.throw e : TrackM σ α) other := by
  intro state state' after after' c d hrelated hrun hrun'
  cases hrun

theorem outside (op : WalletM σ α) (other : WalletM σ β) :
    TrackM.Relates relation (TrackM.outside op) (TrackM.outside other) := by
  intro state state' after after' c d hrelated hrun hrun'
  rw [outcome_outside] at hrun hrun'
  obtain ⟨-, rfl⟩ := Prod.mk.inj hrun
  obtain ⟨-, rfl⟩ := Prod.mk.inj hrun'
  exact hrelated

theorem onStore {change : CoinStore → α × CoinStore} {change' : CoinStore → β × CoinStore}
    (h : ∀ {store store'}, relation store store' → relation (change store).2 (change' store').2) :
    TrackM.Relates relation (TrackM.onStore change : TrackM σ α) (TrackM.onStore change') := by
  intro state state' after after' c d hrelated hrun hrun'
  rw [outcome_onStore] at hrun hrun'
  cases hrun
  cases hrun'
  exact h hrelated

theorem of_isOk {op : TrackM σ α} {other : TrackM σ β} (h : op.Relates relation other)
    {state state' : TrackState σ} (hrelated : relation state.store state'.store)
    (hok : (outcome op state).1.isOk = true) (hok' : (outcome other state').1.isOk = true) :
    relation (outcome op state).2.store (outcome other state').2.store := by
  rcases hrun : outcome op state with ⟨e | a, after⟩
  · rw [hrun] at hok
    cases hok
  · rcases hrun' : outcome other state' with ⟨e | b, after'⟩
    · rw [hrun'] at hok'
      cases hok'
    · exact h state state' after after' a b hrelated hrun hrun'

end Relates

end TrackM

namespace Tracker

variable {provider : Provider σ} {source : BlockSource σ} {alone joint : Tracker}
  {account : AccountId} {foreign : CoinId → Prop}

/-! ## Blocks -/

/-- Whatever two trackers find out about the owner of an output, their answers split. -/
def SplitsAt (alone joint : Tracker) (provider : Provider σ) (account : AccountId)
    (foreign : CoinId → Prop) (id : CoinId) (version : UInt32) (output : Bytes) : Prop :=
  ∀ owner? jointOwner?,
    Returns (recognise provider version output alone.accounts.toList) owner? →
    Returns (recognise provider version output joint.accounts.toList) jointOwner? →
      CoinStore.Splits account foreign id owner? jointOwner?

theorem scanOutputs_relates (tx : ChainTx) (isCoinbase : Bool) (blockHash : BlockHash)
    (height : UInt64) (index : Nat) (outputs : List Bytes)
    (hsplits : ∀ place output, outputs[place]? = some output → alone.SplitsAt joint provider account
      foreign ⟨tx.txid, UInt8.ofNat (index + place)⟩ tx.version output) :
    (alone.scanOutputs provider tx isCoinbase blockHash height index outputs).Relates
      (CoinStore.Parallel account foreign)
      (joint.scanOutputs provider tx isCoinbase blockHash height index outputs) := by
  induction outputs generalizing index with
  | nil => exact .pure [] []
  | cons output rest ih =>
    by_cases hindex : index < 256
    · rw [scanOutputs_cons alone provider tx isCoinbase blockHash height hindex,
        scanOutputs_cons joint provider tx isCoinbase blockHash height hindex]
      refine TrackM.Relates.bind (.outside _ _) fun owner? jointOwner? howner hjointOwner => ?_
      have hfirst := hsplits 0 output rfl owner? jointOwner? (TrackM.returns_of_outside howner)
        (TrackM.returns_of_outside hjointOwner)
      refine .bind (.onStore fun hparallel => ?_) fun isNew jointIsNew _ _ => ?_
      · exact hparallel.record (receivedCoin_isFresh tx isCoinbase blockHash height index output)
          (fun _ _ => rfl) (fun _ _ => rfl) hfirst
      · -- The remaining outputs stand one place further.
        refine .bind (ih (index + 1) fun place other hplace => ?_) fun _ _ _ _ => .pure _ _
        rw [Nat.add_right_comm, Nat.add_assoc]
        exact hsplits (place + 1) other hplace
    · rw [scanOutputs_cons_of_ge alone provider tx isCoinbase blockHash height hindex]
      exact .throw _ _

theorem processTxs_relates (blockHash : BlockHash) (height : UInt64) (isCoinbase : Bool)
    (txs : List ChainTx)
    (hsplits : ∀ tx ∈ txs, ∀ index output, tx.outputs[index]? = some output →
      alone.SplitsAt joint provider account foreign ⟨tx.txid, UInt8.ofNat index⟩ tx.version
        output) :
    (alone.processTxs provider blockHash height isCoinbase txs).Relates
      (CoinStore.Parallel account foreign)
      (joint.processTxs provider blockHash height isCoinbase txs) := by
  induction txs generalizing isCoinbase with
  | nil => exact .pure _ _
  | cons tx rest ih =>
    obtain ⟨hfirst, hrest⟩ := List.forall_mem_cons.mp hsplits
    rw [processTxs_cons, processTxs_cons]
    refine .bind (scanOutputs_relates tx isCoinbase blockHash height 0 tx.outputs
      fun place output hplace => ?_) fun received jointReceived _ _ => ?_
    · rw [Nat.zero_add]
      exact hfirst place output hplace
    · refine .bind (.onStore fun hparallel => hparallel.followSpends isCoinbase tx)
        fun spends jointSpends _ _ => ?_
      exact .bind (ih false hrest) fun _ _ _ _ => .pure _ _

section

variable (hsteady : provider.Follows provider) (hsource : source.Follows source)
  (hparams : alone.params = joint.params)
  (hview : alone.accounts.get? account = joint.accounts.get? account)

include hsteady hsource hparams hview

/-- Resolving a window keeps stores sharing an account that both trackers watch alike. -/
theorem resolveGroup_relates (height : UInt64) :
    (alone.resolveGroup provider source height).Relates (CoinStore.Parallel account foreign)
      (joint.resolveGroup provider source height) := by
  intro state state' after after' resolved resolved' hparallel hrun hrun'
  obtain ⟨committed, hsound⟩ := hparallel.sound_alone
  obtain ⟨committed', hsound'⟩ := hparallel.sound_joint
  refine ⟨?_, ?_, ?_⟩
  · -- A coin of the account settles alike, for both trackers watch the account alike.
    apply hparallel.shares.evolve (resolveGroup_evolves hsound hrun)
      (resolveGroup_evolves hsound' hrun') _ Settles.account_eq
    intro coin settled settled' haccount hsettles hsettles'
    exact hsettles.unique hsteady hsource hparams (haccount ▸ hview) hsettles'
  · have hhistory := resolveGroup_commits alone provider source height state committed hsound
    rw [hrun] at hhistory
    exact ⟨_, hsound.of_history hhistory⟩
  · have hhistory := resolveGroup_commits joint provider source height state' committed' hsound'
    rw [hrun'] at hhistory
    exact ⟨_, hsound'.of_history hhistory⟩

theorem resolveAt_relates (height : UInt64) :
    (alone.resolveAt provider source height).Relates (CoinStore.Parallel account foreign)
      (joint.resolveAt provider source height) := by
  unfold resolveAt
  rw [hparams]
  split
  · exact resolveGroup_relates hsteady hsource hparams hview height
  · exact .pure [] []

/-- Processing a block keeps stores sharing an account. -/
theorem processBlock_relates (block : ChainBlock)
    (hsplits : ∀ tx ∈ block.txs, ∀ index output, tx.outputs[index]? = some output →
      alone.SplitsAt joint provider account foreign ⟨tx.txid, UInt8.ofNat index⟩ tx.version
        output) :
    (alone.processBlock provider source block).Relates (CoinStore.Parallel account foreign)
      (joint.processBlock provider source block) := by
  unfold processBlock
  refine .bind (processTxs_relates block.hash block.height true block.txs hsplits)
    fun found jointFound _ _ => ?_
  refine .bind (.onStore fun hparallel => hparallel.trackPending block)
    fun confirmedTxs jointConfirmedTxs _ _ => ?_
  rw [handleMaturity_eq, handleMaturity_eq]
  refine .bind (.bind (resolveAt_relates hsteady hsource hparams hview block.height)
    fun resolved jointResolved _ _ => ?_) fun _ _ _ _ => .pure _ _
  rw [hparams]
  exact .bind (.onStore fun hparallel => hparallel.matureAt joint.params block.height)
    fun _ _ _ _ => .pure _ _

end

end Tracker

end RingWallet
