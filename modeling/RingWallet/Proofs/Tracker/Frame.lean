import RingWallet.Proofs.Store.Sent
import RingWallet.Proofs.Tracker.Run

/-!
# What operations leave alone

An operation leaves a look at the store alone if the look shows the same behind it, whether it
succeeds or fails (`TrackM.Leaves`). Scanning, windows and maturity leave the sent transactions
alone, and of what transactions were sent as only a submission changes anything
(`Operation.leaves_sentAs?`).
-/

set_option autoImplicit false

namespace RingWallet

variable {σ α β γ δ : Type}

namespace TrackM

/-- The look shows the same behind the operation as before it. -/
def Leaves (op : TrackM σ α) (look : CoinStore → γ) : Prop :=
  ∀ state, look (outcome op state).2.store = look state.store

namespace Leaves

variable {look : CoinStore → γ}

theorem bind {op : TrackM σ α} {next : α → TrackM σ β} (hop : op.Leaves look)
    (hnext : ∀ a, (next a).Leaves look) : TrackM.Leaves (op >>= next) look := by
  intro state
  have hfirst := hop state
  rcases hrun : outcome op state with ⟨result, after⟩
  rw [hrun] at hfirst
  cases result with
  | error e =>
    rw [outcome_bind_of_error hrun]
    exact hfirst
  | ok a =>
    rw [outcome_bind_of_ok hrun]
    exact (hnext a after).trans hfirst

theorem pure (a : α) : TrackM.Leaves (Pure.pure a : TrackM σ α) look := fun _ => rfl

theorem throw (e : WalletError) : TrackM.Leaves (MonadExcept.throw e : TrackM σ α) look :=
  fun _ => rfl

theorem outside (op : WalletM σ α) : (TrackM.outside op).Leaves look := fun _ => rfl

theorem onStore {change : CoinStore → α × CoinStore}
    (h : ∀ store, look (change store).2 = look store) :
    (TrackM.onStore change : TrackM σ α).Leaves look :=
  fun state => h state.store

theorem tryStore {change : CoinStore → Except WalletError CoinStore}
    (h : ∀ {store later}, change store = .ok later → look later = look store) :
    (TrackM.tryStore change : TrackM σ Unit).Leaves look := by
  intro state
  rw [outcome_tryStore]
  cases hchange : change state.store with
  | error e => rfl
  | ok later => exact h hchange

/-- An operation that leaves a look alone leaves everything alone that the look tells. -/
theorem of_determined {op : TrackM σ α} {other : CoinStore → δ} (h : op.Leaves look)
    (hlook : ∀ {store later}, look later = look store → other later = other store) :
    op.Leaves other :=
  fun state => hlook (h state)

end Leaves

end TrackM

namespace Tracker

variable (tracker : Tracker) (provider : Provider σ) (source : BlockSource σ)

theorem scanOutputs_leaves_pending (tx : ChainTx) (isCoinbase : Bool) (blockHash : BlockHash)
    (height : UInt64) (index : Nat) (outputs : List Bytes) :
    (tracker.scanOutputs provider tx isCoinbase blockHash height index outputs).Leaves
      CoinStore.pending := by
  induction outputs generalizing index with
  | nil => exact .pure []
  | cons output rest ih =>
    by_cases hindex : index < 256
    · rw [scanOutputs_cons tracker provider tx isCoinbase blockHash height hindex]
      apply TrackM.Leaves.bind (.outside _)
      intro owner?
      apply TrackM.Leaves.bind (.onStore fun store => ?_)
      · exact fun isNew => .bind (ih (index + 1)) fun _ => .pure _
      · cases owner? with
        | none => rfl
        | some owner => exact (CoinStore.OnlyCoins.insertCoin store rfl).pending_eq
    · rw [scanOutputs_cons_of_ge tracker provider tx isCoinbase blockHash height hindex]
      exact .throw _

theorem processTxs_leaves_pending (blockHash : BlockHash) (height : UInt64) (isCoinbase : Bool)
    (txs : List ChainTx) :
    (tracker.processTxs provider blockHash height isCoinbase txs).Leaves CoinStore.pending := by
  induction txs generalizing isCoinbase with
  | nil => exact .pure _
  | cons tx rest ih =>
    rw [processTxs_cons]
    apply TrackM.Leaves.bind
      (scanOutputs_leaves_pending tracker provider tx isCoinbase blockHash height 0 _)
    intro received
    apply TrackM.Leaves.bind
      (.onStore fun store => (CoinStore.OnlyCoins.followSpends isCoinbase tx store).pending_eq)
    exact fun spends => .bind (ih false) fun _ => .pure _

theorem resolveGroup_leaves_pending (height : UInt64) :
    (tracker.resolveGroup provider source height).Leaves CoinStore.pending := by
  intro state
  cases resolveGroup_step tracker provider source height state with
  | idle _ hrun _ => rw [hrun]
  | unanswered _ hrun _ => rw [hrun]
  | refused _ _ hrun _ => rw [hrun]
  | accepted _ hcommit hrun _ =>
    -- Only here does the store change at all.
    rw [hrun]
    exact CoinStore.pending_commit hcommit

theorem handleMaturity_leaves_pending (height : UInt64) :
    (tracker.handleMaturity provider source height).Leaves CoinStore.pending := by
  rw [handleMaturity_eq]
  refine .bind ?_ fun resolved => .bind (.onStore fun store => ?_) fun _ => .pure _
  · unfold resolveAt
    split
    · exact resolveGroup_leaves_pending tracker provider source height
    · exact .pure []
  · exact (CoinStore.OnlyCoins.matureAt tracker.params height store).pending_eq

/-- A block changes the status of sent transactions only. -/
theorem processBlock_leaves_sentAs? (block : ChainBlock) :
    (tracker.processBlock provider source block).Leaves CoinStore.sentAs? := by
  unfold processBlock
  apply TrackM.Leaves.bind ((processTxs_leaves_pending tracker provider _ _ true _).of_determined
    CoinStore.sentAs?_eq_of_pending_eq)
  intro found
  apply TrackM.Leaves.bind (.onStore (CoinStore.sentAs?_trackPending block))
  intro confirmedTxs
  apply TrackM.Leaves.bind ((handleMaturity_leaves_pending tracker provider source _).of_determined
    CoinStore.sentAs?_eq_of_pending_eq)
  exact fun maturity => .pure _

end Tracker

/-- Marking coins as spent leaves the sent transactions alone. -/
theorem CoinStore.OnlyCoins.markSpent {ids : List CoinId} {store later : CoinStore}
    (h : store.markSpent ids = .ok later) : store.OnlyCoins later := by
  unfold CoinStore.markSpent at h
  split at h
  · cases h
    exact foldl_withStatus ids .spent store
  · cases h

namespace Operation

/-- Only a submission changes what transactions were sent as. -/
theorem leaves_sentAs? (tracker : Tracker) {op : Operation σ}
    (hop : ∀ tx ids, op ≠ .recordSubmitted tx ids) :
    (op.action tracker).Leaves CoinStore.sentAs? := by
  cases op with
  | register id account => exact .pure ()
  | unregister id => exact .pure ()
  | scan provider tx isCoinbase blockHash height =>
    exact .bind ((tracker.scanOutputs_leaves_pending provider tx isCoinbase blockHash height 0
      _).of_determined CoinStore.sentAs?_eq_of_pending_eq) fun _ => .pure ()
  | trackSpends tx =>
    exact .bind (.onStore fun store => CoinStore.sentAs?_eq_of_pending_eq
      (CoinStore.OnlyCoins.trackInputs tx.inputs store).pending_eq) fun _ => .pure ()
  | markSpent ids =>
    exact .tryStore fun h =>
      CoinStore.sentAs?_eq_of_pending_eq (CoinStore.OnlyCoins.markSpent h).pending_eq
  | recordSubmitted tx ids => exact absurd rfl (hop tx ids)
  | trackPending block =>
    exact .bind (.onStore (CoinStore.sentAs?_trackPending block)) fun _ => .pure ()
  | handleMaturity provider source height =>
    exact .bind ((tracker.handleMaturity_leaves_pending provider source height).of_determined
      CoinStore.sentAs?_eq_of_pending_eq) fun _ => .pure ()
  | resolveGroup provider source height =>
    exact .bind ((tracker.resolveGroup_leaves_pending provider source height).of_determined
      CoinStore.sentAs?_eq_of_pending_eq) fun _ => .pure ()
  | processBlock provider source block =>
    exact .bind (tracker.processBlock_leaves_sentAs? provider source block) fun _ => .pure ()

end Operation

end RingWallet
