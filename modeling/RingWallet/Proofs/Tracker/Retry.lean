import RingWallet.Proofs.Tracker.BlockWrites
import RingWallet.Proofs.Tracker.SentCoins

/-!
# Blocks that are processed again

Processing a block may fail at any question to the provider or the source, and then leaves what it had
written until then. The block can be processed again: what a failed attempt leaves behind is the store
behind the first of the block's writes (`store_processBlock_of_error`), and making these writes once
more changes nothing. So if the block is processed at last, the store is the one that processing it
once, without the failed attempts, would have made (`retried_block_eq_once`).

This needs a provider and a source whose answers do not depend on when they are asked, and attempts
whose providers answer as that provider does wherever they answer.
-/

set_option autoImplicit false

namespace RingWallet

variable {σ α β : Type}

/-! ## Operations that succeed whatever the state -/

namespace TrackM

/-- Where the first operation succeeds from some state, the second succeeds from every state. -/
def SucceedsAlike (op other : TrackM σ α) : Prop :=
  ∀ state state', (outcome op state).1.isOk = true → (outcome other state').1.isOk = true

namespace SucceedsAlike

theorem bind {op other : TrackM σ α} {next nextOther : α → TrackM σ β}
    (hop : op.SucceedsAlike other) (hnext : ∀ a b, (next a).SucceedsAlike (nextOther b)) :
    TrackM.SucceedsAlike (op >>= next) (other >>= nextOther) := by
  intro state state' hok
  rcases hrun : outcome op state with ⟨e | a, after⟩
  · rw [outcome_bind_of_error hrun] at hok
    cases hok
  · have hother := hop state state' (by rw [hrun]; rfl)
    rcases hrunOther : outcome other state' with ⟨e | b, afterOther⟩
    · rw [hrunOther] at hother
      cases hother
    · rw [outcome_bind_of_ok hrun] at hok
      rw [outcome_bind_of_ok hrunOther]
      exact hnext a b after afterOther hok

theorem pure (a b : α) : TrackM.SucceedsAlike (Pure.pure a : TrackM σ α) (Pure.pure b) :=
  fun _ _ _ => rfl

theorem throw (e : WalletError) (other : TrackM σ α) :
    TrackM.SucceedsAlike (MonadExcept.throw e : TrackM σ α) other :=
  fun _ _ h => nomatch h

theorem outside {op : WalletM σ α} (h : Echoes op op) :
    (TrackM.outside op).SucceedsAlike (TrackM.outside op) := by
  intro state state' hok
  rw [outcome_outside] at hok ⊢
  rcases hrun : outcome op state.outside with ⟨e | a, after⟩
  · rw [hrun] at hok
    cases hok
  · obtain ⟨later, hlater⟩ := h a (.of_outcome hrun) state'.outside
    rw [hlater]
    rfl

theorem onStore (change : CoinStore → α × CoinStore) :
    (TrackM.onStore change : TrackM σ α).SucceedsAlike (TrackM.onStore change) :=
  fun _ _ _ => rfl

end SucceedsAlike

/-! ## Operations that depend on the store alone -/

/-- Where the operation succeeds, its result and its effect on the store depend on the store alone. -/
def Steady (op : TrackM σ α) : Prop :=
  ∀ state after a, outcome op state = (.ok a, after) → ∀ outside, ∃ later,
    outcome op ⟨state.store, outside⟩ = (.ok a, later) ∧ later.store = after.store

namespace Steady

theorem bind {op : TrackM σ α} {next : α → TrackM σ β} (hop : op.Steady)
    (hnext : ∀ a, (next a).Steady) : TrackM.Steady (op >>= next) := by
  intro state after b hrun outside
  obtain ⟨a, between, hfirst, hsecond⟩ := outcome_bind_eq_ok hrun
  obtain ⟨otherBetween, hfirstOther, hstore⟩ := hop state between a hfirst outside
  obtain ⟨later, hlater, hsame⟩ := hnext a between after b hsecond otherBetween.outside
  refine ⟨later, ?_, hsame⟩
  rw [outcome_bind_of_ok hfirstOther]
  rw [← hstore] at hlater
  exact hlater

theorem pure (a : α) : TrackM.Steady (Pure.pure a : TrackM σ α) := by
  intro state after b hrun outside
  cases hrun
  exact ⟨_, rfl, rfl⟩

theorem outside {op : WalletM σ α} (h : Echoes op op) : (TrackM.outside op).Steady := by
  intro state after a hrun outside
  have hreturns := returns_of_outside (.of_outcome hrun)
  obtain ⟨later, hlater⟩ := h a hreturns outside
  rw [outcome_outside] at hrun
  obtain ⟨-, rfl⟩ := Prod.mk.inj hrun
  exact ⟨⟨state.store, later⟩, outcome_outside_of_ok hlater, rfl⟩

theorem onStore (change : CoinStore → α × CoinStore) :
    (TrackM.onStore change : TrackM σ α).Steady := by
  intro state after a hrun outside
  rw [outcome_onStore] at hrun
  cases hrun
  exact ⟨_, rfl, rfl⟩

theorem tryStore (change : CoinStore → Except WalletError CoinStore) :
    (TrackM.tryStore change : TrackM σ Unit).Steady := by
  intro state after a hrun outside
  rw [outcome_tryStore] at hrun
  rw [outcome_tryStore]
  dsimp only
  cases hchange : change state.store with
  | error e =>
    rw [hchange] at hrun
    cases hrun
  | ok later =>
    rw [hchange] at hrun
    cases hrun
    exact ⟨_, rfl, rfl⟩

end Steady

end TrackM

namespace Tracker

variable (tracker : Tracker) {provider : Provider σ} {source : BlockSource σ}

theorem scanOutputs_succeedsAlike (hsteady : provider.Follows provider) (tx : ChainTx)
    (isCoinbase : Bool) (blockHash : BlockHash) (height : UInt64) (index : Nat)
    (outputs : List Bytes) :
    (tracker.scanOutputs provider tx isCoinbase blockHash height index outputs).SucceedsAlike
      (tracker.scanOutputs provider tx isCoinbase blockHash height index outputs) := by
  induction outputs generalizing index with
  | nil => exact .pure [] []
  | cons output rest ih =>
    by_cases hindex : index < 256
    · rw [scanOutputs_cons tracker provider tx isCoinbase blockHash height hindex]
      apply TrackM.SucceedsAlike.bind (.outside (hsteady.recognise_echoes _ _ _))
      intro owner? otherOwner?
      -- Whoever owns the output, its coin is recorded without a failure.
      apply TrackM.SucceedsAlike.bind (fun _ _ _ => rfl)
      intro isNew otherIsNew
      exact .bind (ih (index + 1)) fun others otherOthers => fun _ _ _ => rfl
    · rw [scanOutputs_cons_of_ge tracker provider tx isCoinbase blockHash height hindex]
      exact .throw _ _

theorem processTxs_succeedsAlike (hsteady : provider.Follows provider) (blockHash : BlockHash)
    (height : UInt64) (isCoinbase : Bool) (txs : List ChainTx) :
    (tracker.processTxs provider blockHash height isCoinbase txs).SucceedsAlike
      (tracker.processTxs provider blockHash height isCoinbase txs) := by
  induction txs generalizing isCoinbase with
  | nil => exact .pure _ _
  | cons tx rest ih =>
    rw [processTxs_cons]
    apply TrackM.SucceedsAlike.bind
      (scanOutputs_succeedsAlike tracker hsteady tx isCoinbase blockHash height 0 tx.outputs)
    intro received otherReceived
    apply TrackM.SucceedsAlike.bind (.onStore _)
    intro spends otherSpends
    exact .bind (ih false) fun others otherOthers => fun _ _ _ => rfl

/-- Whether a block is recorded does not depend on the state. -/
theorem recordBlock_succeedsAlike (hsteady : provider.Follows provider) (block : ChainBlock) :
    (tracker.recordBlock provider block).SucceedsAlike (tracker.recordBlock provider block) := by
  apply TrackM.SucceedsAlike.bind (processTxs_succeedsAlike tracker hsteady _ _ true block.txs)
  intro found otherFound
  exact .bind (.onStore _) fun confirmedTxs otherConfirmedTxs => fun _ _ _ => rfl

theorem resolveGroup_steady (hsteady : provider.Follows provider) (hsource : source.Follows source)
    (height : UInt64) : (tracker.resolveGroup provider source height).Steady := by
  unfold resolveGroup
  apply TrackM.Steady.bind (.onStore _)
  intro coins
  split
  · exact .pure []
  · apply TrackM.Steady.bind (.outside (hsteady.resolutionBatch_echoes hsource tracker height coins))
    intro batch
    exact .bind (.tryStore _) fun _ => .pure _

/-- What a height does to a store does not depend on anything else. -/
theorem handleMaturity_steady (hsteady : provider.Follows provider)
    (hsource : source.Follows source) (height : UInt64) :
    (tracker.handleMaturity provider source height).Steady := by
  rw [handleMaturity_eq]
  refine .bind ?_ fun resolved => .bind (.onStore _) fun _ => .pure _
  unfold resolveAt
  split
  · exact resolveGroup_steady tracker hsteady hsource height
  · exact .pure []

/-- Where a height fails, the store is as it was. -/
theorem store_handleMaturity_of_error (provider : Provider σ) (source : BlockSource σ)
    {height : UInt64} {state after : TrackState σ} {e : WalletError}
    (hrun : outcome (tracker.handleMaturity provider source height) state = (.error e, after)) :
    after.store = state.store := by
  rw [handleMaturity_eq] at hrun
  rcases hresolve : outcome (tracker.resolveAt provider source height) state with
    ⟨fault | resolved, between⟩
  · rw [outcome_bind_of_error hresolve] at hrun
    cases hrun
    unfold resolveAt at hresolve
    split at hresolve
    · exact store_resolveGroup_of_error tracker provider source hresolve
    · cases hresolve
  · rw [outcome_bind_of_ok hresolve] at hrun
    cases hrun

/-- Where a block fails, the first of its writes have been made. -/
theorem store_processBlock_of_error {ownerOf : OwnerTable}
    (htells : provider.Tells tracker.accounts.toList ownerOf) (source : BlockSource σ)
    (block : ChainBlock) (state : TrackState σ)
    (hfailed : (outcome (tracker.processBlock provider source block) state).1.isOk = false) :
    ∃ done, done <+: blockWrites ownerOf block ∧
      (outcome (tracker.processBlock provider source block) state).2.store =
        BlockWrite.performAll done state.store := by
  obtain ⟨done, hfront, hstore, -⟩ := recordBlock_performs tracker htells block state
  refine ⟨done, hfront, ?_⟩
  rw [processBlock_eq_record] at hfailed ⊢
  rcases hrecord : outcome (tracker.recordBlock provider block) state with ⟨e | recorded, between⟩
  · rw [hrecord] at hstore
    rw [outcome_bind_of_error hrecord]
    exact hstore
  · rw [hrecord] at hstore
    rw [outcome_bind_of_ok hrecord] at hfailed ⊢
    rcases hmaturity : outcome (tracker.handleMaturity provider source block.height) between with
      ⟨e | maturity, after⟩
    · rw [outcome_bind_of_error hmaturity]
      exact (store_handleMaturity_of_error tracker provider source hmaturity).trans hstore
    · rw [outcome_bind_of_ok hmaturity] at hfailed
      cases hfailed

/-- Two stores that the writes of a block make the same: if the block is processed from one of them,
it is processed from the other, with the same store behind it. -/
theorem processBlock_of_same_writes (hsteady : provider.Follows provider)
    (hsource : source.Follows source) {ownerOf : OwnerTable}
    (htells : provider.Tells tracker.accounts.toList ownerOf) {block : ChainBlock}
    {state other : TrackState σ}
    (hsame : BlockWrite.performAll (blockWrites ownerOf block) other.store =
      BlockWrite.performAll (blockWrites ownerOf block) state.store)
    (hok : (outcome (tracker.processBlock provider source block) other).1.isOk = true) :
    (outcome (tracker.processBlock provider source block) state).1.isOk = true ∧
      (outcome (tracker.processBlock provider source block) state).2.store =
        (outcome (tracker.processBlock provider source block) other).2.store := by
  obtain ⟨doneOther, -, hstoreOther, hallOther⟩ := recordBlock_performs tracker htells block other
  obtain ⟨done, -, hstore, hall⟩ := recordBlock_performs tracker htells block state
  have halike := recordBlock_succeedsAlike tracker hsteady block other state
  rw [processBlock_eq_record] at hok ⊢
  rcases hrecordOther : outcome (tracker.recordBlock provider block) other with
    ⟨e | recordedOther, betweenOther⟩
  · rw [outcome_bind_of_error hrecordOther] at hok
    cases hok
  rcases hrecord : outcome (tracker.recordBlock provider block) state with
    ⟨e | recorded, between⟩
  · rw [hrecord, hrecordOther] at halike
    exact nomatch halike rfl
  rw [hrecordOther] at hstoreOther hallOther
  rw [hrecord] at hstore hall
  -- Both attempts reach one store when the block is recorded.
  have hbetween : between.store = betweenOther.store := by
    rw [hstore, hstoreOther, hall rfl, hallOther rfl, hsame]
  rw [outcome_bind_of_ok hrecordOther] at hok ⊢
  rw [outcome_bind_of_ok hrecord]
  rcases hmaturityOther : outcome (tracker.handleMaturity provider source block.height)
    betweenOther with ⟨e | maturity, afterOther⟩
  · rw [outcome_bind_of_error hmaturityOther] at hok
    cases hok
  obtain ⟨after, hmaturity, hafter⟩ := handleMaturity_steady tracker hsteady hsource block.height
    betweenOther afterOther maturity hmaturityOther between.outside
  rw [← hbetween] at hmaturity
  rw [outcome_bind_of_ok hmaturity, outcome_bind_of_ok hmaturityOther]
  exact ⟨rfl, hafter⟩

end Tracker

namespace Wallet

/-- Whether a block would be processed without a failure. -/
def processes (wallet : Wallet σ) (provider : Provider σ) (source : BlockSource σ)
    (block : ChainBlock) : Bool :=
  (outcome (wallet.tracker.processBlock provider source block)
    ⟨wallet.store, wallet.outside⟩).1.isOk

/-- The wallet behind attempts to process a block, each with a provider and a source of its own. -/
def attempt (block : ChainBlock) (wallet : Wallet σ)
    (attempts : List (Provider σ × BlockSource σ)) : Wallet σ :=
  wallet.run (attempts.map fun entry => .processBlock entry.1 entry.2 block)

/-- Each of the attempts fails when its turn comes. -/
def AllFail (block : ChainBlock) : Wallet σ → List (Provider σ × BlockSource σ) → Prop
  | _, [] => True
  | wallet, first :: rest =>
    wallet.processes first.1 first.2 block = false ∧
      AllFail block (wallet.perform (.processBlock first.1 first.2 block)) rest

theorem run_orderly (params : ChainParams) (outside : σ) (ops : List (Operation σ)) :
    ((start params outside).run ops).store.Orderly :=
  ⟨⟨_, run_sound params outside ops⟩, (run_sentSound params outside ops).keyed⟩

/-- Failed attempts leave the block's writes to be made, and making them comes to the same as if
there had been no attempt. -/
theorem performAll_attempt {good : Provider σ} {ownerOf : OwnerTable} {block : ChainBlock}
    {wallet : Wallet σ} {attempts : List (Provider σ × BlockSource σ)}
    (htells : good.Tells wallet.tracker.accounts.toList ownerOf) (h : wallet.store.Orderly)
    (hfollow : ∀ entry ∈ attempts, entry.1.Follows good) (hfail : AllFail block wallet attempts) :
    (wallet.attempt block attempts).tracker = wallet.tracker ∧
      BlockWrite.performAll (blockWrites ownerOf block) (wallet.attempt block attempts).store =
        BlockWrite.performAll (blockWrites ownerOf block) wallet.store := by
  induction attempts generalizing wallet with
  | nil => exact ⟨rfl, rfl⟩
  | cons first rest ih =>
    obtain ⟨hfirst, hrest⟩ := hfail
    have hfresh : ∀ write ∈ blockWrites ownerOf block, write.IsFresh :=
      fun write => isFresh_of_mem_blockWrites
    obtain ⟨done, hfront, hstore⟩ := wallet.tracker.store_processBlock_of_error
      ((hfollow first List.mem_cons_self).tells htells) first.2 block
      ⟨wallet.store, wallet.outside⟩ hfirst
    rw [← store_perform_processBlock] at hstore
    have hdone : ∀ write ∈ done, write.IsFresh :=
      fun write hmem => hfresh write (hfront.subset hmem)
    have horderly : (wallet.perform (.processBlock first.1 first.2 block)).store.Orderly := by
      rw [hstore]
      exact BlockWrite.orderly_performAll hdone h
    have hrestFollow : ∀ entry ∈ rest, entry.1.Follows good :=
      fun entry hmem => hfollow entry (List.mem_cons_of_mem _ hmem)
    obtain ⟨htracker, hsame⟩ := @ih (wallet.perform (.processBlock first.1 first.2 block))
      htells horderly hrestFollow hrest
    refine ⟨htracker, hsame.trans ?_⟩
    -- The first attempt made the first writes of the block; making all of them covers these.
    rw [hstore]
    exact BlockWrite.performAll_of_prefix h hfresh hfront

/-- Any number of attempts to process a block fail, in any state of a run, with providers that fail
where they please but otherwise answer as a steady provider does. If the block is processed with the
steady provider then, it would have been processed with it at once, with the same store behind it. -/
theorem retried_block_eq_once (params : ChainParams) (outside : σ) (ops : List (Operation σ))
    {good : Provider σ} {source : BlockSource σ} (hgood : good.Follows good)
    (hsource : source.Follows source) (block : ChainBlock)
    (attempts : List (Provider σ × BlockSource σ))
    (hfollow : ∀ entry ∈ attempts, entry.1.Follows good ∧ entry.2.Follows source)
    (hfail : AllFail block ((start params outside).run ops) attempts)
    (hok : (((start params outside).run ops).attempt block attempts).processes good source block =
      true) :
    ((start params outside).run ops).processes good source block = true ∧
      ((((start params outside).run ops).attempt block attempts).perform
          (.processBlock good source block)).store =
        (((start params outside).run ops).perform (.processBlock good source block)).store := by
  let wallet := (start params outside).run ops
  obtain ⟨ownerOf, htells⟩ := hgood.exists_tells wallet.tracker.accounts.toList
  obtain ⟨htracker, hsame⟩ := performAll_attempt htells (run_orderly params outside ops)
    (fun entry hmem => (hfollow entry hmem).1) hfail
  unfold processes at hok
  rw [htracker] at hok
  have hstart : BlockWrite.performAll (blockWrites ownerOf block)
      (wallet.attempt block attempts).store =
      BlockWrite.performAll (blockWrites ownerOf block)
        (TrackState.mk wallet.store wallet.outside).store := hsame
  obtain ⟨honce, hstore⟩ :=
    wallet.tracker.processBlock_of_same_writes hgood hsource htells hstart hok
  refine ⟨honce, ?_⟩
  rw [store_perform_processBlock, store_perform_processBlock, htracker]
  exact hstore.symm

end Wallet

namespace SmallRun

/-- A provider that cannot say what an output is worth. -/
def forgetful : Provider Unit := { provider with valueByRoot _ _ _ _ := refuse }

/-- A provider that knows no serial numbers. -/
def speechless : Provider Unit := { provider with serialNumbers _ _ _ := refuse }

theorem forgetful_follows : forgetful.Follows provider :=
  { provider_follows with valueByRoot := fun _ _ _ _ => .throw _ _ }

theorem speechless_follows : speechless.Follows provider :=
  { provider_follows with serialNumbers := fun _ _ _ => .throw _ _ }

end SmallRun

namespace Wallet

/-- The small run's first block fails twice, before its coin is received and behind it. -/
theorem small_run_retried_block_eq_once :
    let wallet := (start SmallRun.params ()).run [.register ⟨0⟩ SmallRun.account]
    let attempts := [(SmallRun.forgetful, SmallRun.source), (SmallRun.speechless, SmallRun.source)]
    let tried := wallet.attempt SmallRun.paying attempts
    AllFail SmallRun.paying wallet attempts ∧
      tried.processes SmallRun.provider SmallRun.source SmallRun.paying = true ∧
      wallet.processes SmallRun.provider SmallRun.source SmallRun.paying = true ∧
      (tried.perform (.processBlock SmallRun.provider SmallRun.source SmallRun.paying)).store =
        (wallet.perform (.processBlock SmallRun.provider SmallRun.source SmallRun.paying)).store := by
  intro wallet attempts tried
  have hfail : AllFail SmallRun.paying wallet attempts :=
    ⟨by decide +kernel, by decide +kernel, trivial⟩
  have hok : tried.processes SmallRun.provider SmallRun.source SmallRun.paying = true := by
    decide +kernel
  have hfollow : ∀ entry ∈ attempts, entry.1.Follows SmallRun.provider ∧
      entry.2.Follows SmallRun.source :=
    List.forall_mem_cons.mpr ⟨⟨SmallRun.forgetful_follows, SmallRun.source_follows⟩,
      List.forall_mem_singleton.mpr ⟨SmallRun.speechless_follows, SmallRun.source_follows⟩⟩
  exact ⟨hfail, hok, retried_block_eq_once SmallRun.params () [.register ⟨0⟩ SmallRun.account]
    SmallRun.provider_follows SmallRun.source_follows SmallRun.paying attempts hfollow hfail hok⟩

end Wallet

end RingWallet
