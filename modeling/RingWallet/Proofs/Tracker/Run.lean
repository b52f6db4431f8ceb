import RingWallet.Proofs.Tracker.Effects

/-!
# Runs of a wallet

A wallet is a tracker, its store and the outside world. It is used by `Operation`s: accounts come
and go, transactions are scanned, spends are followed or made, windows are resolved, and whole
blocks are processed. Every operation that asks the outside world carries its own provider and its
own block source, so nothing is assumed of either, and an operation that fails leaves what it had
changed until then.

A run is sound from its start to its end: the store of a run is reached from the empty store by a
history that commits exactly the rings of `Wallet.committed` (`run_history`).
-/

set_option autoImplicit false

namespace RingWallet

variable {σ : Type}

/-- A tracker, its store and the outside world. -/
structure Wallet (σ : Type) where
  tracker : Tracker
  store : CoinStore
  outside : σ

/-- One use of a wallet. -/
inductive Operation (σ : Type) where
  | register (id : AccountId) (account : ViewAccount)
  | unregister (id : AccountId)
  | scan (provider : Provider σ) (tx : ChainTx) (isCoinbase : Bool) (blockHash : BlockHash)
      (height : UInt64)
  | trackSpends (tx : ChainTx)
  | markSpent (ids : List CoinId)
  | recordSubmitted (tx : SignedTx) (ids : List CoinId)
  | trackPending (block : ChainBlock)
  | handleMaturity (provider : Provider σ) (source : BlockSource σ) (height : UInt64)
  | resolveGroup (provider : Provider σ) (source : BlockSource σ) (height : UInt64)
  | processBlock (provider : Provider σ) (source : BlockSource σ) (block : ChainBlock)

namespace Operation

/-- The tracker behind an operation. -/
def tracker (tracker : Tracker) : Operation σ → Tracker
  | register id account => tracker.register id account
  | unregister id => tracker.unregister id
  | _ => tracker

/-- What an operation does to the store and to the outside world. -/
def action (tracker : Tracker) : Operation σ → TrackM σ Unit
  | register .. | unregister .. => return ()
  | scan provider tx isCoinbase blockHash height => do
    let _ ← tracker.scanTransaction provider tx isCoinbase blockHash height
    return ()
  | trackSpends tx => do
    let _ ← TrackM.onStore (CoinStore.trackSpends tx)
    return ()
  | markSpent ids => TrackM.tryStore (CoinStore.markSpent ids)
  | recordSubmitted tx ids => TrackM.tryStore (CoinStore.recordSubmitted tx ids)
  | trackPending block => do
    let _ ← TrackM.onStore (CoinStore.trackPending block)
    return ()
  | handleMaturity provider source height => do
    let _ ← tracker.handleMaturity provider source height
    return ()
  | resolveGroup provider source height => do
    let _ ← tracker.resolveGroup provider source height
    return ()
  | processBlock provider source block => do
    let _ ← tracker.processBlock provider source block
    return ()

/-- The rings that an operation commits from a given state. -/
def rings (tracker : Tracker) : Operation σ → TrackState σ → List CoinRing
  | handleMaturity provider source height => tracker.ringsOfMaturity provider source height
  | resolveGroup provider source height => tracker.ringsOfGroup provider source height
  | processBlock provider source block => tracker.ringsOfBlock provider source block
  | _ => fun _ => []

theorem action_commits (tracker : Tracker) (op : Operation σ) :
    (op.action tracker).Commits (op.rings tracker) := by
  cases op with
  | register id account => exact .pure ()
  | unregister id => exact .pure ()
  | scan provider tx isCoinbase blockHash height =>
    exact .bind_none (tracker.scanOutputs_commits provider tx isCoinbase blockHash height 0 _)
      fun _ => .pure ()
  | trackSpends tx =>
    exact .bind_none (.onStore fun hsound => CoinStore.trackInputs_history tx.inputs hsound)
      fun _ => .pure ()
  | markSpent ids => exact .tryStore CoinStore.markSpent_history
  | recordSubmitted tx ids => exact .tryStore CoinStore.recordSubmitted_history
  | trackPending block =>
    exact .bind_none (.onStore fun _ => CoinStore.trackPending_history block _) fun _ => .pure ()
  | handleMaturity provider source height =>
    exact .bind_left (tracker.handleMaturity_commits provider source height) fun _ => .pure ()
  | resolveGroup provider source height =>
    exact .bind_left (tracker.resolveGroup_commits provider source height) fun _ => .pure ()
  | processBlock provider source block =>
    exact .bind_left (tracker.processBlock_commits provider source block) fun _ => .pure ()

end Operation

namespace Wallet

/-- A wallet that watches nothing and holds nothing. -/
def start (params : ChainParams) (outside : σ) : Wallet σ := ⟨.new params, .empty, outside⟩

/-- The wallet behind an operation, whether it succeeds or fails. -/
def perform (wallet : Wallet σ) (op : Operation σ) : Wallet σ :=
  let after := (outcome (op.action wallet.tracker) ⟨wallet.store, wallet.outside⟩).2
  ⟨op.tracker wallet.tracker, after.store, after.outside⟩

/-- The wallet behind operations, one after the other. -/
def run (wallet : Wallet σ) (ops : List (Operation σ)) : Wallet σ := ops.foldl perform wallet

/-- The rings that operations commit, one after the other. -/
def committed (wallet : Wallet σ) : List (Operation σ) → List CoinRing
  | [] => []
  | op :: rest =>
    op.rings wallet.tracker ⟨wallet.store, wallet.outside⟩ ++ (wallet.perform op).committed rest

theorem run_append (wallet : Wallet σ) (ops later : List (Operation σ)) :
    wallet.run (ops ++ later) = (wallet.run ops).run later :=
  List.foldl_append

/-- One operation is a history that commits its rings. -/
theorem perform_history {wallet : Wallet σ} {committed : List CoinRing}
    (h : LoggedStore.Sound ⟨wallet.store, committed⟩) (op : Operation σ) :
    History ⟨wallet.store, committed⟩ ⟨(wallet.perform op).store,
      committed ++ op.rings wallet.tracker ⟨wallet.store, wallet.outside⟩⟩ :=
  op.action_commits wallet.tracker ⟨wallet.store, wallet.outside⟩ committed h

/-- A run is a history that commits the rings of its operations. -/
theorem run_history {wallet : Wallet σ} {committed : List CoinRing}
    (h : LoggedStore.Sound ⟨wallet.store, committed⟩) (ops : List (Operation σ)) :
    History ⟨wallet.store, committed⟩
      ⟨(wallet.run ops).store, committed ++ wallet.committed ops⟩ := by
  induction ops generalizing wallet committed with
  | nil =>
    rw [Wallet.committed, List.append_nil]
    exact .refl
  | cons op rest ih =>
    have hfirst := perform_history h op
    have hrest := ih (h.of_history hfirst)
    rw [List.append_assoc] at hrest
    exact hfirst.trans hrest

theorem store_perform_processBlock (wallet : Wallet σ) (provider : Provider σ)
    (source : BlockSource σ) (block : ChainBlock) :
    (wallet.perform (.processBlock provider source block)).store =
      (outcome (wallet.tracker.processBlock provider source block)
        ⟨wallet.store, wallet.outside⟩).2.store := by
  change (outcome (wallet.tracker.processBlock provider source block >>= fun _ => pure ())
    ⟨wallet.store, wallet.outside⟩).2.store = _
  rw [snd_outcome_discard]

theorem store_perform_resolveGroup (wallet : Wallet σ) (provider : Provider σ)
    (source : BlockSource σ) (height : UInt64) :
    (wallet.perform (.resolveGroup provider source height)).store =
      (outcome (wallet.tracker.resolveGroup provider source height)
        ⟨wallet.store, wallet.outside⟩).2.store := by
  change (outcome (wallet.tracker.resolveGroup provider source height >>= fun _ => pure ())
    ⟨wallet.store, wallet.outside⟩).2.store = _
  rw [snd_outcome_discard]

/-- The parameters of a wallet never change. -/
theorem params_run (wallet : Wallet σ) (ops : List (Operation σ)) :
    (wallet.run ops).tracker.params = wallet.tracker.params := by
  induction ops generalizing wallet with
  | nil => rfl
  | cons op rest ih =>
    apply (ih (wallet.perform op)).trans
    cases op <;> rfl

/-- Every store that a run reaches is sound, beside the rings that the run committed. -/
theorem run_sound (params : ChainParams) (outside : σ) (ops : List (Operation σ)) :
    LoggedStore.Sound ⟨((start params outside).run ops).store,
      (start params outside).committed ops⟩ := by
  have hempty : LoggedStore.Sound ⟨(start params outside).store, []⟩ := .empty
  exact hempty.of_history (run_history hempty ops)

end Wallet

/-! ## A small run

A provider that takes every output for one of the account's, worth one, and that knows one ring and
one serial number. The run receives one coinbase coin, links it to its ring, and sees its serial
number in the next block, in which the coin also falls due.
-/

namespace SmallRun

/-- The name of the only coin. -/
def coinName : CoinId := ⟨.zero .transaction, 0⟩

/-- The serial number of the only coin. -/
def serialNumber : Bytes := [7]

/-- The ring of the only coin. -/
def ring : CoinRing where
  version := CoinRing.currentVersion
  firstHeight := 0
  blockHashes := []
  members := [(coinName, [])]
  isCoinbase := true
  members_pos := by decide
  members_le := by decide
  blocks_le := by decide
  outputs_lt := by decide

/-- The answer to a question that no tracking operation asks. -/
def refuse {α : Type} : ProviderM Unit α := throw (.reported "not asked by tracking" [])

/-- A provider without faults for the only coin. -/
def provider : Provider Unit where
  derive _ := refuse
  deriveFromRand _ _ := refuse
  randomize _ _ := refuse
  publicRandOf _ := refuse
  splitAddress _ := refuse
  validateAddress _ := return true
  outputLevel _ _ := return .pseudonym
  outputCoinAddress _ output := return output
  detect _ _ _ := return true
  valueByRoot _ _ _ _ := return some 1
  valueByKeys _ _ _ _ := return some 1
  serialNumbers coins _ _ := return coins.map fun _ => serialNumber
  buildRings _ := return [ring]
  buildUnsigned _ := refuse
  sign _ _ := refuse

/-- A source that has every block. -/
def source : BlockSource Unit where
  fetch _ := return []

/-- Rings of one block each; coinbase coins fall due one block later. -/
def params : ChainParams := ⟨1, 1, 7⟩

def account : ViewAccount := .seedBacked (.pseudonym (.replicate CryptoScheme.seedLength 0))

/-- The first block, whose coinbase pays the only coin. -/
def paying : ChainBlock := ⟨0, .zero .block, none, [⟨.zero .transaction, 1, [], [[]]⟩]⟩

/-- The second block, which spends the only coin. -/
def spending : ChainBlock where
  height := 1
  hash := .zero .block
  previous? := some (.zero .block)
  txs := [⟨.zero .transaction, 1, [], []⟩,
    ⟨.zero .transaction, 1, [⟨serialNumber, [coinName], []⟩], []⟩]

/-- Watching the account and receiving the coin. -/
def receiving : List (Operation Unit) :=
  [.register ⟨0⟩ account, .processBlock provider source paying]

/-- Watching the account, receiving the coin, and seeing its serial number. -/
def whole : List (Operation Unit) := receiving ++ [.processBlock provider source spending]

/-- The coin once its ring is known. -/
def coin : Coin where
  id := coinName
  account := ⟨0⟩
  blockHash := .zero .block
  height := 0
  txVersion := 1
  output := []
  value := 1
  isCoinbase := true
  status := .immature
  ringId? := some ring.ringId
  ringIndex? := some 0
  serialNumber? := some serialNumber

/-- The coin waits, linked to its ring. -/
theorem coin?_receiving :
    ((Wallet.start params ()).run receiving).store.coin? coinName = some coin := by
  decide +kernel

end SmallRun

end RingWallet
