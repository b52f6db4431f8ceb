import RingWallet.Proofs.Store.Advance
import RingWallet.Proofs.Store.Effect
import RingWallet.Proofs.Store.Sent
import Mathlib.Data.List.Induction

/-!
# Writes that can be repeated

Before coins mature, a block writes to the store in three ways: it receives coins, its inputs spend
coins, and it confirms sent transactions (`BlockWrite`). A write is settled in a store if it has
nothing left to do there (`BlockWrite.Settled`). It is settled once it has been made
(`settled_perform`), every other write leaves it settled (`Settled.perform`), and a settled write
changes nothing (`perform_of_settled`). So the first writes of a list can be made once more before the
whole list without any effect on what comes out (`performAll_of_prefix`).
-/

set_option autoImplicit false

namespace RingWallet

/-- One write of a block. -/
inductive BlockWrite where
  /-- An output with an owner is received as a coin. -/
  | receive (coin : Coin)
  /-- The inputs of a transaction are followed. -/
  | spend (inputs : List ChainInput)
  /-- The sent transactions that the block holds are confirmed. -/
  | confirm (block : ChainBlock)

/-- What every store of a run is: sound beside some rings, with its sent transactions under their
own identifiers. -/
structure CoinStore.Orderly (store : CoinStore) : Prop where
  sound : ∃ committed, LoggedStore.Sound ⟨store, committed⟩
  keyed : store.SentKeyed

namespace BlockWrite

/-- The store behind a write. -/
def perform (store : CoinStore) : BlockWrite → CoinStore
  | receive coin => (store.insertCoin coin).2
  | spend inputs => (CoinStore.trackInputs inputs store).2
  | confirm block => (CoinStore.trackPending block store).2

/-- The store behind writes, one after the other. -/
def performAll (writes : List BlockWrite) (store : CoinStore) : CoinStore :=
  writes.foldl perform store

/-- A received coin is fresh. -/
def IsFresh : BlockWrite → Prop
  | receive coin => coin.IsFresh
  | spend _ | confirm _ => True

/-- Whether a write has nothing left to do in a store: its coin is there, its inputs pass every coin
over, or none of its block's transactions waits on record. -/
def Settled (store : CoinStore) : BlockWrite → Prop
  | receive coin => ∃ found, store.coin? coin.id = some found
  | spend inputs => ∀ id coin, store.coin? id = some coin → coin.seenBy inputs = coin
  | confirm block => ∀ tx ∈ store.pendingTxs, tx.txid ∉ block.txs.map (·.txid)

variable {store : CoinStore}

/-! ## A write keeps a store orderly -/

theorem perform_history {write : BlockWrite} (hfresh : write.IsFresh) {committed : List CoinRing}
    (hsound : LoggedStore.Sound ⟨store, committed⟩) :
    History ⟨store, committed⟩ ⟨write.perform store, committed⟩ := by
  cases write with
  | receive coin => exact CoinStore.insertCoin_history store hfresh
  | spend inputs => exact CoinStore.trackInputs_history inputs hsound
  | confirm block => exact CoinStore.trackPending_history block store

theorem sentAs?_perform {write : BlockWrite} (hfresh : write.IsFresh) :
    (write.perform store).sentAs? = store.sentAs? := by
  cases write with
  | receive coin =>
    have honly := CoinStore.OnlyCoins.insertCoin store hfresh.serialNumber_eq
    exact CoinStore.sentAs?_eq_of_pending_eq honly.pending_eq
  | spend inputs =>
    exact CoinStore.sentAs?_eq_of_pending_eq (CoinStore.OnlyCoins.trackInputs inputs store).pending_eq
  | confirm block => exact CoinStore.sentAs?_trackPending block store

theorem orderly_perform {write : BlockWrite} (hfresh : write.IsFresh) (h : store.Orderly) :
    (write.perform store).Orderly := by
  obtain ⟨committed, hsound⟩ := h.sound
  refine ⟨⟨committed, hsound.of_history (perform_history hfresh hsound)⟩, fun hsent => ?_⟩
  rw [sentAs?_perform hfresh] at hsent
  exact h.keyed hsent

theorem orderly_performAll {writes : List BlockWrite} (hfresh : ∀ write ∈ writes, write.IsFresh)
    (h : store.Orderly) : (performAll writes store).Orderly := by
  induction writes generalizing store with
  | nil => exact h
  | cons write rest ih =>
    have hfirst := orderly_perform (hfresh write List.mem_cons_self) h
    exact ih (fun other hmem => hfresh other (List.mem_cons_of_mem _ hmem)) hfirst

/-! ## Settled writes -/

/-- A settled write changes nothing. -/
theorem perform_of_settled {write : BlockWrite} (h : store.Orderly) (hsettled : write.Settled store) :
    write.perform store = store := by
  obtain ⟨committed, hsound⟩ := h.sound
  cases write with
  | receive coin =>
    obtain ⟨found, hfound⟩ := hsettled
    exact CoinStore.insertCoin_of_known hfound
  | spend inputs =>
    -- Inputs change coins only, and here they change none of them.
    apply (CoinStore.OnlyCoins.trackInputs inputs store).eq_of_coin?
    intro id
    rw [CoinStore.coin?_trackInputs inputs hsound]
    cases hcoin : store.coin? id with
    | none => rfl
    | some coin => exact congrArg some (hsettled id coin hcoin)
  | confirm block =>
    have hnone : (store.pendingTxs.map (·.txid)).filter
        (block.txs.map (·.txid)).contains = [] := by
      rw [List.filter_eq_nil_iff]
      intro txid hmem hcontains
      obtain ⟨tx, htx, rfl⟩ := List.mem_map.mp hmem
      exact hsettled tx htx (List.contains_iff_mem.mp hcontains)
    change (CoinStore.trackPending block store).2 = store
    unfold CoinStore.trackPending
    dsimp only
    rw [hnone]
    rfl

/-! ## Repeating writes -/

/-- A write that changes the coins alone leaves the sent transactions alone. -/
theorem pendingTxs_eq {later : CoinStore} (h : store.OnlyCoins later) :
    later.pendingTxs = store.pendingTxs := by
  unfold CoinStore.pendingTxs
  rw [h.pending_eq]

/-- A write is settled once it has been made. -/
theorem settled_perform (write : BlockWrite) (h : store.Orderly) :
    write.Settled (write.perform store) := by
  obtain ⟨committed, hsound⟩ := h.sound
  cases write with
  | receive coin =>
    refine ⟨(store.coin? coin.id).getD coin, ?_⟩
    rw [perform, CoinStore.coin?_insertCoin, if_pos rfl]
  | spend inputs =>
    intro id coin hcoin
    rw [perform, CoinStore.coin?_trackInputs inputs hsound] at hcoin
    obtain ⟨before, -, rfl⟩ := Option.map_eq_some_iff.mp hcoin
    exact Coin.seenBy_seenBy (.inr rfl)
  | confirm block =>
    intro tx hmem
    exact (CoinStore.mem_pendingTxs_trackPending h.keyed hmem).2

/-- A settled write stays settled behind any other. -/
theorem Settled.perform {write other : BlockWrite} (h : store.Orderly) (hfresh : other.IsFresh)
    (hsettled : write.Settled store) : write.Settled (other.perform store) := by
  obtain ⟨committed, hsound⟩ := h.sound
  cases write with
  | receive coin =>
    -- No write drops a coin.
    obtain ⟨found, hfound⟩ := hsettled
    have hforward := hsound.advances_of_history (perform_history hfresh hsound)
    obtain ⟨later, hlater, -⟩ := hforward coin.id found hfound
    exact ⟨later, hlater⟩
  | spend inputs =>
    intro id coin hcoin
    cases other with
    | receive received =>
      rw [BlockWrite.perform, CoinStore.coin?_insertCoin] at hcoin
      split at hcoin
      · cases hold : store.coin? id with
        | none =>
          -- A new coin has no serial number that the inputs could show.
          rw [hold] at hcoin
          cases hcoin
          exact Coin.IsFresh.seenBy_eq hfresh inputs
        | some old =>
          rw [hold] at hcoin
          cases hcoin
          exact hsettled id _ hold
      · exact hsettled id coin hcoin
    | spend others =>
      rw [BlockWrite.perform, CoinStore.coin?_trackInputs others hsound] at hcoin
      obtain ⟨before, hbefore, rfl⟩ := Option.map_eq_some_iff.mp hcoin
      exact Coin.seenBy_seenBy (.inl (hsettled id before hbefore))
    | confirm block =>
      rw [BlockWrite.perform, CoinStore.coin?_trackPending] at hcoin
      exact hsettled id coin hcoin
  | confirm block =>
    intro tx hmem
    cases other with
    | receive received =>
      rw [BlockWrite.perform,
        pendingTxs_eq (CoinStore.OnlyCoins.insertCoin store hfresh.serialNumber_eq)] at hmem
      exact hsettled tx hmem
    | spend others =>
      rw [BlockWrite.perform, pendingTxs_eq (CoinStore.OnlyCoins.trackInputs others store)] at hmem
      exact hsettled tx hmem
    | confirm otherBlock =>
      exact hsettled tx (CoinStore.mem_pendingTxs_trackPending h.keyed hmem).1

/-- Writes that are made are settled. -/
theorem settled_performAll {writes : List BlockWrite} (hfresh : ∀ write ∈ writes, write.IsFresh)
    (h : store.Orderly) : ∀ write ∈ writes, write.Settled (performAll writes store) := by
  -- From the end: the last write settles itself and leaves the earlier ones settled.
  induction writes using List.reverseRecOn with
  | nil => exact fun write hmem => nomatch hmem
  | append_singleton before last ih =>
    have hbefore := ih fun write hmem => hfresh write (List.mem_append_left _ hmem)
    have horderly := orderly_performAll
      (fun write hmem => hfresh write (List.mem_append_left _ hmem)) h
    have hlast := hfresh last (List.mem_append_right _ List.mem_cons_self)
    have hsplit : performAll (before ++ [last]) store = last.perform (performAll before store) :=
      List.foldl_append
    rw [hsplit]
    intro write hmem
    rcases List.mem_append.mp hmem with hmem | hmem
    · exact (hbefore write hmem).perform horderly hlast
    · rw [List.mem_singleton.mp hmem]
      exact settled_perform last horderly

/-- Settled writes change nothing. -/
theorem performAll_of_settled {writes : List BlockWrite} (h : store.Orderly)
    (hsettled : ∀ write ∈ writes, write.Settled store) : performAll writes store = store := by
  induction writes with
  | nil => rfl
  | cons write rest ih =>
    have hfirst := perform_of_settled h (hsettled write List.mem_cons_self)
    rw [performAll, List.foldl_cons, hfirst]
    exact ih fun other hmem => hsettled other (List.mem_cons_of_mem _ hmem)

/-- If the first writes have been made already, making all of them comes to the same as making all
of them once. -/
theorem performAll_of_prefix {done writes : List BlockWrite} (h : store.Orderly)
    (hfresh : ∀ write ∈ writes, write.IsFresh) (hfront : done <+: writes) :
    performAll writes (performAll done store) = performAll writes store := by
  obtain ⟨rest, rfl⟩ := hfront
  have hdone : ∀ write ∈ done, write.IsFresh :=
    fun write hmem => hfresh write (List.mem_append_left _ hmem)
  have hsame := performAll_of_settled (orderly_performAll hdone h) (settled_performAll hdone h)
  calc performAll (done ++ rest) (performAll done store)
      = performAll rest (performAll done (performAll done store)) := List.foldl_append
    _ = performAll rest (performAll done store) := by rw [hsame]
    _ = performAll (done ++ rest) store := List.foldl_append.symm

end BlockWrite

end RingWallet
