import RingWallet.Proofs.Store.Milestone
import RingWallet.Proofs.Tracker.SentCoins
import RingWallet.Proofs.Tracker.Window

/-!
# Block reports are exact

A block changes coins in two stages: what is found in its transactions (`processTxs_tells`), and
what comes with its height (`handleMaturity_tells`). Each stage is told by its part of the report, as
a journal of milestones; the whole report is the two journals, one behind the other
(`BlockReport.TellsStages.journal_tells`). Coins stop waiting in the second stage only, and are spent
in the first only. Hence a coin that was waiting before a block is waiting or spendable behind it, and
a coin that the block spends could be spent, or was spent, before it.

With what a block does to the sent transactions, the report names exactly what is different behind
the block (`BlockReport.IsExact`), in every state of a run (`block_report_exact`).
-/

set_option autoImplicit false

namespace RingWallet

variable {σ : Type}

/-- The report says exactly how the later store differs from the first. -/
structure BlockReport.IsExact (report : BlockReport) (store later : CoinStore) : Prop where
  received_iff : ∀ id, id ∈ report.received ↔
    store.coin? id = none ∧ ∃ coin, later.coin? id = some coin
  ringResolved_iff : ∀ id, id ∈ report.maturity.ringResolved ↔
    (∃ coin, later.coin? id = some coin ∧ coin.ringId? ≠ none) ∧
      ∀ coin, store.coin? id = some coin → coin.ringId? = none
  matured_iff : ∀ id, id ∈ report.maturity.matured ↔
    (∃ coin, later.coin? id = some coin ∧ coin.status = .spendable) ∧
      ∀ coin, store.coin? id = some coin → coin.status = .immature
  confirmed_iff : ∀ id, id ∈ report.spends.confirmed ↔
    (∃ coin, later.coin? id = some coin ∧ coin.status = .confirmed) ∧
      ∀ coin, store.coin? id = some coin → coin.status ≠ .confirmed
  invalidated_iff : ∀ id, id ∈ report.spends.invalidated ↔
    (∃ coin, later.coin? id = some coin ∧ coin.status = .invalid) ∧
      ∀ coin, store.coin? id = some coin → coin.status ≠ .invalid
  spent_iff : ∀ id, id ∈ report.spends.spent ↔
    (id ∈ report.spends.confirmed ∨ id ∈ report.spends.invalidated) ∧
      ∃ coin, store.coin? id = some coin ∧ coin.status = .spendable
  confirmedTxs_iff : ∀ txid, txid ∈ report.confirmedTxs ↔
    (∃ tx, store.pending.get? txid = some tx ∧ tx.status = .pending) ∧
      ∃ tx, later.pending.get? txid = some tx ∧ tx.status = .confirmed
  /-- Nothing is listed twice. -/
  nodup : report.received.Nodup ∧ report.maturity.ringResolved.Nodup ∧
    report.maturity.matured.Nodup ∧ report.spends.confirmed.Nodup ∧
    report.spends.invalidated.Nodup ∧ report.spends.spent.Nodup ∧ report.confirmedTxs.Nodup
  /-- A coin that is on no list is as it was. -/
  coin_kept : ∀ id, id ∉ report.received → id ∉ report.maturity.ringResolved →
    id ∉ report.maturity.matured → id ∉ report.spends.confirmed →
    id ∉ report.spends.invalidated → later.coin? id = store.coin? id
  /-- A sent transaction that is not listed is as it was. -/
  tx_kept : ∀ txid, txid ∉ report.confirmedTxs →
    later.pending.get? txid = store.pending.get? txid

open Journal (found aged)

/-! ## The stages of a block -/

namespace Tracker

variable (tracker : Tracker) (provider : Provider σ) (source : BlockSource σ)
  {committed : List CoinRing} {state after : TrackState σ}

/-- The new coins of outputs are received. -/
theorem scanOutputs_tells {tx : ChainTx} {isCoinbase : Bool} {blockHash : BlockHash}
    {height : UInt64} {index : Nat} {outputs : List Bytes} {received : List CoinId}
    (hsound : LoggedStore.Sound ⟨state.store, committed⟩)
    (hrun : outcome (tracker.scanOutputs provider tx isCoinbase blockHash height index outputs)
      state = (.ok received, after)) :
    (found received .empty).Tells state.store after.store := by
  induction outputs generalizing state index received with
  | nil =>
    cases hrun
    exact Journal.found_tells_of_coin?_eq fun _ => rfl
  | cons output rest ih =>
    by_cases hindex : index < 256
    · rw [scanOutputs_cons tracker provider tx isCoinbase blockHash height hindex] at hrun
      obtain ⟨owner?, asked, hasked, hrun⟩ := outcome_bind_eq_ok hrun
      obtain ⟨isNew, recorded, hrecorded, hrun⟩ := outcome_bind_eq_ok hrun
      obtain ⟨others, last, hothers, hrun⟩ := outcome_bind_eq_ok hrun
      cases hrun
      obtain ⟨-, rfl⟩ := Prod.mk.inj hasked
      obtain ⟨hisNew, rfl⟩ := Prod.mk.inj hrecorded
      -- The first output is recorded, and the others follow behind it.
      have hfresh := receivedCoin_isFresh tx isCoinbase blockHash height index output
      have hfirst := CoinStore.record_tells hsound hfresh (fun _ _ => rfl) owner?
      have hrest := ih (hsound.of_history (CoinStore.record_history hfresh owner? state.store))
        hothers
      rw [show (CoinStore.record _ owner? state.store).1 = isNew from Except.ok.inj hisNew]
        at hfirst
      apply (hfirst.append hrest).congr
      intro milestone
      rw [← Journal.found_append]
      cases isNew <;> rfl
    · rw [scanOutputs_cons_of_ge tracker provider tx isCoinbase blockHash height hindex] at hrun
      cases hrun

/-- What is found in transactions: the coins that are received, and those that are spent, each of
which comes to one of the two ends. -/
theorem processTxs_tells {blockHash : BlockHash} {height : UInt64} {isCoinbase : Bool}
    {txs : List ChainTx} {result : List CoinId × SpendReport}
    (hsound : LoggedStore.Sound ⟨state.store, committed⟩)
    (hrun : outcome (tracker.processTxs provider blockHash height isCoinbase txs) state =
      (.ok result, after)) :
    (found result.1 result.2).Tells state.store after.store ∧ result.2.NamesEnds := by
  induction txs generalizing state committed isCoinbase result with
  | nil =>
    cases hrun
    exact ⟨Journal.found_tells_of_coin?_eq fun _ => rfl, .empty⟩
  | cons tx rest ih =>
    rw [processTxs_cons] at hrun
    obtain ⟨received, scanned, hscan, hrun⟩ := outcome_bind_eq_ok hrun
    obtain ⟨spends, followed, hfollow, hrun⟩ := outcome_bind_eq_ok hrun
    obtain ⟨others, last, hothers, hrun⟩ := outcome_bind_eq_ok hrun
    cases hrun
    cases hfollow
    have hscanned := (scanOutputs_commits tracker provider tx isCoinbase blockHash height 0
      tx.outputs).sound hsound hscan
    have hreceived := scanOutputs_tells tracker provider hsound hscan
    have hspends := CoinStore.followSpends_tells isCoinbase tx hscanned
    obtain ⟨hrest, hends⟩ :=
      ih (hscanned.of_history (CoinStore.followSpends_history isCoinbase tx hscanned)) hothers
    refine ⟨?_, (CoinStore.namesEnds_followSpends isCoinbase tx scanned.store).append hends⟩
    apply ((hreceived.append hspends).append hrest).congr
    intro milestone
    rw [← Journal.found_append, ← Journal.found_append, List.append_nil]
    rfl

namespace Resolves

variable {tracker} {height : UInt64} {store later : CoinStore} {resolved : List (CoinId × Bool)}

theorem mem_names_iff (h : tracker.Resolves height store later resolved) (id : CoinId) :
    id ∈ resolved.map Prod.fst ↔
      ∃ coin, store.coin? id = some coin ∧ tracker.Awaits height coin := by
  rw [List.mem_map]
  constructor
  · rintro ⟨⟨name, isCoinbase⟩, hmem, rfl⟩
    obtain ⟨coin, hcoin, hawaits, -⟩ := (h.mem_iff name isCoinbase).mp hmem
    exact ⟨coin, hcoin, hawaits⟩
  · rintro ⟨coin, hcoin, hawaits⟩
    exact ⟨(id, coin.isCoinbase), (h.mem_iff id _).mpr ⟨coin, hcoin, hawaits, rfl⟩, rfl⟩

theorem mem_transfers_iff (h : tracker.Resolves height store later resolved) (id : CoinId) :
    id ∈ (resolved.filter fun entry => !entry.2).map Prod.fst ↔
      ∃ coin, store.coin? id = some coin ∧ tracker.Awaits height coin ∧
        coin.isCoinbase = false := by
  simp only [List.mem_map, List.mem_filter, Bool.not_eq_true']
  constructor
  · rintro ⟨⟨name, isCoinbase⟩, ⟨hmem, hnot⟩, rfl⟩
    obtain ⟨coin, hcoin, hawaits, hcoinbase⟩ := (h.mem_iff name isCoinbase).mp hmem
    exact ⟨coin, hcoin, hawaits, hcoinbase.trans hnot⟩
  · rintro ⟨coin, hcoin, hawaits, hcoinbase⟩
    exact ⟨(id, false), ⟨(h.mem_iff id false).mpr ⟨coin, hcoin, hawaits, hcoinbase⟩, rfl⟩, rfl⟩

/-- Where the end of a window succeeds, the coins that waited for it are linked, and the transfer
coins among them wait no longer. -/
theorem tells (h : tracker.Resolves height store later resolved)
    (hadvances : store.Advances later) :
    (aged ⟨resolved.map Prod.fst, (resolved.filter fun entry => !entry.2).map Prod.fst⟩).Tells
      store later := by
  have hlinked := h.mem_names_iff
  have htransfers := h.mem_transfers_iff
  have hnodup := OrderedMap.nodup_of_sorted h.sorted
  constructor
  case advances => exact hadvances
  case nodup =>
    intro milestone
    cases milestone with
    | linked => exact hnodup
    | matured => exact (List.filter_sublist.map Prod.fst).nodup hnodup
    | received | used | confirmed | invalidated => exact List.nodup_nil
  case mem_iff =>
    intro milestone id
    by_cases hwaits : ∃ coin, store.coin? id = some coin ∧ tracker.Awaits height coin
    · obtain ⟨coin, hcoin, hawaits⟩ := hwaits
      obtain ⟨_, _, _, _, hlater⟩ := h.linked hcoin hawaits
      have hstatus := hawaits.status_eq
      have hringId := hawaits.ringId_eq
      rw [CoinStore.reached_of_coin? hlater, CoinStore.reached_of_coin? hcoin]
      cases hcoinbase : coin.isCoinbase <;> cases milestone <;>
        simp [aged, hlinked, htransfers, hcoin, hawaits, Milestone.isReached, hstatus, hringId,
          hcoinbase, CoinStatus.isUsedUp, CoinStatus.isTerminal]
    · -- The coin is as it was, so no milestone is reached anew.
      have hsame := h.others id fun coin hcoin hawaits => hwaits ⟨coin, hcoin, hawaits⟩
      rw [CoinStore.reached, hsame, ← CoinStore.reached]
      have hnot : id ∉ aged ⟨resolved.map Prod.fst,
          (resolved.filter fun entry => !entry.2).map Prod.fst⟩ milestone := by
        cases milestone with
        | linked => exact fun hmem => hwaits ((hlinked id).mp hmem)
        | matured =>
          intro hmem
          obtain ⟨coin, hcoin, hawaits, -⟩ := (htransfers id).mp hmem
          exact hwaits ⟨coin, hcoin, hawaits⟩
        | received | used | confirmed | invalidated => exact List.not_mem_nil
      simp [hnot]
  case kept =>
    intro id hnot
    refine h.others id fun coin hcoin hawaits => hnot .linked ?_
    exact (hlinked id).mpr ⟨coin, hcoin, hawaits⟩

end Resolves

theorem resolveAt_tells {height : UInt64} {resolved : List (CoinId × Bool)}
    (hsound : LoggedStore.Sound ⟨state.store, committed⟩)
    (hrun : outcome (tracker.resolveAt provider source height) state = (.ok resolved, after)) :
    (aged ⟨resolved.map Prod.fst, (resolved.filter fun entry => !entry.2).map Prod.fst⟩).Tells
      state.store after.store := by
  have hhistory := resolveAt_commits tracker provider source height state committed hsound
  rw [hrun] at hhistory
  have hadvances := hsound.advances_of_history hhistory
  unfold resolveAt at hrun
  split at hrun
  · exact (tracker.resolveGroup_resolves provider source hsound hrun).tells hadvances
  · cases hrun
    apply Journal.Tells.congr (.of_coin?_eq fun _ => rfl)
    intro milestone
    cases milestone <;> rfl

/-- What comes with a height: coins that are linked, and coins that wait no longer. -/
theorem handleMaturity_tells {height : UInt64} {report : MaturityReport}
    (hsound : LoggedStore.Sound ⟨state.store, committed⟩)
    (hrun : outcome (tracker.handleMaturity provider source height) state =
      (.ok report, after)) :
    (aged report).Tells state.store after.store := by
  rw [handleMaturity_eq] at hrun
  obtain ⟨resolved, between, hresolve, hrun⟩ := outcome_bind_eq_ok hrun
  obtain ⟨coinbase, last, hmature, hrun⟩ := outcome_bind_eq_ok hrun
  cases hrun
  obtain ⟨hcoinbase, rfl⟩ := Prod.mk.inj hmature
  have hbetween := (resolveAt_commits tracker provider source height).sound hsound hresolve
  have hfirst := resolveAt_tells tracker provider source hsound hresolve
  have hsecond := CoinStore.matureAt_tells tracker.params height hbetween
  rw [show (CoinStore.matureAt tracker.params height between.store).1 = coinbase from
    Except.ok.inj hcoinbase] at hsecond
  apply (hfirst.append hsecond).congr
  intro milestone
  cases milestone <;> simp [aged]

end Tracker

/-! ## The whole block -/

namespace Journal.Tells

variable {store later : CoinStore} {journal : Journal}

/-- What it means to be listed. -/
theorem mem_iff_newly (h : journal.Tells store later) (milestone : Milestone) (id : CoinId) :
    id ∈ journal milestone ↔
      (∃ coin, later.coin? id = some coin ∧ milestone.isReached coin = true) ∧
        ∀ coin, store.coin? id = some coin → milestone.isReached coin = false := by
  rw [h.mem_iff, CoinStore.reached_iff, CoinStore.reached, Option.any_eq_false]

/-- A milestone for which nothing is listed was reached before if it is reached behind. -/
theorem reached_of_nil (h : journal.Tells store later) {milestone : Milestone}
    (hnil : journal milestone = []) {id : CoinId} (hreached : later.reached milestone id = true) :
    store.reached milestone id = true := by
  cases hbefore : store.reached milestone id with
  | true => rfl
  | false =>
    have hmem := (h.mem_iff milestone id).mpr ⟨hreached, hbefore⟩
    rw [hnil] at hmem
    cases hmem

end Journal.Tells

namespace BlockReport

/-- The lists of coins in a report, by the milestone that each is about. -/
def journal (report : BlockReport) : Journal
  | .received => report.received
  | .linked => report.maturity.ringResolved
  | .matured => report.maturity.matured
  | .used => report.spends.spent
  | .confirmed => report.spends.confirmed
  | .invalidated => report.spends.invalidated

theorem journal_eq (report : BlockReport) (milestone : Milestone) :
    report.journal milestone =
      found report.received report.spends milestone ++ aged report.maturity milestone := by
  cases milestone with
  | received | used | confirmed | invalidated => exact (List.append_nil _).symm
  | linked | matured => rfl

/-- The report tells what the two stages of a block do to the coins. -/
structure TellsStages (report : BlockReport) (store between later : CoinStore) : Prop where
  found_tells : (found report.received report.spends).Tells store between
  names_ends : report.spends.NamesEnds
  aged_tells : (aged report.maturity).Tells between later

namespace TellsStages

variable {report : BlockReport} {store between later : CoinStore}

theorem journal_tells (h : report.TellsStages store between later) :
    report.journal.Tells store later :=
  (h.found_tells.append h.aged_tells).congr report.journal_eq

/-- A coin that is used up behind a block did not wait before it: coins are spent in the first stage
only, and stop waiting in the second only. -/
theorem ne_immature_of_isUsedUp (h : report.TellsStages store between later) {id : CoinId}
    {after : Coin} (hafter : later.coin? id = some after) (hused : after.status.isUsedUp = true) :
    ∃ coin, store.coin? id = some coin ∧ coin.status ≠ .immature := by
  have hlater : later.reached .used id = true := CoinStore.reached_iff.mpr ⟨after, hafter, hused⟩
  obtain ⟨coin, hcoin, hcoinUsed⟩ :=
    CoinStore.reached_iff.mp (h.aged_tells.reached_of_nil rfl hlater)
  have hmatured : between.reached .matured id = true := by
    refine CoinStore.reached_iff.mpr ⟨coin, hcoin, bne_iff_ne.mpr fun himmature => ?_⟩
    have hopen := CoinStatus.isUsedUp_eq_false_iff.mpr (.inl himmature)
    exact Bool.false_ne_true (hopen.symm.trans hcoinUsed)
  obtain ⟨old, hold, hstatus⟩ :=
    CoinStore.reached_iff.mp (h.found_tells.reached_of_nil rfl hmatured)
  exact ⟨old, hold, bne_iff_ne.mp hstatus⟩

theorem mem_received_iff (h : report.TellsStages store between later) (id : CoinId) :
    id ∈ report.received ↔ store.coin? id = none ∧ ∃ coin, later.coin? id = some coin := by
  have hnewly : id ∈ report.received ↔ _ := h.journal_tells.mem_iff_newly .received id
  rw [hnewly, Option.eq_none_iff_forall_ne_some]
  simp [Milestone.isReached, and_comm]

theorem mem_ringResolved_iff (h : report.TellsStages store between later) (id : CoinId) :
    id ∈ report.maturity.ringResolved ↔
      (∃ coin, later.coin? id = some coin ∧ coin.ringId? ≠ none) ∧
        ∀ coin, store.coin? id = some coin → coin.ringId? = none := by
  have hnewly : id ∈ report.maturity.ringResolved ↔ _ := h.journal_tells.mem_iff_newly .linked id
  simpa [Milestone.isReached] using hnewly

theorem mem_confirmed_iff (h : report.TellsStages store between later) (id : CoinId) :
    id ∈ report.spends.confirmed ↔
      (∃ coin, later.coin? id = some coin ∧ coin.status = .confirmed) ∧
        ∀ coin, store.coin? id = some coin → coin.status ≠ .confirmed := by
  have hnewly : id ∈ report.spends.confirmed ↔ _ := h.journal_tells.mem_iff_newly .confirmed id
  simpa [Milestone.isReached] using hnewly

theorem mem_invalidated_iff (h : report.TellsStages store between later) (id : CoinId) :
    id ∈ report.spends.invalidated ↔
      (∃ coin, later.coin? id = some coin ∧ coin.status = .invalid) ∧
        ∀ coin, store.coin? id = some coin → coin.status ≠ .invalid := by
  have hnewly : id ∈ report.spends.invalidated ↔ _ :=
    h.journal_tells.mem_iff_newly .invalidated id
  simpa [Milestone.isReached] using hnewly

/-- Coins that wait no longer can be spent: none of them is used up already. -/
theorem mem_matured_iff (h : report.TellsStages store between later) (id : CoinId) :
    id ∈ report.maturity.matured ↔
      (∃ coin, later.coin? id = some coin ∧ coin.status = .spendable) ∧
        ∀ coin, store.coin? id = some coin → coin.status = .immature := by
  have hnewly : id ∈ report.maturity.matured ↔ _ := h.journal_tells.mem_iff_newly .matured id
  have hmatured : id ∈ report.maturity.matured ↔
      (∃ coin, later.coin? id = some coin ∧ coin.status ≠ .immature) ∧
        ∀ coin, store.coin? id = some coin → coin.status = .immature := by
    simpa [Milestone.isReached] using hnewly
  rw [hmatured]
  constructor
  · rintro ⟨⟨coin, hcoin, hstatus⟩, hbefore⟩
    refine ⟨⟨coin, hcoin, ?_⟩, hbefore⟩
    cases hused : coin.status.isUsedUp with
    | true =>
      obtain ⟨old, hold, hne⟩ := h.ne_immature_of_isUsedUp hcoin hused
      exact absurd (hbefore old hold) hne
    | false => exact (CoinStatus.isUsedUp_eq_false_iff.mp hused).resolve_left hstatus
  · rintro ⟨⟨coin, hcoin, hstatus⟩, hbefore⟩
    refine ⟨⟨coin, hcoin, ?_⟩, hbefore⟩
    rw [hstatus]
    decide

/-- A coin under one of the two ends is used up. -/
theorem exists_isUsedUp_of_end (h : report.TellsStages store between later) {id : CoinId}
    (hend : id ∈ report.spends.confirmed ∨ id ∈ report.spends.invalidated) :
    ∃ coin, later.coin? id = some coin ∧ coin.status.isUsedUp = true := by
  rcases hend with hend | hend
  · obtain ⟨⟨coin, hcoin, hstatus⟩, -⟩ := (h.mem_confirmed_iff id).mp hend
    exact ⟨coin, hcoin, by rw [hstatus]; rfl⟩
  · obtain ⟨⟨coin, hcoin, hstatus⟩, -⟩ := (h.mem_invalidated_iff id).mp hend
    exact ⟨coin, hcoin, by rw [hstatus]; rfl⟩

/-- The coins that are spent are those that come to an end and could be spent before. -/
theorem mem_spent_iff (h : report.TellsStages store between later) (id : CoinId) :
    id ∈ report.spends.spent ↔
      (id ∈ report.spends.confirmed ∨ id ∈ report.spends.invalidated) ∧
        ∃ coin, store.coin? id = some coin ∧ coin.status = .spendable := by
  have hnewly : id ∈ report.spends.spent ↔ _ := h.journal_tells.mem_iff_newly .used id
  constructor
  · intro hmem
    obtain ⟨⟨coin, hcoin, hused⟩, hbefore⟩ := hnewly.mp hmem
    obtain ⟨old, hold, hne⟩ := h.ne_immature_of_isUsedUp hcoin hused
    have hstatus := (CoinStatus.isUsedUp_eq_false_iff.mp (hbefore old hold)).resolve_left hne
    exact ⟨h.names_ends id hmem, old, hold, hstatus⟩
  · rintro ⟨hend, coin, hcoin, hstatus⟩
    refine hnewly.mpr ⟨h.exists_isUsedUp_of_end hend, fun other hother => ?_⟩
    rw [hcoin] at hother
    cases hother
    exact CoinStatus.isUsedUp_eq_false_iff.mpr (.inr hstatus)

/-- A coin that is on no list is as it was: what is spent is also under one of the ends. -/
theorem coin?_eq (h : report.TellsStages store between later) {id : CoinId}
    (hreceived : id ∉ report.received) (hringResolved : id ∉ report.maturity.ringResolved)
    (hmatured : id ∉ report.maturity.matured) (hconfirmed : id ∉ report.spends.confirmed)
    (hinvalidated : id ∉ report.spends.invalidated) : later.coin? id = store.coin? id := by
  apply h.journal_tells.kept id
  intro milestone
  cases milestone with
  | received => exact hreceived
  | linked => exact hringResolved
  | matured => exact hmatured
  | used => exact fun hmem => (h.names_ends id hmem).elim hconfirmed hinvalidated
  | confirmed => exact hconfirmed
  | invalidated => exact hinvalidated

/-- A report that tells the stages, and whose names of transactions are those of a block, is
exact. -/
theorem isExact (h : report.TellsStages store between later) {block : ChainBlock}
    {marked : CoinStore} (hmarked : marked.pending = store.pending) (hkeyed : marked.SentKeyed)
    (hnames : report.confirmedTxs = (marked.trackPending block).1)
    (hpending : later.pending = (marked.trackPending block).2.pending) :
    report.IsExact store later where
  received_iff := h.mem_received_iff
  ringResolved_iff := h.mem_ringResolved_iff
  matured_iff := h.mem_matured_iff
  confirmed_iff := h.mem_confirmed_iff
  invalidated_iff := h.mem_invalidated_iff
  spent_iff := h.mem_spent_iff
  confirmedTxs_iff txid := by
    rw [hnames, hpending, ← hmarked]
    exact CoinStore.mem_trackPending_iff_confirmed hkeyed
  nodup := by
    have hlists := h.journal_tells.nodup
    refine ⟨hlists .received, hlists .linked, hlists .matured, hlists .confirmed,
      hlists .invalidated, hlists .used, ?_⟩
    rw [hnames]
    exact CoinStore.nodup_trackPending hkeyed
  coin_kept _ := h.coin?_eq
  tx_kept txid hnot := by
    rw [hpending, marked.pending_trackPending block, if_neg (hnames ▸ hnot), hmarked]

end TellsStages

end BlockReport

namespace Tracker

/-- Where a block is processed, its report is exact. -/
theorem processBlock_isExact (tracker : Tracker) (provider : Provider σ) (source : BlockSource σ)
    {block : ChainBlock} {committed : List CoinRing} {state after : TrackState σ}
    {report : BlockReport} (hsound : LoggedStore.Sound ⟨state.store, committed⟩)
    (hkeyed : state.store.SentKeyed)
    (hrun : outcome (tracker.processBlock provider source block) state = (.ok report, after)) :
    report.IsExact state.store after.store := by
  unfold processBlock at hrun
  obtain ⟨⟨received, spends⟩, scanned, hscan, hrun⟩ := outcome_bind_eq_ok hrun
  obtain ⟨confirmedTxs, marked, hmark, hrun⟩ := outcome_bind_eq_ok hrun
  obtain ⟨maturity, last, hmaturity, hrun⟩ := outcome_bind_eq_ok hrun
  cases hrun
  have hnames : confirmedTxs = (CoinStore.trackPending block scanned.store).1 :=
    (Except.ok.inj (congrArg Prod.fst hmark)).symm
  have hstore : marked.store = (CoinStore.trackPending block scanned.store).2 :=
    (congrArg (fun result => result.2.store) hmark).symm
  have hscanned := (processTxs_commits tracker provider block.hash block.height true
    block.txs).sound hsound hscan
  have hmarked := hscanned.of_history (CoinStore.trackPending_history block scanned.store)
  rw [← hstore] at hmarked
  obtain ⟨htxs, hends⟩ := processTxs_tells tracker provider hsound hscan
  -- Confirming sent transactions changes no coin.
  have hfound : (found received spends).Tells state.store marked.store := by
    rw [hstore]
    exact htxs.of_coin?_eq_behind (CoinStore.coin?_trackPending block scanned.store)
  have haged := handleMaturity_tells tracker provider source hmarked hmaturity
  have hsent : scanned.store.pending = state.store.pending := by
    have hleaves := processTxs_leaves_pending tracker provider block.hash block.height true
      block.txs state
    rw [hscan] at hleaves
    exact hleaves
  have hscannedKeyed : scanned.store.SentKeyed := fun hfound =>
    hkeyed (CoinStore.sentAs?_eq_of_pending_eq hsent ▸ hfound)
  have hpending : after.store.pending =
      (CoinStore.trackPending block scanned.store).2.pending := by
    have hleaves := handleMaturity_leaves_pending tracker provider source block.height marked
    rw [hmaturity, hstore] at hleaves
    exact hleaves
  have hstages : BlockReport.TellsStages ⟨block.height, received, spends, maturity, confirmedTxs⟩
      state.store marked.store after.store := ⟨hfound, hends, haged⟩
  exact hstages.isExact hsent hscannedKeyed hnames hpending

end Tracker

namespace Wallet

/-- The report of a block is exact, in every state of a run and whatever the provider and the source
answer: where the block is processed, the report names each coin and each sent transaction that is
different behind it, under what happened to it, and nothing else is different. -/
theorem block_report_exact (params : ChainParams) (outside : σ) (ops : List (Operation σ))
    (provider : Provider σ) (source : BlockSource σ) (block : ChainBlock) :
    let wallet := (start params outside).run ops
    let run := outcome (wallet.tracker.processBlock provider source block)
      ⟨wallet.store, wallet.outside⟩
    ∀ report, run.1 = .ok report → report.IsExact wallet.store run.2.store := by
  intro wallet run report hok
  have hsound : LoggedStore.Sound ⟨wallet.store, (start params outside).committed ops⟩ :=
    run_sound params outside ops
  have hkeyed : wallet.store.SentKeyed := (run_sentSound params outside ops).keyed
  exact wallet.tracker.processBlock_isExact provider source hsound hkeyed (Prod.ext hok rfl)

/-- The second block of the small run shows the serial number of the only coin, which is spendable
only behind that block: the report names the coin as matured and as nothing else. -/
theorem small_run_block_report_exact :
    let wallet := (start SmallRun.params ()).run SmallRun.receiving
    let run := outcome (wallet.tracker.processBlock SmallRun.provider SmallRun.source
      SmallRun.spending) ⟨wallet.store, wallet.outside⟩
    let report : BlockReport := ⟨1, [], .empty, ⟨[], [SmallRun.coinName]⟩, []⟩
    run.1 = .ok report ∧ report.IsExact wallet.store run.2.store := by
  intro wallet run report
  have hok : run.1 = .ok report := by decide +kernel
  exact ⟨hok, block_report_exact SmallRun.params () SmallRun.receiving SmallRun.provider
    SmallRun.source SmallRun.spending report hok⟩

end Wallet

end RingWallet
