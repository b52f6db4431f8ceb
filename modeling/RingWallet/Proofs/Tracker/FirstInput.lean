import RingWallet.Proofs.Store.Milestone
import RingWallet.Proofs.Store.Sent
import RingWallet.Proofs.Tracker.Run

/-!
# The first matching input decides a coin

A spendable or spent coin is decided by the first input of a transaction that shows its serial
number (`Coin.decider?`). That input brings the coin to one of its two ends, which no later input of
the transaction moves it from, so the inputs together do what the first one does
(`seenBy_of_decider?`).

So the report of a transaction is told coin by coin: a decided coin is listed once under its end,
and as spent if it was spendable, and all else stays as it was (`SpendReport.IsDecided`). This holds
in every state of a run, for every transaction (`Wallet.spends_decided`).
-/

set_option autoImplicit false

namespace RingWallet

/-! ## The deciding input -/

namespace Coin

/-- The input that decides a coin: the first that shows its serial number, if the coin can be spent
or is spent. -/
def decider? (coin : Coin) (inputs : List ChainInput) : Option ChainInput :=
  if coin.status = .spendable ∨ coin.status = .spent then
    inputs.find? fun input => decide (coin.serialNumber? = some input.serialNumber)
  else none

theorem decider?_eq_some_iff {coin : Coin} {inputs : List ChainInput} {input : ChainInput} :
    coin.decider? inputs = some input ↔
      (coin.status = .spendable ∨ coin.status = .spent) ∧
        coin.serialNumber? = some input.serialNumber ∧
        ∃ before after, inputs = before ++ input :: after ∧
          ∀ other ∈ before, coin.serialNumber? ≠ some other.serialNumber := by
  unfold decider?
  split
  · rename_i hstatus
    simp [List.find?_eq_some_iff_append, hstatus]
  · rename_i hstatus
    simp [hstatus]

/-- A coin that no input decides is as it was behind them. -/
theorem seenBy_of_undecided {coin : Coin} {inputs : List ChainInput}
    (h : coin.decider? inputs = none) : coin.seenBy inputs = coin := by
  unfold decider? at h
  split at h
  · refine seenBy_of_not_shown fun input hmem => ?_
    have hnot := List.find?_eq_none.mp h input hmem
    rwa [decide_eq_true_eq] at hnot
  · rename_i hstatus
    exact seenBy_of_status inputs hstatus

/-- A decided coin is confirmed behind the inputs if the deciding one lists it, and invalid
otherwise. -/
theorem seenBy_of_decider? {coin : Coin} {inputs : List ChainInput} {input : ChainInput}
    (h : coin.decider? inputs = some input) :
    coin.seenBy inputs = { coin with status := CoinStore.verdict input.ring coin.id } := by
  obtain ⟨hstatus, hserial, before, after, rfl, hbefore⟩ := decider?_eq_some_iff.mp h
  have hdecided : coin.seenIn input =
      { coin with status := CoinStore.verdict input.ring coin.id } := by
    unfold seenIn
    exact if_pos ⟨hserial, hstatus⟩
  have hsplit : coin.seenBy (before ++ input :: after) =
      ((coin.seenBy before).seenIn input).seenBy after := List.foldl_append
  rw [hsplit, seenBy_of_not_shown hbefore, hdecided]
  -- The coin is at its end, and the inputs behind the deciding one leave it there.
  apply seenBy_of_isTerminal
  rcases CoinStore.verdict_eq_or input.ring coin.id with hend | hend
  · rw [hend]
    rfl
  · rw [hend]
    rfl

/-- Of two inputs that show the serial number with contradictory rings, the first decides. -/
example : (({ SmallRun.coin with status := .spendable } : Coin).seenBy
    [⟨SmallRun.serialNumber, [], []⟩, ⟨SmallRun.serialNumber, [SmallRun.coinName], []⟩]).status =
      .invalid := by
  decide

end Coin

/-! ## Reports -/

/-- A report and the store behind it are what the deciding inputs of the coins say. -/
structure SpendReport.IsDecided (report : SpendReport) (inputs : List ChainInput)
    (store later : CoinStore) : Prop where
  /-- A decided coin is confirmed if the ring of the deciding input lists it, and else invalid. -/
  coin_decided : ∀ {id coin input}, store.coin? id = some coin → coin.decider? inputs = some input →
    later.coin? id =
      some { coin with status := if id ∈ input.ring then .confirmed else .invalid }
  /-- Every other coin is as it was. -/
  coin_kept : ∀ {id coin}, store.coin? id = some coin → coin.decider? inputs = none →
    later.coin? id = some coin
  none_new : ∀ {id}, store.coin? id = none → later.coin? id = none
  /-- Nothing but coins changes. -/
  rings_kept : later.rings = store.rings ∧ later.memberRings = store.memberRings ∧
    later.serialIndex = store.serialIndex
  pending_kept : later.pending = store.pending
  confirmed_iff : ∀ id, id ∈ report.confirmed ↔ ∃ coin input, store.coin? id = some coin ∧
    coin.decider? inputs = some input ∧ id ∈ input.ring
  invalidated_iff : ∀ id, id ∈ report.invalidated ↔ ∃ coin input, store.coin? id = some coin ∧
    coin.decider? inputs = some input ∧ id ∉ input.ring
  spent_iff : ∀ id, id ∈ report.spent ↔ ∃ coin input, store.coin? id = some coin ∧
    coin.decider? inputs = some input ∧ coin.status = .spendable
  /-- Under the two ends together, and as spent, a coin is listed once. -/
  nodup_ends : (report.confirmed ++ report.invalidated).Nodup
  nodup_spent : report.spent.Nodup

namespace CoinStore

open Journal (found)

variable {committed : List CoinRing}

theorem verdict_eq (ring : List CoinId) (id : CoinId) :
    verdict ring id = if id ∈ ring then .confirmed else .invalid := by
  simp [verdict]

/-- A milestone is listed for the coins that are decided and pass it on the way to their end. -/
theorem mem_trackInputs_iff (inputs : List ChainInput) {store : CoinStore}
    (hsound : LoggedStore.Sound ⟨store, committed⟩) (milestone : Milestone) (id : CoinId) :
    id ∈ found [] (trackInputs inputs store).1 milestone ↔
      ∃ coin input, store.coin? id = some coin ∧ coin.decider? inputs = some input ∧
        milestone.isPassed coin.status (verdict input.ring id) = true := by
  rw [(trackInputs_tells inputs hsound).mem_iff]
  have heffect := coin?_trackInputs inputs hsound id
  cases hcoin : store.coin? id with
  | none =>
    rw [hcoin] at heffect
    rw [reached_of_none heffect]
    simp
  | some coin =>
    obtain rfl : coin.id = id := hsound.id_eq hcoin
    rw [hcoin, Option.map_some] at heffect
    rw [reached_of_coin? heffect, reached_of_coin? hcoin]
    cases hdecider : coin.decider? inputs with
    | none =>
      rw [Coin.seenBy_of_undecided hdecider]
      simp [hdecider]
    | some input =>
      obtain ⟨hstatus, -⟩ := Coin.decider?_eq_some_iff.mp hdecider
      have hpassed :=
        Milestone.isReached_at_end hstatus (verdict_eq_or input.ring coin.id) milestone
      rw [Coin.seenBy_of_decider? hdecider]
      simp [hdecider, ← hpassed]

/-- Following the inputs of a transaction does what the deciding inputs say. -/
theorem trackInputs_isDecided (inputs : List ChainInput) {store : CoinStore}
    (hsound : LoggedStore.Sound ⟨store, committed⟩) :
    (trackInputs inputs store).1.IsDecided inputs store (trackInputs inputs store).2 where
  coin_decided {id coin input} hcoin hdecider := by
    have hid : coin.id = id := hsound.id_eq hcoin
    rw [coin?_trackInputs inputs hsound, hcoin, Option.map_some, Coin.seenBy_of_decider? hdecider,
      hid, verdict_eq]
  coin_kept hcoin hdecider := by
    rw [coin?_trackInputs inputs hsound, hcoin, Option.map_some,
      Coin.seenBy_of_undecided hdecider]
  none_new hnone := by
    rw [coin?_trackInputs inputs hsound, hnone, Option.map_none]
  rings_kept := (OnlyCoins.trackInputs inputs store).rings_eq
  pending_kept := (OnlyCoins.trackInputs inputs store).pending_eq
  confirmed_iff id := by
    have hmem := mem_trackInputs_iff inputs hsound .confirmed id
    simpa [found, Milestone.isPassed, verdict_eq] using hmem
  invalidated_iff id := by
    have hmem := mem_trackInputs_iff inputs hsound .invalidated id
    simpa [found, Milestone.isPassed, verdict_eq] using hmem
  spent_iff id := by
    have hmem := mem_trackInputs_iff inputs hsound .used id
    simpa [found, Milestone.isPassed] using hmem
  nodup_ends := by
    have htells := trackInputs_tells inputs hsound
    refine List.nodup_append.mpr ⟨htells.nodup .confirmed, htells.nodup .invalidated, ?_⟩
    -- No coin is at both ends.
    rintro id hconfirmed _ hinvalid rfl
    obtain ⟨hat, -⟩ := (htells.mem_iff .confirmed id).mp hconfirmed
    obtain ⟨hatOther, -⟩ := (htells.mem_iff .invalidated id).mp hinvalid
    obtain ⟨coin, hcoin, hstatus⟩ := reached_iff.mp hat
    rw [reached_of_coin? hcoin] at hatOther
    simp only [Milestone.isReached, beq_iff_eq] at hstatus hatOther
    rw [hstatus] at hatOther
    cases hatOther
  nodup_spent := (trackInputs_tells inputs hsound).nodup .used

end CoinStore

namespace Wallet

variable {σ : Type}

/-- In every state of a run and for every transaction, following the spends of the transaction
succeeds without asking the outside world, and does what the deciding inputs of the stored coins
say. -/
theorem spends_decided (params : ChainParams) (outside : σ) (ops : List (Operation σ))
    (tx : ChainTx) :
    let wallet := (start params outside).run ops
    ∃ report later,
      outcome (TrackM.onStore (CoinStore.trackSpends tx)) ⟨wallet.store, wallet.outside⟩ =
        (.ok report, ⟨later, wallet.outside⟩) ∧
      report.IsDecided tx.inputs wallet.store later := by
  intro wallet
  have hsound := run_sound params outside ops
  exact ⟨_, _, TrackM.outcome_onStore _ _, CoinStore.trackInputs_isDecided tx.inputs hsound⟩

end Wallet

end RingWallet
