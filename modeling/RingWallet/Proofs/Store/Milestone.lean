import RingWallet.Proofs.Store.Advance
import RingWallet.Proofs.Store.Effect

/-!
# Milestones in the life of a coin

A coin that moves forward passes milestones and never loses one (`isReached_of_advances`): it is
received, linked to its ring, done with waiting, used up, confirmed or found invalid. What happened
between two stores is therefore told by a `Journal`, which names for each milestone the coins that
reached it in between. A journal tells the change from one store to another if it names exactly these
coins, each once for a milestone, and if every coin that it does not name is as it was
(`Journal.Tells`).

Journals of changes that follow one another are appended (`Tells.append`), so each operation of the
store needs to be told by itself only: recording an output, following inputs, and making coinbase
coins spendable.
-/

set_option autoImplicit false

namespace RingWallet

/-- What a coin can have behind it. -/
inductive Milestone
  | received
  /-- Its ring is known. -/
  | linked
  /-- It waits no longer. -/
  | matured
  /-- It was spent, or is at its end. -/
  | used
  | confirmed
  | invalidated
  deriving DecidableEq

/-- Whether a coin has reached a milestone. -/
def Milestone.isReached : Milestone → Coin → Bool
  | received, _ => true
  | linked, coin => decide (coin.ringId? ≠ none)
  | matured, coin => coin.status != .immature
  | used, coin => coin.status.isUsedUp
  | confirmed, coin => coin.status == .confirmed
  | invalidated, coin => coin.status == .invalid

/-- No step leads back to waiting. -/
theorem CoinStatus.ne_immature_of_reaches {status next : CoinStatus} (h : status.Reaches next)
    (hstatus : status ≠ .immature) : next ≠ .immature := by
  induction h with
  | refl => exact hstatus
  | @tail before after _ hstep ih =>
    rintro rfl
    revert hstep
    cases before <;> decide

/-- A milestone is never lost. -/
theorem Milestone.isReached_of_advances {coin later : Coin} (h : coin.Advances later)
    {milestone : Milestone} (hreached : milestone.isReached coin = true) :
    milestone.isReached later = true := by
  have hends : ∀ status : CoinStatus, status.isTerminal = true → coin.status = status →
      later.status = status := by
    rintro status hend rfl
    exact CoinStatus.eq_of_reaches_of_isTerminal h.status_reaches hend
  cases milestone with
  | received => rfl
  | linked =>
    obtain ⟨ringId, hringId⟩ := Option.ne_none_iff_exists'.mp (of_decide_eq_true hreached)
    exact decide_eq_true (Option.ne_none_iff_exists'.mpr ⟨ringId, h.ringId_kept ringId hringId⟩)
  | matured =>
    exact bne_iff_ne.mpr
      (CoinStatus.ne_immature_of_reaches h.status_reaches (bne_iff_ne.mp hreached))
  | used => exact CoinStatus.isUsedUp_of_reaches h.status_reaches hreached
  | confirmed => exact beq_iff_eq.mpr (hends .confirmed rfl (beq_iff_eq.mp hreached))
  | invalidated => exact beq_iff_eq.mpr (hends .invalid rfl (beq_iff_eq.mp hreached))

/-- Whether a milestone lies on the way of a spendable or spent coin to one of its ends. -/
def Milestone.isPassed (status verdict : CoinStatus) : Milestone → Bool
  | .used => status == .spendable
  | .confirmed => verdict == .confirmed
  | .invalidated => verdict == .invalid
  | .received | .linked | .matured => false

theorem Milestone.isReached_at_end {coin : Coin} {verdict : CoinStatus}
    (hstatus : coin.status = .spendable ∨ coin.status = .spent)
    (hverdict : verdict = .confirmed ∨ verdict = .invalid) (milestone : Milestone) :
    (milestone.isReached { coin with status := verdict } && !milestone.isReached coin) =
      milestone.isPassed coin.status verdict := by
  rcases hstatus with hstatus | hstatus <;> rcases hverdict with rfl | rfl <;>
    cases milestone <;> simp only [isReached, hstatus, Bool.and_not_self] <;> rfl

namespace CoinStore

/-- Whether a store holds a coin of a name that has reached a milestone. -/
def reached (store : CoinStore) (milestone : Milestone) (id : CoinId) : Bool :=
  (store.coin? id).any milestone.isReached

theorem reached_iff {store : CoinStore} {milestone : Milestone} {id : CoinId} :
    store.reached milestone id = true ↔
      ∃ coin, store.coin? id = some coin ∧ milestone.isReached coin = true :=
  Option.any_eq_true _ _

theorem reached_of_coin? {store : CoinStore} {id : CoinId} {coin : Coin}
    (hcoin : store.coin? id = some coin) (milestone : Milestone) :
    store.reached milestone id = milestone.isReached coin := by
  rw [reached, hcoin, Option.any_some]

theorem reached_of_none {store : CoinStore} {id : CoinId} (hnone : store.coin? id = none)
    (milestone : Milestone) : store.reached milestone id = false := by
  rw [reached, hnone, Option.any_none]

theorem Advances.reached {store later : CoinStore} (h : store.Advances later)
    {milestone : Milestone} {id : CoinId} (hreached : store.reached milestone id = true) :
    later.reached milestone id = true := by
  obtain ⟨coin, hcoin, hmilestone⟩ := reached_iff.mp hreached
  obtain ⟨after, hafter, hadvances⟩ := h id coin hcoin
  exact reached_iff.mpr ⟨after, hafter, Milestone.isReached_of_advances hadvances hmilestone⟩

end CoinStore

/-! ## Journals -/

/-- The names of coins that reached each of the milestones. -/
abbrev Journal := Milestone → List CoinId

/-- A journal says exactly what happened to the coins of a store until a later one. -/
structure Journal.Tells (journal : Journal) (store later : CoinStore) : Prop where
  advances : store.Advances later
  /-- A name is listed once for a milestone. -/
  nodup : ∀ milestone, (journal milestone).Nodup
  /-- Exactly the coins that reached the milestone are listed for it. -/
  mem_iff : ∀ milestone id, id ∈ journal milestone ↔
    later.reached milestone id = true ∧ store.reached milestone id = false
  /-- A coin that is not listed at all is as it was. -/
  kept : ∀ id, (∀ milestone, id ∉ journal milestone) → later.coin? id = store.coin? id

namespace Journal

namespace Tells

variable {store later : CoinStore} {journal : Journal}

theorem congr (h : journal.Tells store later) {other : Journal}
    (heq : ∀ milestone, other milestone = journal milestone) : other.Tells store later := by
  have hsame : other = journal := funext heq
  rw [hsame]
  exact h

/-- Where no coin changes, there is nothing to tell. -/
theorem of_coin?_eq (h : ∀ id, later.coin? id = store.coin? id) :
    Journal.Tells (fun _ => []) store later where
  advances := .of_coin?_eq h
  nodup _ := List.nodup_nil
  mem_iff milestone id := by
    rw [CoinStore.reached, h, ← CoinStore.reached]
    simp
  kept id _ := h id

/-- One journal behind the other tells both changes: as no milestone is lost, none is listed
twice. -/
theorem append {between : CoinStore} {second : Journal} (hfirst : journal.Tells store between)
    (hsecond : second.Tells between later) :
    Journal.Tells (fun milestone => journal milestone ++ second milestone) store later where
  advances := hfirst.advances.trans hsecond.advances
  nodup milestone := by
    refine List.nodup_append.mpr ⟨hfirst.nodup milestone, hsecond.nodup milestone, ?_⟩
    rintro id hid _ hother rfl
    obtain ⟨hreached, -⟩ := (hfirst.mem_iff milestone id).mp hid
    obtain ⟨-, hnot⟩ := (hsecond.mem_iff milestone id).mp hother
    rw [hreached] at hnot
    cases hnot
  mem_iff milestone id := by
    rw [List.mem_append, hfirst.mem_iff, hsecond.mem_iff]
    constructor
    · rintro (⟨hreached, hnot⟩ | ⟨hreached, hnot⟩)
      · exact ⟨hsecond.advances.reached hreached, hnot⟩
      · refine ⟨hreached, Bool.eq_false_iff.mpr fun hbefore => ?_⟩
        rw [hfirst.advances.reached hbefore] at hnot
        cases hnot
    · rintro ⟨hreached, hnot⟩
      cases hbetween : between.reached milestone id with
      | true => exact .inl ⟨rfl, hnot⟩
      | false => exact .inr ⟨hreached, rfl⟩
  kept id hnot := by
    rw [hsecond.kept id fun milestone hmem => hnot milestone (List.mem_append_right _ hmem)]
    exact hfirst.kept id fun milestone hmem => hnot milestone (List.mem_append_left _ hmem)

/-- Where no coin changes any more, the journal stays as it is. -/
theorem of_coin?_eq_behind {between : CoinStore} (h : journal.Tells store between)
    (hsame : ∀ id, later.coin? id = between.coin? id) : journal.Tells store later :=
  (h.append (.of_coin?_eq hsame)).congr fun _ => (List.append_nil _).symm

/-- A change of one coin is told by the milestones that the coin reached, if it reached any. -/
theorem single (name : CoinId) (hadvances : store.Advances later)
    (hothers : ∀ id, name ≠ id → later.coin? id = store.coin? id)
    (hsame : (∀ milestone, later.reached milestone name = store.reached milestone name) →
      later.coin? name = store.coin? name) :
    Journal.Tells (fun milestone =>
      if later.reached milestone name && !store.reached milestone name then [name] else [])
      store later where
  advances := hadvances
  nodup milestone := by
    split <;> simp
  mem_iff milestone id := by
    by_cases hid : name = id
    · subst hid
      cases later.reached milestone name <;> cases store.reached milestone name <;> simp
    · have hview : later.reached milestone id = store.reached milestone id := by
        rw [CoinStore.reached, hothers id hid, ← CoinStore.reached]
      rw [hview]
      split <;> simp [Ne.symm hid]
  kept id hnot := by
    by_cases hid : name = id
    · subst hid
      refine hsame fun milestone => ?_
      have hmilestone := hnot milestone
      cases hbefore : store.reached milestone name with
      | true => exact hadvances.reached hbefore
      | false =>
        rw [hbefore] at hmilestone
        simpa using hmilestone
    · exact hothers id hid

end Tells

/-- What is found in the transactions of a block: received coins, and the coins that inputs spend. -/
def found (received : List CoinId) (spends : SpendReport) : Journal
  | .received => received
  | .linked | .matured => []
  | .used => spends.spent
  | .confirmed => spends.confirmed
  | .invalidated => spends.invalidated

/-- What comes with the height of a block: coins that are linked, and coins that wait no longer. -/
def aged (report : MaturityReport) : Journal
  | .linked => report.ringResolved
  | .matured => report.matured
  | .received | .used | .confirmed | .invalidated => []

/-- There is nothing to tell where no coin changes. -/
theorem found_tells_of_coin?_eq {store later : CoinStore}
    (h : ∀ id, later.coin? id = store.coin? id) : (found [] .empty).Tells store later := by
  apply (Tells.of_coin?_eq h).congr
  intro milestone
  cases milestone <;> rfl

theorem found_append (received more : List CoinId) (spends others : SpendReport)
    (milestone : Milestone) :
    found (received ++ more) (spends ++ others) milestone =
      found received spends milestone ++ found more others milestone := by
  cases milestone <;> rfl

end Journal

namespace SpendReport

/-- Every coin that a report of inputs names as spent, it names under one of the two ends. -/
def NamesEnds (report : SpendReport) : Prop :=
  ∀ id ∈ report.spent, id ∈ report.confirmed ∨ id ∈ report.invalidated

theorem NamesEnds.empty : NamesEnds SpendReport.empty := fun _ hmem => by cases hmem

theorem NamesEnds.append {report other : SpendReport} (h : NamesEnds report)
    (hother : NamesEnds other) : NamesEnds (report ++ other) := by
  intro id hmem
  rcases List.mem_append.mp hmem with hmem | hmem
  · exact (h id hmem).imp (List.mem_append_left _) (List.mem_append_left _)
  · exact (hother id hmem).imp (List.mem_append_right _) (List.mem_append_right _)

end SpendReport

/-! ## Operations of the store -/

namespace CoinStore

open Journal (found aged)

variable {store : CoinStore} {committed : List CoinRing}

/-- Receiving a coin is all that there is to tell, if the coin is new. -/
theorem insertCoin_tells (hsound : LoggedStore.Sound ⟨store, committed⟩) {coin : Coin}
    (hfresh : coin.IsFresh) :
    (found (if (store.insertCoin coin).1 then [coin.id] else []) .empty).Tells store
      (store.insertCoin coin).2 := by
  have hview := coin?_insertCoin store coin
  rw [insertCoin_isNew]
  cases hold : store.coin? coin.id with
  | some old =>
    refine Journal.found_tells_of_coin?_eq fun id => ?_
    rw [hview]
    split
    · rename_i hid
      rw [← hid, hold]
      rfl
    · rfl
  | none =>
    have hlater : (store.insertCoin coin).2.coin? coin.id = some coin := by
      rw [hview, if_pos rfl, hold]
      rfl
    have hadvances := hsound.advances_of_history (insertCoin_history store hfresh)
    apply (Journal.Tells.single coin.id hadvances (fun id hid => ?_) fun hsame => ?_).congr
    · intro milestone
      rw [reached_of_coin? hlater, reached_of_none hold]
      cases milestone <;>
        simp [found, SpendReport.empty, Milestone.isReached, hfresh.status_eq, hfresh.ringId_eq,
          CoinStatus.isUsedUp, CoinStatus.isTerminal]
    · exact (hview id).trans (if_neg hid)
    · -- The coin was not there to be received before.
      have hreceived := hsame .received
      rw [reached_of_coin? hlater, reached_of_none hold] at hreceived
      cases hreceived

theorem record_tells (hsound : LoggedStore.Sound ⟨store, committed⟩)
    {coinOf : AccountId → UInt64 → Coin}
    (hfresh : ∀ account value, (coinOf account value).IsFresh) {name : CoinId}
    (hname : ∀ account value, (coinOf account value).id = name)
    (owner? : Option (AccountId × UInt64)) :
    (found (if (record coinOf owner? store).1 then [name] else []) .empty).Tells store
      (record coinOf owner? store).2 := by
  cases owner? with
  | none => exact Journal.found_tells_of_coin?_eq fun _ => rfl
  | some owner =>
    have htells := insertCoin_tells hsound (hfresh owner.1 owner.2)
    rw [hname] at htells
    exact htells

/-- The report of an input names a coin that is spendable or spent under the end that it comes to,
and as spent if it was spendable. -/
theorem applyInput_report (ring : List CoinId) {coin : Coin}
    (hstatus : coin.status = .spendable ∨ coin.status = .spent) (store : CoinStore) :
    (applyInput ring coin store).1 =
      ⟨if coin.status == .spendable then [coin.id] else [],
        if verdict ring coin.id == .confirmed then [coin.id] else [],
        if verdict ring coin.id == .invalid then [coin.id] else []⟩ := by
  unfold applyInput verdict
  rw [if_pos hstatus]
  by_cases hlists : ring.contains coin.id = true <;> rcases hstatus with hstatus | hstatus <;>
    simp only [hlists, hstatus] <;> rfl

theorem applyInput_tells (ring : List CoinId) {coin : Coin}
    (hcoin : store.coin? coin.id = some coin) :
    (found [] (applyInput ring coin store).1).Tells store (applyInput ring coin store).2 := by
  have hview := coin?_applyInput ring hcoin
  have hverdict := verdict_eq_or ring coin.id
  by_cases hstatus : coin.status = .spendable ∨ coin.status = .spent
  · have hlater : (applyInput ring coin store).2.coin? coin.id =
        some { coin with status := verdict ring coin.id } := by
      rw [hview, if_pos rfl, if_pos hstatus]
    have hreaches : coin.status.Reaches (verdict ring coin.id) := by
      have hspent : CoinStatus.spent.Reaches (verdict ring coin.id) := by
        rcases hverdict with hverdict | hverdict <;> rw [hverdict] <;> exact .step rfl
      rcases hstatus with hstatus | hstatus <;> rw [hstatus]
      · exact .head rfl hspent
      · exact hspent
    have hadvances : store.Advances (applyInput ring coin store).2 := by
      intro id old hold
      by_cases hid : coin.id = id
      · subst hid
        rw [hcoin] at hold
        cases hold
        exact ⟨_, hlater, .withStatus hreaches⟩
      · exact ⟨old, (hview id).trans ((if_neg hid).trans hold), .refl old⟩
    have hnew : ∀ milestone, ((applyInput ring coin store).2.reached milestone coin.id &&
        !store.reached milestone coin.id) =
          milestone.isPassed coin.status (verdict ring coin.id) := by
      intro milestone
      rw [reached_of_coin? hlater, reached_of_coin? hcoin]
      exact Milestone.isReached_at_end hstatus hverdict milestone
    apply (Journal.Tells.single coin.id hadvances (fun id hid => ?_) fun hsame => ?_).congr
    · intro milestone
      rw [hnew, applyInput_report ring hstatus store]
      cases milestone <;> rfl
    · exact (hview id).trans (if_neg hid)
    · -- The coin came to an end at which it was not before.
      have hconfirmed := hnew .confirmed
      have hinvalid := hnew .invalidated
      rw [hsame, Bool.and_not_self] at hconfirmed hinvalid
      rcases hverdict with hverdict | hverdict
      · rw [hverdict] at hconfirmed
        cases hconfirmed
      · rw [hverdict] at hinvalid
        cases hinvalid
  · have hnone : applyInput ring coin store = (.empty, store) := by
      unfold applyInput
      rw [if_neg hstatus]
    rw [hnone]
    exact Journal.found_tells_of_coin?_eq fun _ => rfl

theorem applyInputs_tells (ring : List CoinId) {coins : List Coin}
    (hcurrent : Current store coins) :
    (found [] (applyInputs ring coins store).1).Tells store (applyInputs ring coins store).2 := by
  induction coins generalizing store with
  | nil => exact Journal.found_tells_of_coin?_eq fun _ => rfl
  | cons coin rest ih =>
    have hfirst := applyInput_tells ring (hcurrent.stored coin List.mem_cons_self)
    have hrest := ih (hcurrent.tail_applyInput ring)
    exact (hfirst.append hrest).congr (Journal.found_append [] [] _ _)

theorem trackInputs_tells (inputs : List ChainInput)
    (hsound : LoggedStore.Sound ⟨store, committed⟩) :
    (found [] (trackInputs inputs store).1).Tells store (trackInputs inputs store).2 := by
  induction inputs generalizing store with
  | nil => exact Journal.found_tells_of_coin?_eq fun _ => rfl
  | cons input rest ih =>
    have hcurrent := current_bySerial hsound input.serialNumber
    have hfirst := applyInputs_tells input.ring hcurrent
    have hrest := ih (hsound.of_history (applyInputs_history input.ring hcurrent))
    exact (hfirst.append hrest).congr (Journal.found_append [] [] _ _)

/-- The spend report of a transaction tells what its inputs do. -/
theorem followSpends_tells (isCoinbase : Bool) (tx : ChainTx)
    (hsound : LoggedStore.Sound ⟨store, committed⟩) :
    (found [] (followSpends isCoinbase tx store).1).Tells store
      (followSpends isCoinbase tx store).2 := by
  cases isCoinbase with
  | true => exact Journal.found_tells_of_coin?_eq fun _ => rfl
  | false => exact trackInputs_tells tx.inputs hsound

theorem namesEnds_applyInput (ring : List CoinId) (coin : Coin) (store : CoinStore) :
    (applyInput ring coin store).1.NamesEnds := by
  unfold applyInput
  dsimp only
  split
  · split <;> intro id hmem <;> split at hmem
    · exact .inl hmem
    · cases hmem
    · exact .inr hmem
    · cases hmem
  · exact .empty

theorem namesEnds_applyInputs (ring : List CoinId) (coins : List Coin) (store : CoinStore) :
    (applyInputs ring coins store).1.NamesEnds := by
  induction coins generalizing store with
  | nil => exact .empty
  | cons coin rest ih => exact (namesEnds_applyInput ring coin store).append (ih _)

theorem namesEnds_followSpends (isCoinbase : Bool) (tx : ChainTx) (store : CoinStore) :
    (followSpends isCoinbase tx store).1.NamesEnds := by
  have hinputs : ∀ inputs (store : CoinStore), (trackInputs inputs store).1.NamesEnds := by
    intro inputs
    induction inputs with
    | nil => exact fun _ => .empty
    | cons input rest ih =>
      exact fun store => (namesEnds_applyInputs input.ring _ store).append (ih _)
  cases isCoinbase with
  | true => exact .empty
  | false => exact hinputs tx.inputs store

/-- The coins that a height makes spendable are those that it ripens. -/
theorem mem_matureAt_iff (params : ChainParams) (height : UInt64)
    (hsound : LoggedStore.Sound ⟨store, committed⟩) (id : CoinId) :
    id ∈ (matureAt params height store).1 ↔
      ∃ coin, store.coin? id = some coin ∧ coin.status = .immature ∧ coin.isCoinbase = true ∧
        coin.isResolved = true ∧ params.isDeep coin.height height = true := by
  unfold matureAt ChainParams.isDeep
  cases params.matureHeight? height with
  | none => simp
  | some maxHeight =>
    simp only [mem_matureCoinbase_iff hsound, Option.any_some, decide_eq_true_eq]

theorem nodup_matureAt (params : ChainParams) (height : UInt64)
    (hsound : LoggedStore.Sound ⟨store, committed⟩) : (matureAt params height store).1.Nodup := by
  unfold matureAt
  cases params.matureHeight? height with
  | none => exact List.nodup_nil
  | some maxHeight => exact nodup_matureCoinbase maxHeight hsound

/-- The coins that a height makes spendable are all that there is to tell of it. -/
theorem matureAt_tells (params : ChainParams) (height : UInt64)
    (hsound : LoggedStore.Sound ⟨store, committed⟩) :
    (aged ⟨[], (matureAt params height store).1⟩).Tells store
      (matureAt params height store).2 where
  advances := hsound.advances_of_history (matureAt_history params height hsound)
  nodup milestone := by
    cases milestone with
    | matured => exact nodup_matureAt params height hsound
    | received | linked | used | confirmed | invalidated => exact List.nodup_nil
  mem_iff milestone id := by
    have hview := coin?_matureAt params height hsound id
    have hmem := mem_matureAt_iff params height hsound id
    cases hcoin : store.coin? id with
    | none =>
      rw [hcoin] at hview
      rw [reached_of_none hview, reached_of_none hcoin]
      cases milestone <;> simp [aged, hmem, hcoin]
    | some coin =>
      rw [hcoin] at hview
      rw [reached_of_coin? hview, reached_of_coin? hcoin]
      by_cases hripe : coin.status = .immature ∧ coin.isCoinbase = true ∧ coin.isResolved = true ∧
          params.isDeep coin.height height = true
      · rw [Coin.ripened, if_pos hripe]
        cases milestone <;>
          simp [aged, hmem, hcoin, hripe, Milestone.isReached, CoinStatus.isUsedUp,
            CoinStatus.isTerminal]
      · rw [Coin.ripened, if_neg hripe]
        cases milestone <;> simp [aged, hmem, hcoin, hripe]
  kept id hnot := by
    have hview := coin?_matureAt params height hsound id
    have hmem := mem_matureAt_iff params height hsound id
    cases hcoin : store.coin? id with
    | none =>
      rw [hview, hcoin]
      rfl
    | some coin =>
      have hunripe : ¬ (coin.status = .immature ∧ coin.isCoinbase = true ∧
          coin.isResolved = true ∧ params.isDeep coin.height height = true) :=
        fun hripe => hnot .matured (hmem.mpr ⟨coin, hcoin, hripe⟩)
      rw [hview, hcoin, Option.map_some, Coin.ripened, if_neg hunripe]

end CoinStore

end RingWallet
