import RingWallet.Proofs.Store.Change

/-!
# Coins only move forward

Along a history no coin disappears, what a coin was received with never changes, its ring, place and
serial number are written at most once, and its status follows `CoinStatus.canBecome`
(`Sound.advances_of_history`). The two ends of a coin's life are never left, and a coin that was
spent is not spendable again (`eq_of_reaches_of_isTerminal`, `ne_spendable_of_spent_reaches`).
-/

set_option autoImplicit false

namespace RingWallet

namespace CoinStatus

/-- Any number of legal steps. -/
abbrev Reaches : CoinStatus → CoinStatus → Prop :=
  Relation.ReflTransGen fun status next => status.canBecome next = true

theorem Reaches.step {status next : CoinStatus} (h : status.canBecome next = true) :
    status.Reaches next :=
  .single h

/-- The ends of a coin's life are never left. -/
theorem eq_of_reaches_of_isTerminal {status next : CoinStatus} (h : status.Reaches next)
    (hterminal : status.isTerminal = true) : next = status := by
  induction h with
  | refl => rfl
  | tail _ hstep ih =>
    subst ih
    rw [not_canBecome_of_isTerminal hterminal] at hstep
    cases hstep

/-- Whether a coin was spent, or is at its end. -/
def isUsedUp (status : CoinStatus) : Bool := status == spent || status.isTerminal

/-- A coin that does not wait can be spent, unless it is used up. -/
theorem isUsedUp_eq_false_iff {status : CoinStatus} :
    status.isUsedUp = false ↔ status = .immature ∨ status = .spendable := by
  cases status <;> decide

/-- A used-up coin stays used up. -/
theorem isUsedUp_of_reaches {status next : CoinStatus} (h : status.Reaches next)
    (hused : status.isUsedUp = true) : next.isUsedUp = true := by
  induction h with
  | refl => exact hused
  | @tail before after _ hstep ih =>
    revert hstep ih
    cases before <;> cases after <;> decide

/-- Nothing leads back from a spent coin to a spendable one. -/
theorem ne_spendable_of_spent_reaches {status : CoinStatus}
    (h : CoinStatus.spent.Reaches status) : status ≠ .spendable := by
  rintro rfl
  have hused := isUsedUp_of_reaches h rfl
  cases hused

end CoinStatus

/-- A later state of a coin: what it was received with is the same, what was learned about its ring
is kept, and its status moved by legal steps. -/
structure Coin.Advances (coin later : Coin) : Prop where
  id_eq : later.id = coin.id
  account_eq : later.account = coin.account
  blockHash_eq : later.blockHash = coin.blockHash
  height_eq : later.height = coin.height
  txVersion_eq : later.txVersion = coin.txVersion
  output_eq : later.output = coin.output
  value_eq : later.value = coin.value
  isCoinbase_eq : later.isCoinbase = coin.isCoinbase
  ringId_kept : ∀ ringId, coin.ringId? = some ringId → later.ringId? = some ringId
  ringIndex_kept : ∀ index, coin.ringIndex? = some index → later.ringIndex? = some index
  serialNumber_kept : ∀ serialNumber, coin.serialNumber? = some serialNumber →
    later.serialNumber? = some serialNumber
  status_reaches : coin.status.Reaches later.status

namespace Coin.Advances

theorem refl (coin : Coin) : coin.Advances coin where
  id_eq := rfl
  account_eq := rfl
  blockHash_eq := rfl
  height_eq := rfl
  txVersion_eq := rfl
  output_eq := rfl
  value_eq := rfl
  isCoinbase_eq := rfl
  ringId_kept _ h := h
  ringIndex_kept _ h := h
  serialNumber_kept _ h := h
  status_reaches := .refl

theorem trans {a b c : Coin} (hab : a.Advances b) (hbc : b.Advances c) : a.Advances c where
  id_eq := hbc.id_eq.trans hab.id_eq
  account_eq := hbc.account_eq.trans hab.account_eq
  blockHash_eq := hbc.blockHash_eq.trans hab.blockHash_eq
  height_eq := hbc.height_eq.trans hab.height_eq
  txVersion_eq := hbc.txVersion_eq.trans hab.txVersion_eq
  output_eq := hbc.output_eq.trans hab.output_eq
  value_eq := hbc.value_eq.trans hab.value_eq
  isCoinbase_eq := hbc.isCoinbase_eq.trans hab.isCoinbase_eq
  ringId_kept _ h := hbc.ringId_kept _ (hab.ringId_kept _ h)
  ringIndex_kept _ h := hbc.ringIndex_kept _ (hab.ringIndex_kept _ h)
  serialNumber_kept _ h := hbc.serialNumber_kept _ (hab.serialNumber_kept _ h)
  status_reaches := hab.status_reaches.trans hbc.status_reaches

/-- A legal change of the status alone. -/
theorem withStatus {coin : Coin} {status : CoinStatus} (h : coin.status.Reaches status) :
    coin.Advances { coin with status } :=
  { refl coin with status_reaches := h }

/-- Linking an immature coin about whose ring nothing was known. -/
theorem linked {coin : Coin} (hringId : coin.ringId? = none) (hringIndex : coin.ringIndex? = none)
    (hserial : coin.serialNumber? = none) (hstatus : coin.status = .immature)
    (resolution : RingResolution) : coin.Advances (coin.linked resolution) where
  id_eq := rfl
  account_eq := rfl
  blockHash_eq := rfl
  height_eq := rfl
  txVersion_eq := rfl
  output_eq := rfl
  value_eq := rfl
  isCoinbase_eq := rfl
  ringId_kept ringId h := by
    rw [hringId] at h
    cases h
  ringIndex_kept index h := by
    rw [hringIndex] at h
    cases h
  serialNumber_kept serialNumber h := by
    rw [hserial] at h
    cases h
  status_reaches := by
    rw [Coin.linked, hstatus]
    split
    · exact .step rfl
    · exact .refl

end Coin.Advances

/-- Every coin of the first store is in the second, in a later state. -/
def CoinStore.Advances (store later : CoinStore) : Prop :=
  ∀ id coin, store.coin? id = some coin → ∃ after, later.coin? id = some after ∧ coin.Advances after

namespace CoinStore.Advances

theorem refl (store : CoinStore) : store.Advances store :=
  fun _ coin h => ⟨coin, h, .refl coin⟩

theorem trans {a b c : CoinStore} (hab : a.Advances b) (hbc : b.Advances c) : a.Advances c := by
  intro id coin hcoin
  obtain ⟨between, hbetween, hfirst⟩ := hab id coin hcoin
  obtain ⟨after, hafter, hsecond⟩ := hbc id between hbetween
  exact ⟨after, hafter, hfirst.trans hsecond⟩

/-- The same coins in another store. -/
theorem of_coin?_eq {store later : CoinStore} (h : ∀ id, later.coin? id = store.coin? id) :
    store.Advances later :=
  fun id coin hcoin => ⟨coin, (h id).trans hcoin, .refl coin⟩

/-- One coin of the store in a later state, the others as they were. -/
theorem of_coin?_ite {store later : CoinStore} {name : CoinId} {coin : Coin} {change : Coin → Coin}
    (hview : ∀ id, later.coin? id =
      if name = id then (store.coin? id).map change else store.coin? id)
    (hcoin : store.coin? name = some coin) (h : coin.Advances (change coin)) :
    store.Advances later := by
  intro id found hfound
  rw [hview]
  split
  · rename_i heq
    subst heq
    rw [hcoin] at hfound
    cases hfound
    exact ⟨change coin, by rw [hcoin]; rfl, h⟩
  · exact ⟨found, hfound, .refl found⟩

/-- A coin at its end is still stored, at its end. -/
theorem exists_isTerminal {store later : CoinStore} (h : store.Advances later) {id : CoinId}
    {coin : Coin} (hcoin : store.coin? id = some coin) (hend : coin.status.isTerminal = true) :
    ∃ after, later.coin? id = some after ∧ after.status.isTerminal = true := by
  obtain ⟨after, hafter, hadvances⟩ := h id coin hcoin
  refine ⟨after, hafter, ?_⟩
  rw [CoinStatus.eq_of_reaches_of_isTerminal hadvances.status_reaches hend]
  exact hend

end CoinStore.Advances

namespace LoggedStore.Sound

variable {log next : LoggedStore}

/-- One change only moves coins forward. -/
theorem advances_of_change (h : log.Sound) (hchange : Change log next) :
    log.store.Advances next.store := by
  cases hchange with
  | receive coin hnew _ =>
    intro id found hfound
    refine ⟨found, ?_, .refl found⟩
    rw [CoinStore.coin?_insertCoin]
    split
    · rename_i heq
      subst heq
      rw [hnew] at hfound
      cases hfound
    · exact hfound
  | see id verdict hcoin hstatus hverdict =>
    refine .of_coin?_ite (fun id' => CoinStore.coin?_withStatus _ id id' verdict) hcoin
      (.withStatus ?_)
    have hspent : CoinStatus.spent.Reaches verdict := by
      rcases hverdict with rfl | rfl <;> exact .step rfl
    rcases hstatus with hstatus | hstatus
    · rw [hstatus]
      exact .head rfl hspent
    · rw [hstatus]
      exact hspent
  | spend id hcoin hstatus =>
    refine .of_coin?_ite (fun id' => CoinStore.coin?_withStatus _ id id' .spent) hcoin
      (.withStatus ?_)
    rcases hstatus with hstatus | hstatus
    · rw [hstatus]
      exact .step rfl
    · rw [hstatus]
  | mature id hcoin hstatus _ =>
    refine .of_coin?_ite (fun id' => CoinStore.coin?_withStatus _ id id' .spendable) hcoin
      (.withStatus ?_)
    rw [hstatus]
    exact .step rfl
  | addRing ring => exact .of_coin?_eq fun _ => rfl
  | resolve resolution hcoin hstatus hunlinked =>
    have hlink := h.link hcoin
    refine .of_coin?_ite (fun id' => CoinStore.coin?_resolve _ resolution id') hcoin ?_
    exact .linked hunlinked (hlink.ringIndex_eq_none_iff.mpr hunlinked)
      (hlink.serialNumber_eq_none_iff.mpr hunlinked) hstatus resolution
  | send tx => exact .of_coin?_eq fun _ => rfl
  | follow txid status height? => exact .of_coin?_eq fun _ => rfl

/-- Every history only moves coins forward. -/
theorem advances_of_history (h : log.Sound) (hhistory : History log next) :
    log.store.Advances next.store := by
  induction hhistory with
  | refl => exact .refl _
  | tail hbefore hchange ih => exact ih.trans ((h.of_history hbefore).advances_of_change hchange)

end LoggedStore.Sound

end RingWallet
