import RingWallet.Proofs.OrderedMap
import RingWallet.Proofs.Store.Effect

/-!
# Stores that share an account

Two stores share an account if the first holds exactly the coins of that account which the second
holds, and nothing else (`CoinStore.Shares`). Then both list the same coins of the account and have
the same balance of it (`Shares.byAccount_eq`, `Shares.balance_eq`).

The relation is kept if every coin of the account becomes the same in both stores
(`Shares.evolve`), and if a coin is received. For the latter the names matter: a stored coin is never
replaced, so a coin of the account must not have the name of another account's coin. The names of the
others' coins are given by a predicate.

Sound stores that share an account (`CoinStore.Parallel`) still do so behind an output whose owners
split accordingly (`CoinStore.Splits`), behind the inputs of a transaction, behind the confirmation of
sent transactions, and behind a height.
-/

set_option autoImplicit false

namespace RingWallet.CoinStore

/-- The first store holds the coins of one account that the second holds, and nothing else. The
second holds coins of other accounts under foreign names only. -/
structure Shares (account : AccountId) (foreign : CoinId → Prop) (alone joint : CoinStore) :
    Prop where
  own : ∀ id, alone.coin? id = (joint.coin? id).filter (·.account == account)
  others : ∀ {id coin}, joint.coin? id = some coin → coin.account ≠ account → foreign id

/-- Every coin of the first store becomes, as a relation says, the coin of that name in the second,
which has no further coins. -/
def Evolves (becomes : Coin → Coin → Prop) (store later : CoinStore) : Prop :=
  ∀ id, Option.Rel becomes (store.coin? id) (later.coin? id)

theorem Evolves.of_map {store later : CoinStore} {change : Coin → Coin}
    (h : ∀ id, later.coin? id = (store.coin? id).map change) :
    Evolves (fun coin after => after = change coin) store later := by
  intro id
  rw [h]
  cases store.coin? id with
  | none => exact .none
  | some coin => exact .some rfl

namespace Shares

variable {account : AccountId} {foreign : CoinId → Prop} {alone joint : CoinStore}

/-- A coin of the account is picked. -/
theorem filter_own {coin : Coin} (h : coin.account = account) :
    (some coin).filter (·.account == account) = some coin := by
  rw [Option.filter_some, beq_iff_eq.mpr h]
  rfl

/-- A coin of another account is not picked. -/
theorem filter_other {coin : Coin} (h : coin.account ≠ account) :
    (some coin).filter (·.account == account) = none := by
  rw [Option.filter_some, beq_false_of_ne h]
  rfl

theorem empty : Shares account foreign CoinStore.empty CoinStore.empty where
  own _ := rfl
  others h := by cases h

/-- A coin of the account is in both stores. -/
theorem coin?_of_account (h : Shares account foreign alone joint) {id : CoinId} {coin : Coin}
    (hcoin : joint.coin? id = some coin) (haccount : coin.account = account) :
    alone.coin? id = some coin := by
  rw [h.own, hcoin, filter_own haccount]

/-- A name without a coin in the second store has none in the first. -/
theorem coin?_of_none (h : Shares account foreign alone joint) {id : CoinId}
    (hnone : joint.coin? id = none) : alone.coin? id = none := by
  rw [h.own, hnone]
  rfl

/-! ## What is shared -/

theorem byAccount_eq (h : Shares account foreign alone joint) :
    alone.byAccount account none = joint.byAccount account none := by
  have hvalues : alone.coins.values = joint.coins.values.filter (·.account == account) :=
    OrderedMap.values_eq_filter h.own
  unfold byAccount
  rw [hvalues, List.filter_filter]
  apply List.filter_congr
  intro coin _
  cases coin.account == account <;> rfl

theorem balance_eq (h : Shares account foreign alone joint) :
    alone.balance account = joint.balance account := by
  -- What can be spent is picked from the coins of the account.
  have hpicked : ∀ store : CoinStore, store.spendableCoins account =
      (store.byAccount account none).filter (·.status == .spendable) := by
    intro store
    unfold spendableCoins byAccount
    rw [List.filter_filter]
    apply List.filter_congr
    intro coin _
    exact (Bool.and_comm _ _).trans (congrArg _ (Bool.and_true _).symm)
  unfold balance
  rw [hpicked, hpicked, h.byAccount_eq]

/-! ## What keeps stores sharing -/

/-- Coins of the account become the same in both stores, and coins of the second stay with their
accounts. -/
theorem evolve (h : Shares account foreign alone joint) {aloneLater jointLater : CoinStore}
    {becomesAlone becomesJoint : Coin → Coin → Prop} (halone : Evolves becomesAlone alone aloneLater)
    (hjoint : Evolves becomesJoint joint jointLater)
    (hsame : ∀ {coin after other}, coin.account = account → becomesAlone coin after →
      becomesJoint coin other → after = other)
    (haccount : ∀ {coin after}, becomesJoint coin after → after.account = coin.account) :
    Shares account foreign aloneLater jointLater := by
  constructor
  case own =>
    intro id
    have haloneId := halone id
    rw [h.own] at haloneId
    have hjointId := hjoint id
    generalize joint.coin? id = before at haloneId hjointId
    generalize jointLater.coin? id = after at hjointId
    generalize aloneLater.coin? id = later at haloneId
    cases hjointId with
    | none =>
      cases haloneId
      rfl
    | @some coin after hbecomes =>
      -- A coin of the account becomes the same in both stores; any other stays out of the first.
      by_cases hown : coin.account = account
      · rw [filter_own hown] at haloneId
        cases haloneId with
        | some hbecomesAlone =>
          rw [hsame hown hbecomesAlone hbecomes, filter_own ((haccount hbecomes).trans hown)]
      · rw [filter_other hown] at haloneId
        cases haloneId
        rw [filter_other fun heq => hown ((haccount hbecomes).symm.trans heq)]
  case others =>
    intro id after hafter hother
    have hjointId := hjoint id
    rw [hafter] at hjointId
    cases hcoin : joint.coin? id with
    | none =>
      rw [hcoin] at hjointId
      cases hjointId
    | some coin =>
      rw [hcoin] at hjointId
      cases hjointId with
      | some hbecomes => exact h.others hcoin fun heq => hother ((haccount hbecomes).trans heq)

/-- Every coin is changed alike in both stores and stays with its account. -/
theorem map (h : Shares account foreign alone joint) {aloneLater jointLater : CoinStore}
    {change : Coin → Coin} (halone : ∀ id, aloneLater.coin? id = (alone.coin? id).map change)
    (hjoint : ∀ id, jointLater.coin? id = (joint.coin? id).map change)
    (haccount : ∀ coin, (change coin).account = coin.account) :
    Shares account foreign aloneLater jointLater := by
  refine h.evolve (.of_map halone) (.of_map hjoint) (fun _ hafter hother => ?_) fun hafter => ?_
  · rw [hafter, hother]
  · rw [hafter]
    exact haccount _

/-- A coin of the account, under a name that is not foreign, is received in both stores. -/
theorem receive_own (h : Shares account foreign alone joint) {coin : Coin}
    (haccount : coin.account = account) (hname : ¬ foreign coin.id) :
    Shares account foreign (alone.insertCoin coin).2 (joint.insertCoin coin).2 := by
  constructor
  case own =>
    intro id
    rw [coin?_insertCoin, coin?_insertCoin]
    split
    · rename_i hid
      subst hid
      cases hcoin : joint.coin? coin.id with
      | none =>
        rw [h.coin?_of_none hcoin]
        exact (filter_own haccount).symm
      | some found =>
        -- A coin under this name is one of the account, for the name is not foreign.
        have hfound : found.account = account :=
          Classical.byContradiction fun hother => hname (h.others hcoin hother)
        rw [h.coin?_of_account hcoin hfound]
        exact (filter_own hfound).symm
    · exact h.own id
  case others =>
    intro id found hfound hother
    rw [coin?_insertCoin] at hfound
    split at hfound
    · cases hcoin : joint.coin? id with
      | none =>
        rw [hcoin] at hfound
        cases hfound
        exact absurd haccount hother
      | some old =>
        rw [hcoin] at hfound
        cases hfound
        exact h.others hcoin hother
    · exact h.others hfound hother

/-- A coin of another account, under a foreign name, is received in the second store. -/
theorem receive_other (h : Shares account foreign alone joint) {coin : Coin}
    (haccount : coin.account ≠ account) (hname : foreign coin.id) :
    Shares account foreign alone (joint.insertCoin coin).2 := by
  constructor
  case own =>
    intro id
    rw [coin?_insertCoin]
    split
    · rename_i hid
      subst hid
      cases hcoin : joint.coin? coin.id with
      | none =>
        rw [h.coin?_of_none hcoin]
        exact (filter_other haccount).symm
      | some found =>
        rw [h.own, hcoin]
        rfl
    · exact h.own id
  case others =>
    intro id found hfound hother
    rw [coin?_insertCoin] at hfound
    split at hfound
    · rename_i hid
      exact hid ▸ hname
    · exact h.others hfound hother

end Shares

/-! ## Sound stores side by side -/

/-- Two answers to who owns an output under a name: nobody does, the account does and the name is not
foreign, or another account does, the first does not see it and the name is foreign. -/
inductive Splits (account : AccountId) (foreign : CoinId → Prop) (id : CoinId) :
    Option (AccountId × UInt64) → Option (AccountId × UInt64) → Prop
  | nobody : Splits account foreign id none none
  | own {value : UInt64} (hname : ¬ foreign id) :
      Splits account foreign id (some (account, value)) (some (account, value))
  | other {owner : AccountId} {value : UInt64} (hother : owner ≠ account) (hname : foreign id) :
      Splits account foreign id none (some (owner, value))

/-- Two sound stores that share an account. -/
structure Parallel (account : AccountId) (foreign : CoinId → Prop) (alone joint : CoinStore) :
    Prop where
  shares : Shares account foreign alone joint
  sound_alone : ∃ committed, LoggedStore.Sound ⟨alone, committed⟩
  sound_joint : ∃ committed, LoggedStore.Sound ⟨joint, committed⟩

namespace Parallel

variable {account : AccountId} {foreign : CoinId → Prop} {alone joint : CoinStore}

theorem empty : Parallel account foreign CoinStore.empty CoinStore.empty :=
  ⟨.empty, ⟨[], .empty⟩, ⟨[], .empty⟩⟩

/-- A change of each coin by itself, made in both stores. -/
theorem map (h : Parallel account foreign alone joint) {change : CoinStore → CoinStore}
    {effect : Coin → Coin}
    (hhistory : ∀ {store committed}, LoggedStore.Sound ⟨store, committed⟩ →
      History ⟨store, committed⟩ ⟨change store, committed⟩)
    (heffect : ∀ {store committed}, LoggedStore.Sound ⟨store, committed⟩ → ∀ id,
      (change store).coin? id = (store.coin? id).map effect)
    (haccount : ∀ coin, (effect coin).account = coin.account) :
    Parallel account foreign (change alone) (change joint) := by
  obtain ⟨aloneCommitted, halone⟩ := h.sound_alone
  obtain ⟨jointCommitted, hjoint⟩ := h.sound_joint
  exact ⟨h.shares.map (heffect halone) (heffect hjoint) haccount,
    ⟨_, halone.of_history (hhistory halone)⟩, ⟨_, hjoint.of_history (hhistory hjoint)⟩⟩

theorem followSpends (h : Parallel account foreign alone joint) (isCoinbase : Bool) (tx : ChainTx) :
    Parallel account foreign (CoinStore.followSpends isCoinbase tx alone).2
      (CoinStore.followSpends isCoinbase tx joint).2 := by
  apply h.map (fun hsound => followSpends_history isCoinbase tx hsound)
    (fun hsound => coin?_followSpends isCoinbase tx hsound)
  intro coin
  obtain ⟨status, heq⟩ := coin.exists_seenBy_eq (if isCoinbase then [] else tx.inputs)
  rw [heq]

theorem trackPending (h : Parallel account foreign alone joint) (block : ChainBlock) :
    Parallel account foreign (CoinStore.trackPending block alone).2
      (CoinStore.trackPending block joint).2 := by
  apply h.map (fun _ => trackPending_history block _)
    (fun _ id => (coin?_trackPending block _ id).trans Option.map_id'.symm)
  exact fun coin => rfl

theorem matureAt (h : Parallel account foreign alone joint) (params : ChainParams)
    (height : UInt64) :
    Parallel account foreign (CoinStore.matureAt params height alone).2
      (CoinStore.matureAt params height joint).2 := by
  apply h.map (fun hsound => matureAt_history params height hsound)
    (fun hsound => coin?_matureAt params height hsound)
  intro coin
  obtain ⟨status, heq⟩ := coin.exists_ripened_eq params height
  rw [heq]

/-- An output is recorded for the owners that the two wallets see. -/
theorem record (h : Parallel account foreign alone joint) {coinOf : AccountId → UInt64 → Coin}
    {id : CoinId} (hfresh : ∀ owner value, (coinOf owner value).IsFresh)
    (hid : ∀ owner value, (coinOf owner value).id = id)
    (haccount : ∀ owner value, (coinOf owner value).account = owner)
    {owner? jointOwner? : Option (AccountId × UInt64)}
    (hsplits : Splits account foreign id owner? jointOwner?) :
    Parallel account foreign (CoinStore.record coinOf owner? alone).2
      (CoinStore.record coinOf jointOwner? joint).2 := by
  obtain ⟨aloneCommitted, halone⟩ := h.sound_alone
  obtain ⟨jointCommitted, hjoint⟩ := h.sound_joint
  refine ⟨?_, ⟨_, halone.of_history (record_history hfresh owner? alone)⟩,
    ⟨_, hjoint.of_history (record_history hfresh jointOwner? joint)⟩⟩
  cases hsplits with
  | nobody => exact h.shares
  | own hname => exact h.shares.receive_own (haccount _ _) ((hid _ _).symm ▸ hname)
  | other hother hname =>
    exact h.shares.receive_other (fun heq => hother ((haccount _ _).symm.trans heq))
      ((hid _ _).symm ▸ hname)

end Parallel

end RingWallet.CoinStore
