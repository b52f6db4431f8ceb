import RingWallet.Proofs.Store.Histories

/-!
# What happens to one coin

Following the inputs of a transaction and maturing coinbase coins act on each coin of a sound store
by itself: the coin behind the operation is a function of the coin before it (`coin?_trackInputs`,
`coin?_matureAt`). The functions are `Coin.seenIn` for an input and `Coin.ripened` for a height.

An input does nothing to a coin that is still immature, even if it shows the coin's serial number
(`seenBy_of_immature`); any other coin whose serial number is shown is at its end behind the
transaction (`isTerminal_seenBy`).
-/

set_option autoImplicit false

namespace RingWallet

/-! ## Outputs -/

namespace CoinStore

/-- Recording an output adds the coin of its owner, unless the name is taken. -/
theorem coin?_record_eq {coinOf : AccountId → UInt64 → Coin} {name : CoinId}
    (hname : ∀ account value, (coinOf account value).id = name)
    (owner? : Option (AccountId × UInt64)) (store : CoinStore) (id : CoinId) :
    (record coinOf owner? store).2.coin? id =
      if id = name then (store.coin? id).or (owner?.map fun owner => coinOf owner.1 owner.2)
      else store.coin? id := by
  cases owner? with
  | none => simp [record]
  | some owner =>
    change (store.insertCoin (coinOf owner.1 owner.2)).2.coin? id = _
    rw [coin?_insertCoin, hname]
    by_cases hid : id = name
    · rw [if_pos hid.symm, if_pos hid]
      cases store.coin? id <;> rfl
    · rw [if_neg (Ne.symm hid), if_neg hid]

/-- A stored coin is not replaced. -/
theorem coin?_record {store : CoinStore} {id : CoinId} {coin : Coin}
    (coinOf : AccountId → UInt64 → Coin) (owner? : Option (AccountId × UInt64))
    (hcoin : store.coin? id = some coin) : (record coinOf owner? store).2.coin? id = some coin := by
  cases owner? with
  | none => exact hcoin
  | some owner =>
    change (store.insertCoin (coinOf owner.1 owner.2)).2.coin? id = some coin
    rw [coin?_insertCoin]
    split
    · rw [hcoin]
      rfl
    · exact hcoin

/-- A coin behind an output was stored before or is the output's. -/
theorem coin?_record_cases {store : CoinStore} {id : CoinId} {coin : Coin}
    {coinOf : AccountId → UInt64 → Coin} {owner? : Option (AccountId × UInt64)}
    (h : (record coinOf owner? store).2.coin? id = some coin) :
    store.coin? id = some coin ∨
      ∃ account value, owner? = some (account, value) ∧ coin = coinOf account value := by
  cases owner? with
  | none => exact .inl h
  | some owner =>
    change (store.insertCoin (coinOf owner.1 owner.2)).2.coin? id = some coin at h
    rw [coin?_insertCoin] at h
    split at h
    · cases hold : store.coin? id with
      | none =>
        rw [hold] at h
        cases h
        exact .inr ⟨owner.1, owner.2, rfl, rfl⟩
      | some old =>
        rw [hold] at h
        exact .inl h
    · exact .inl h

/-- An output with an owner has a stored coin. -/
theorem exists_coin?_record (store : CoinStore) (coinOf : AccountId → UInt64 → Coin)
    (account : AccountId) (value : UInt64) :
    ∃ coin, (record coinOf (some (account, value)) store).2.coin? (coinOf account value).id =
      some coin := by
  change ∃ coin, (store.insertCoin (coinOf account value)).2.coin? _ = some coin
  rw [coin?_insertCoin, if_pos rfl]
  exact ⟨_, rfl⟩

end CoinStore

/-! ## Inputs -/

namespace Coin

/-- A coin behind an input: if the input shows its serial number, and the coin was spendable or
spent, it is confirmed or invalid. -/
def seenIn (coin : Coin) (input : ChainInput) : Coin :=
  if coin.serialNumber? = some input.serialNumber ∧
      (coin.status = .spendable ∨ coin.status = .spent) then
    { coin with status := CoinStore.verdict input.ring coin.id }
  else coin

/-- A coin behind inputs, one after the other. -/
def seenBy (coin : Coin) (inputs : List ChainInput) : Coin := inputs.foldl seenIn coin

@[simp] theorem serialNumber?_seenIn (coin : Coin) (input : ChainInput) :
    (coin.seenIn input).serialNumber? = coin.serialNumber? := by
  unfold seenIn
  split <;> rfl

/-- An input changes nothing but a coin's status. -/
theorem exists_seenIn_eq (coin : Coin) (input : ChainInput) :
    ∃ status, coin.seenIn input = { coin with status } := by
  unfold seenIn
  split
  · exact ⟨_, rfl⟩
  · exact ⟨coin.status, rfl⟩

theorem exists_seenBy_eq (coin : Coin) (inputs : List ChainInput) :
    ∃ status, coin.seenBy inputs = { coin with status } := by
  induction inputs generalizing coin with
  | nil => exact ⟨coin.status, rfl⟩
  | cons input rest ih =>
    obtain ⟨first, hfirst⟩ := exists_seenIn_eq coin input
    obtain ⟨last, hlast⟩ := ih { coin with status := first }
    refine ⟨last, ?_⟩
    rw [seenBy, List.foldl_cons, hfirst]
    exact hlast

/-- Only a coin that is spendable or spent is changed by an input. -/
theorem seenIn_of_status {coin : Coin} (input : ChainInput)
    (h : ¬ (coin.status = .spendable ∨ coin.status = .spent)) : coin.seenIn input = coin := by
  unfold seenIn
  exact if_neg fun hboth => h hboth.2

theorem seenBy_of_status {coin : Coin} (inputs : List ChainInput)
    (h : ¬ (coin.status = .spendable ∨ coin.status = .spent)) : coin.seenBy inputs = coin := by
  induction inputs with
  | nil => rfl
  | cons input rest ih =>
    rw [seenBy, List.foldl_cons, seenIn_of_status input h]
    exact ih

/-- A waiting coin is left alone, whatever the inputs show. -/
theorem seenBy_of_immature {coin : Coin} (inputs : List ChainInput)
    (h : coin.status = .immature) : coin.seenBy inputs = coin := by
  apply seenBy_of_status inputs
  intro hstatus
  rw [h] at hstatus
  rcases hstatus with h | h <;> cases h

/-- A coin at its end is left alone. -/
theorem seenBy_of_isTerminal {coin : Coin} (inputs : List ChainInput)
    (h : coin.status.isTerminal = true) : coin.seenBy inputs = coin := by
  apply seenBy_of_status inputs
  intro hstatus
  rcases hstatus with hstatus | hstatus <;> rw [hstatus] at h <;> cases h

/-- A coin whose serial number is not shown is left alone. -/
theorem seenBy_of_not_shown {coin : Coin} {inputs : List ChainInput}
    (h : ∀ input ∈ inputs, coin.serialNumber? ≠ some input.serialNumber) :
    coin.seenBy inputs = coin := by
  induction inputs with
  | nil => rfl
  | cons input rest ih =>
    have hfirst : coin.seenIn input = coin := by
      unfold seenIn
      exact if_neg fun hboth => h input List.mem_cons_self hboth.1
    rw [seenBy, List.foldl_cons, hfirst]
    exact ih fun other hmem => h other (List.mem_cons_of_mem _ hmem)

/-- A coin that is beyond waiting and whose serial number an input shows is at its end then. -/
theorem isTerminal_seenIn {coin : Coin} {input : ChainInput}
    (hserial : coin.serialNumber? = some input.serialNumber) (hstatus : coin.status ≠ .immature) :
    (coin.seenIn input).status.isTerminal = true := by
  unfold seenIn
  by_cases hopen : coin.status = .spendable ∨ coin.status = .spent
  · rw [if_pos ⟨hserial, hopen⟩]
    rcases CoinStore.verdict_eq_or input.ring coin.id with h | h <;> rw [h] <;> rfl
  · rw [if_neg fun hboth => hopen hboth.2]
    revert hstatus hopen
    cases coin.status <;> decide

/-- No input makes a coin wait again. -/
theorem ne_immature_seenIn {coin : Coin} (input : ChainInput) (h : coin.status ≠ .immature) :
    (coin.seenIn input).status ≠ .immature := by
  unfold seenIn
  split
  · dsimp only
    rcases CoinStore.verdict_eq_or input.ring coin.id with h | h
    · rw [h]
      decide
    · rw [h]
      decide
  · exact h

@[simp] theorem serialNumber?_seenBy (coin : Coin) (inputs : List ChainInput) :
    (coin.seenBy inputs).serialNumber? = coin.serialNumber? := by
  induction inputs generalizing coin with
  | nil => rfl
  | cons input rest ih => exact (ih (coin.seenIn input)).trans (serialNumber?_seenIn coin input)

theorem ne_immature_seenBy {coin : Coin} (inputs : List ChainInput) (h : coin.status ≠ .immature) :
    (coin.seenBy inputs).status ≠ .immature := by
  induction inputs generalizing coin with
  | nil => exact h
  | cons input rest ih => exact ih (ne_immature_seenIn input h)

/-- A coin that is beyond waiting and whose serial number is shown is at its end behind the
inputs. -/
theorem isTerminal_seenBy {coin : Coin} {inputs : List ChainInput} {input : ChainInput}
    (hmem : input ∈ inputs) (hserial : coin.serialNumber? = some input.serialNumber)
    (hstatus : coin.status ≠ .immature) : (coin.seenBy inputs).status.isTerminal = true := by
  induction inputs generalizing coin with
  | nil => cases hmem
  | cons first rest ih =>
    change ((coin.seenIn first).seenBy rest).status.isTerminal = true
    rcases List.mem_cons.mp hmem with rfl | hrest
    · have hend := isTerminal_seenIn hserial hstatus
      rw [seenBy_of_isTerminal rest hend]
      exact hend
    · refine ih hrest ?_ (ne_immature_seenIn first hstatus)
      rw [serialNumber?_seenIn]
      exact hserial

/-- Inputs pass a coin over or bring it to its end. -/
theorem seenBy_eq_or_isTerminal (coin : Coin) (inputs : List ChainInput) :
    coin.seenBy inputs = coin ∨ (coin.seenBy inputs).status.isTerminal = true := by
  by_cases hstatus : coin.status = .immature
  · exact .inl (seenBy_of_immature inputs hstatus)
  · by_cases hshown : ∃ input ∈ inputs, coin.serialNumber? = some input.serialNumber
    · obtain ⟨input, hmem, hserial⟩ := hshown
      exact .inr (isTerminal_seenBy hmem hserial hstatus)
    · exact .inl (seenBy_of_not_shown fun input hmem hserial => hshown ⟨input, hmem, hserial⟩)

/-- Inputs that pass a coin over still do so behind other inputs, and inputs that were followed pass
every coin over. -/
theorem seenBy_seenBy {coin : Coin} {inputs others : List ChainInput}
    (h : coin.seenBy inputs = coin ∨ inputs = others) :
    (coin.seenBy others).seenBy inputs = coin.seenBy others := by
  rcases coin.seenBy_eq_or_isTerminal others with hsame | hend
  · rw [hsame]
    rcases h with h | rfl
    · exact h
    · exact hsame
  · exact seenBy_of_isTerminal inputs hend

/-- A fresh coin has no serial number that inputs could show. -/
theorem IsFresh.seenBy_eq {coin : Coin} (h : coin.IsFresh) (inputs : List ChainInput) :
    coin.seenBy inputs = coin :=
  seenBy_of_immature inputs h.status_eq

end Coin

namespace CoinStore

variable {committed : List CoinRing}

theorem coin?_applyInput {store : CoinStore} {coin : Coin} (ring : List CoinId)
    (hcoin : store.coin? coin.id = some coin) (id : CoinId) :
    (applyInput ring coin store).2.coin? id =
      if coin.id = id then
        some (if coin.status = .spendable ∨ coin.status = .spent then
          { coin with status := verdict ring coin.id } else coin)
      else store.coin? id := by
  rw [applyInput_store]
  by_cases hid : coin.id = id
  · subst hid
    rw [if_pos rfl]
    split
    · rw [coin?_withStatus, if_pos rfl, hcoin]
      rfl
    · exact hcoin
  · rw [if_neg hid]
    split
    · rw [coin?_withStatus, if_neg hid]
    · rfl

/-- Listed coins are changed as an input says, the others stay. -/
theorem coin?_applyInputs (ring : List CoinId) {coins : List Coin} {store : CoinStore}
    (h : Current store coins) (id : CoinId) :
    (applyInputs ring coins store).2.coin? id =
      if id ∈ coins.map Coin.id then
        (store.coin? id).map fun coin =>
          if coin.status = .spendable ∨ coin.status = .spent then
            { coin with status := verdict ring coin.id } else coin
      else store.coin? id := by
  induction coins generalizing store with
  | nil => rfl
  | cons coin rest ih =>
    have hcoin := h.stored coin List.mem_cons_self
    have hrest : (applyInputs ring (coin :: rest) store).2 =
        (applyInputs ring rest (applyInput ring coin store).2).2 := rfl
    obtain ⟨hnotMem, -⟩ := List.nodup_cons.mp (List.map_cons ▸ h.nodup)
    rw [hrest, ih (h.tail_applyInput ring), coin?_applyInput ring hcoin]
    by_cases hid : coin.id = id
    · subst hid
      have hmem : coin.id ∈ (coin :: rest).map Coin.id := List.mem_cons_self
      rw [if_neg hnotMem, if_pos rfl, if_pos hmem, hcoin]
      rfl
    · have hmem : id ∈ (coin :: rest).map Coin.id ↔ id ∈ rest.map Coin.id := by
        rw [List.map_cons, List.mem_cons]
        exact ⟨fun h => h.resolve_left fun heq => hid heq.symm, .inr⟩
      rw [if_neg hid]
      simp only [hmem]

/-- A coin is found by a serial number exactly if the serial number is its own. -/
theorem mem_map_id_bySerial_iff {store : CoinStore} (h : LoggedStore.Sound ⟨store, committed⟩)
    (serialNumber : Bytes) (id : CoinId) :
    id ∈ (store.bySerial serialNumber).map Coin.id ↔
      ∃ coin, store.coin? id = some coin ∧ coin.serialNumber? = some serialNumber := by
  rw [bySerial_eq, map_id_filterMap_coin? (fun _ _ => h.id_eq) fun id hmem => ?_]
  · exact h.mem_holders_iff serialNumber id
  · obtain ⟨coin, hcoin, -⟩ := (h.mem_holders_iff serialNumber id).mp hmem
    exact ⟨coin, hcoin⟩

/-- The effect of one input on each coin. -/
theorem coin?_trackInput (input : ChainInput) {store : CoinStore}
    (h : LoggedStore.Sound ⟨store, committed⟩) (id : CoinId) :
    (applyInputs input.ring (store.bySerial input.serialNumber) store).2.coin? id =
      (store.coin? id).map (·.seenIn input) := by
  rw [coin?_applyInputs input.ring (current_bySerial h input.serialNumber)]
  cases hcoin : store.coin? id with
  | none => exact ite_self _
  | some coin =>
    have hiff := mem_map_id_bySerial_iff h input.serialNumber id
    by_cases hserial : coin.serialNumber? = some input.serialNumber
    · rw [if_pos (hiff.mpr ⟨coin, hcoin, hserial⟩)]
      simp [Coin.seenIn, hserial]
    · rw [if_neg fun hmem => ?_]
      · simp [Coin.seenIn, hserial]
      · obtain ⟨found, hfound, hshown⟩ := hiff.mp hmem
        rw [hcoin] at hfound
        cases hfound
        exact hserial hshown

/-- The effect of the inputs of a transaction on each coin. -/
theorem coin?_trackInputs (inputs : List ChainInput) {store : CoinStore}
    (h : LoggedStore.Sound ⟨store, committed⟩) (id : CoinId) :
    (trackInputs inputs store).2.coin? id = (store.coin? id).map (·.seenBy inputs) := by
  induction inputs generalizing store with
  | nil => exact Option.map_id'.symm
  | cons input rest ih =>
    have hfirst : History ⟨store, committed⟩
        ⟨(applyInputs input.ring (store.bySerial input.serialNumber) store).2, committed⟩ :=
      applyInputs_history input.ring (current_bySerial h input.serialNumber)
    have hrest : (trackInputs (input :: rest) store).2 = (trackInputs rest
        (applyInputs input.ring (store.bySerial input.serialNumber) store).2).2 := rfl
    rw [hrest, ih (h.of_history hfirst), coin?_trackInput input h, Option.map_map]
    rfl

/-- The effect of a transaction's spends on each coin. -/
theorem coin?_followSpends (isCoinbase : Bool) (tx : ChainTx) {store : CoinStore}
    (h : LoggedStore.Sound ⟨store, committed⟩) (id : CoinId) :
    (followSpends isCoinbase tx store).2.coin? id =
      (store.coin? id).map (·.seenBy (if isCoinbase then [] else tx.inputs)) := by
  cases isCoinbase with
  | true => exact Option.map_id'.symm
  | false => exact coin?_trackInputs tx.inputs h id

end CoinStore

/-! ## Sent transactions -/

namespace CoinStore

theorem coin?_foldl_withPendingStatus (txids : List TxId) (status : PendingStatus)
    (height? : Option UInt64) (store : CoinStore) (id : CoinId) :
    (txids.foldl (fun store txid => store.withPendingStatus txid status height?) store).coin? id =
      store.coin? id := by
  induction txids generalizing store with
  | nil => rfl
  | cons txid rest ih => exact ih _

@[simp] theorem coin?_trackPending (block : ChainBlock) (store : CoinStore) (id : CoinId) :
    (trackPending block store).2.coin? id = store.coin? id :=
  coin?_foldl_withPendingStatus _ .confirmed (some block.height) store id

end CoinStore

/-! ## Maturity -/

/-- Whether a coinbase coin of one height is deep enough at another. -/
def ChainParams.isDeep (params : ChainParams) (coinHeight height : UInt64) : Bool :=
  (params.matureHeight? height).any fun maxHeight => decide (coinHeight ≤ maxHeight)

theorem ChainParams.isDeep_iff (params : ChainParams) (coinHeight height : UInt64) :
    params.isDeep coinHeight height = true ↔
      coinHeight.toNat + params.coinbaseMaturity.toNat ≤ height.toNat := by
  unfold isDeep matureHeight?
  split
  · rename_i hle
    rw [Option.any_some, decide_eq_true_eq, UInt64.le_iff_toNat_le, UInt64.toNat_sub_of_le _ _ hle]
    rw [UInt64.le_iff_toNat_le] at hle
    omega
  · rename_i hlt
    rw [UInt64.le_iff_toNat_le] at hlt
    simp only [Option.any_none, Bool.false_eq_true, false_iff]
    omega

/-- A coin behind a height: a waiting coinbase coin that knows its ring and is deep enough is
spendable. -/
def Coin.ripened (params : ChainParams) (height : UInt64) (coin : Coin) : Coin :=
  if coin.status = .immature ∧ coin.isCoinbase = true ∧ coin.isResolved = true ∧
      params.isDeep coin.height height = true then
    { coin with status := .spendable }
  else coin

/-- A height changes nothing but a coin's status. -/
theorem Coin.exists_ripened_eq (params : ChainParams) (height : UInt64) (coin : Coin) :
    ∃ status, coin.ripened params height = { coin with status } := by
  unfold ripened
  split
  · exact ⟨_, rfl⟩
  · exact ⟨coin.status, rfl⟩

namespace CoinStore

variable {committed : List CoinRing}

/-- The coins that a height makes spendable. -/
theorem mem_matureCoinbase_iff {store : CoinStore} (h : LoggedStore.Sound ⟨store, committed⟩)
    (maxHeight : UInt64) (id : CoinId) :
    id ∈ (store.matureCoinbase maxHeight).1 ↔
      ∃ coin, store.coin? id = some coin ∧ coin.status = .immature ∧ coin.isCoinbase = true ∧
        coin.isResolved = true ∧ coin.height ≤ maxHeight := by
  unfold matureCoinbase immatureCoinbase
  simp only [List.mem_map, List.mem_filter, Bool.and_eq_true, beq_iff_eq, decide_eq_true_eq]
  constructor
  · rintro ⟨coin, ⟨⟨hvalue, ⟨hstatus, hcoinbase⟩, hheight⟩, hresolved⟩, rfl⟩
    exact ⟨coin, coin?_of_mem_values h hvalue, hstatus, hcoinbase, hresolved, hheight⟩
  · rintro ⟨coin, hcoin, hstatus, hcoinbase, hresolved, hheight⟩
    have hvalue := (OrderedMap.mem_values_iff _ _).mpr ⟨id, hcoin⟩
    have hid : coin.id = id := h.id_eq hcoin
    exact ⟨coin, ⟨⟨hvalue, ⟨hstatus, hcoinbase⟩, hheight⟩, hresolved⟩, hid⟩

/-- The effect of a height on each coin. -/
theorem coin?_matureAt (params : ChainParams) (height : UInt64) {store : CoinStore}
    (h : LoggedStore.Sound ⟨store, committed⟩) (id : CoinId) :
    (matureAt params height store).2.coin? id =
      (store.coin? id).map (Coin.ripened params height) := by
  unfold matureAt
  cases hdeep : params.matureHeight? height with
  | none =>
    have hsame : Coin.ripened params height = fun coin => coin := by
      funext coin
      simp [Coin.ripened, ChainParams.isDeep, hdeep]
    rw [hsame, Option.map_id']
  | some maxHeight =>
    have heffect : (store.matureCoinbase maxHeight).2.coin? id = _ :=
      coin?_foldl_withStatus (store.matureCoinbase maxHeight).1 .spendable store id
    rw [heffect]
    simp only [mem_matureCoinbase_iff h]
    cases hcoin : store.coin? id with
    | none => simp
    | some coin =>
      by_cases hall : coin.status = .immature ∧ coin.isCoinbase = true ∧ coin.isResolved = true ∧
          coin.height ≤ maxHeight
      · simp [Coin.ripened, ChainParams.isDeep, hdeep, hall]
      · rw [if_neg (by simpa using hall)]
        simp only [Option.map_some, Coin.ripened, ChainParams.isDeep, hdeep, Option.any_some,
          decide_eq_true_eq]
        rw [if_neg hall]

end CoinStore

end RingWallet
