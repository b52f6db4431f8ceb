import RingWallet.Proofs.Store.Effect
import RingWallet.Proofs.Store.Sent
import RingWallet.Proofs.Tracker.Steps

/-!
# Which account an output is attributed to

A scan asks the watched accounts for one output after the other. For an output they are asked in the
order of their numbers, and asking ends with the first account that recognises the output or fails
(`Tracker.Asks`): an owner is the watched account of the smallest number that recognises the output,
as all accounts below it were asked and declined.

`Tracker.Scanned` is the state that a scan has reached: the answers to the outputs so far, and the
store, in which a name shows the coin that was there before or else the coin of its answer
(`attributed?`). An output takes it one answer further (`Scanned.snoc`), so a scan that returns has
reached the answers to all outputs, and a scan that fails has reached exactly those to the outputs
in front of the one it fails at (`Tracker.scan_attributes`). Neither the provider nor the state is
restricted.
-/

set_option autoImplicit false

namespace RingWallet

variable {σ α : Type}

/-! ## Asking the accounts for an output -/

theorem AccountId.before_iff (a b : AccountId) :
    OrderKey.before a b = true ↔ a.number < b.number := by
  simp [OrderKey.before, OrderKey.key, OrderKey.precedes, UInt64.lt_iff_toNat_lt]

/-- An account is asked for an output and declines. -/
def Declines (provider : Provider σ) (version : UInt32) (output : Bytes)
    (entry : AccountId × ViewAccount) (before after : σ) : Prop :=
  outcome (entry.2.receive provider version output) before = (.ok none, after)

namespace Tracker

/-- The watched accounts with smaller numbers than a given one, in order. -/
def accountsBelow (tracker : Tracker) (id : AccountId) : List (AccountId × ViewAccount) :=
  tracker.accounts.toList.filter fun entry => decide (entry.1.number < id.number)

/-- What comes of asking the watched accounts for an output. -/
inductive Asks (tracker : Tracker) (provider : Provider σ) (version : UInt32) (output : Bytes)
    (start : σ) : Except WalletError (Option (AccountId × UInt64)) → σ → Prop
  /-- Every account declines. -/
  | unowned {after : σ}
      (hall : InTurn (Declines provider version output) start tracker.accounts.toList after) :
      Asks tracker provider version output start (.ok none) after
  /-- An account recognises the output, and every account below it declines. -/
  | owned {id : AccountId} {account : ViewAccount} {value : UInt64} {between after : σ}
      (hwatched : tracker.accounts.get? id = some account)
      (hbelow : InTurn (Declines provider version output) start (tracker.accountsBelow id) between)
      (hasked : outcome (account.receive provider version output) between =
        (.ok (some value), after)) :
      Asks tracker provider version output start (.ok (some (id, value))) after
  /-- An account fails, and every account below it declines. -/
  | failed {id : AccountId} {account : ViewAccount} {e : WalletError} {between after : σ}
      (hwatched : tracker.accounts.get? id = some account)
      (hbelow : InTurn (Declines provider version output) start (tracker.accountsBelow id) between)
      (hasked : outcome (account.receive provider version output) between = (.error e, after)) :
      Asks tracker provider version output start (.error e) after

theorem accountsBelow_eq {tracker : Tracker} {front back : List (AccountId × ViewAccount)}
    {entry : AccountId × ViewAccount} (h : tracker.accounts.toList = front ++ entry :: back) :
    tracker.accountsBelow entry.1 = front := by
  rw [accountsBelow, ← OrderedMap.filter_before_eq h]
  apply List.filter_congr
  intro other _
  rw [Bool.eq_iff_iff, decide_eq_true_eq, AccountId.before_iff]

/-- Asking goes on behind accounts that have declined. -/
theorem asks_recognise_of_split {tracker : Tracker} (provider : Provider σ) (version : UInt32)
    (output : Bytes) {start between : σ} {front rest : List (AccountId × ViewAccount)}
    (hsplit : tracker.accounts.toList = front ++ rest)
    (hfront : InTurn (Declines provider version output) start front between) :
    tracker.Asks provider version output start
      (outcome (recognise provider version output rest) between).1
      (outcome (recognise provider version output rest) between).2 := by
  -- The induction is on the accounts that are still to be asked; those in front have declined.
  induction rest generalizing front between with
  | nil =>
    rw [List.append_nil] at hsplit
    exact .unowned (hsplit ▸ hfront)
  | cons entry rest ih =>
    obtain ⟨id, account⟩ := entry
    have hwatched : tracker.accounts.get? id = some account := by
      rw [← OrderedMap.mem_toList_iff, hsplit]
      exact List.mem_append_right _ List.mem_cons_self
    have hbelow := hfront
    rw [← accountsBelow_eq hsplit] at hbelow
    rw [recognise]
    rcases hasked : outcome (account.receive provider version output) between with
      ⟨e | value?, after⟩
    · rw [outcome_bind_of_error hasked]
      exact .failed hwatched hbelow hasked
    · rw [outcome_bind_of_ok hasked]
      cases value? with
      | some value => exact .owned hwatched hbelow hasked
      | none =>
        have hdeclines : Declines provider version output (id, account) between after := hasked
        apply ih _ (hfront.snoc hdeclines)
        rw [hsplit, List.append_assoc]
        rfl

theorem asks_recognise (tracker : Tracker) (provider : Provider σ) (version : UInt32)
    (output : Bytes) (start : σ) :
    tracker.Asks provider version output start
      (outcome (recognise provider version output tracker.accounts.toList) start).1
      (outcome (recognise provider version output tracker.accounts.toList) start).2 :=
  asks_recognise_of_split provider version output (List.nil_append _).symm .nil

end Tracker

/-! ## The coins of a transaction -/

theorem id_receivedCoin (tx : ChainTx) (isCoinbase : Bool) (blockHash : BlockHash) (height : UInt64)
    (index : Nat) (output : Bytes) (account : AccountId) (value : UInt64) :
    (receivedCoin tx isCoinbase blockHash height index output account value).id =
      ⟨tx.txid, UInt8.ofNat index⟩ := rfl

/-- An output, and the account that recognised it with a value, if any did. -/
abbrev OutputAnswer := Bytes × Option (AccountId × UInt64)

section Coins

variable (tx : ChainTx) (isCoinbase : Bool) (blockHash : BlockHash) (height : UInt64)

/-- The coin of a name, if the name is the transaction's and its output has an owner. The answers
are those to the outputs from the first one on. -/
def attributed? (answers : List OutputAnswer) (id : CoinId) : Option Coin :=
  if id.txid = tx.txid then
    match answers[id.index.toNat]? with
    | some (output, some (account, value)) =>
      some (receivedCoin tx isCoinbase blockHash height id.index.toNat output account value)
    | _ => none
  else none

variable {tx isCoinbase blockHash height}

/-- The next answer adds the coin of the next output, if it has an owner. -/
theorem attributed?_snoc {answers : List OutputAnswer} (hlength : answers.length < 256)
    (output : Bytes) (owner? : Option (AccountId × UInt64)) (id : CoinId) :
    attributed? tx isCoinbase blockHash height (answers ++ [(output, owner?)]) id =
      if id = ⟨tx.txid, UInt8.ofNat answers.length⟩ then
        owner?.map fun owner => receivedCoin tx isCoinbase blockHash height answers.length output
          owner.1 owner.2
      else attributed? tx isCoinbase blockHash height answers id := by
  have hnumber : (UInt8.ofNat answers.length).toNat = answers.length :=
    UInt8.toNat_ofNat_of_lt' hlength
  by_cases hid : id = ⟨tx.txid, UInt8.ofNat answers.length⟩
  · subst hid
    rw [if_pos rfl, attributed?, if_pos rfl, hnumber, List.getElem?_concat_length]
    cases owner? <;> rfl
  · rw [if_neg hid]
    unfold attributed?
    by_cases htxid : id.txid = tx.txid
    · -- The name has another index than the new answer, so it is looked up among the old ones.
      have hindex : id.index.toNat ≠ answers.length := by
        intro heq
        apply hid
        rw [← htxid, ← heq, UInt8.ofNat_toNat]
      have hsame : (answers ++ [(output, owner?)])[id.index.toNat]? = answers[id.index.toNat]? := by
        rw [List.getElem?_append]
        split
        · rfl
        · rename_i hge
          rw [List.getElem?_eq_none (by simp; omega), List.getElem?_eq_none (by omega)]
      rw [hsame]
    · rw [if_neg htxid, if_neg htxid]

/-- No answer belongs to the name of the next output yet. -/
theorem attributed?_next {answers : List OutputAnswer} (hlength : answers.length < 256) :
    attributed? tx isCoinbase blockHash height answers ⟨tx.txid, UInt8.ofNat answers.length⟩ =
      none := by
  have hnumber : (UInt8.ofNat answers.length).toNat = answers.length :=
    UInt8.toNat_ofNat_of_lt' hlength
  rw [attributed?, if_pos rfl, hnumber, List.getElem?_eq_none (Nat.le_refl _)]

end Coins

namespace CoinStore

/-- The later store has a coin under each of the names, which are the names of its new coins, and
every coin that was there before. -/
structure Adds (names : List CoinId) (store later : CoinStore) : Prop where
  mem_iff : ∀ id, id ∈ names ↔ store.coin? id = none ∧ ∃ coin, later.coin? id = some coin
  kept : ∀ {id coin}, store.coin? id = some coin → later.coin? id = some coin

namespace Adds

variable {store between later : CoinStore} {names others : List CoinId}

theorem refl (store : CoinStore) : Adds [] store store where
  mem_iff id := by
    cases store.coin? id <;> simp
  kept hcoin := hcoin

theorem append (h : Adds names store between) (hothers : Adds others between later) :
    Adds (names ++ others) store later where
  mem_iff id := by
    rw [List.mem_append, h.mem_iff, hothers.mem_iff]
    constructor
    · rintro (⟨hnone, coin, hcoin⟩ | ⟨hnone, hnew⟩)
      · exact ⟨hnone, coin, hothers.kept hcoin⟩
      · refine ⟨Option.eq_none_iff_forall_ne_some.mpr fun coin hcoin => ?_, hnew⟩
        rw [h.kept hcoin] at hnone
        cases hnone
    · rintro ⟨hnone, hnew⟩
      cases hbetween : between.coin? id with
      | none => exact .inr ⟨rfl, hnew⟩
      | some coin => exact .inl ⟨hnone, coin, rfl⟩
  kept hcoin := hothers.kept (h.kept hcoin)

theorem record {coinOf : AccountId → UInt64 → Coin} {name : CoinId}
    (hname : ∀ account value, (coinOf account value).id = name)
    (owner? : Option (AccountId × UInt64)) (store : CoinStore) :
    Adds (if (record coinOf owner? store).1 then [name] else []) store
      (record coinOf owner? store).2 where
  mem_iff id := by
    rw [coin?_record_eq hname]
    cases owner? with
    | none =>
      have hold : (CoinStore.record coinOf none store).1 = false := rfl
      cases store.coin? id <;> simp [hold]
    | some owner =>
      have hisNew : (CoinStore.record coinOf (some owner) store).1 = (store.coin? name).isNone := by
        rw [← hname owner.1 owner.2]
        exact insertCoin_isNew store (coinOf owner.1 owner.2)
      rw [hisNew]
      by_cases hid : id = name
      · subst hid
        cases store.coin? id <;> simp
      · -- Under another name nothing is new, whether or not the coin is.
        rw [if_neg hid]
        cases store.coin? name <;> cases store.coin? id <;> simp [hid]
  kept hcoin := coin?_record coinOf owner? hcoin

end Adds

end CoinStore

/-! ## Scanning the outputs -/

namespace Tracker

section Scan

variable (tracker : Tracker) (provider : Provider σ) (tx : ChainTx) (isCoinbase : Bool)
  (blockHash : BlockHash) (height : UInt64)

/-- The state behind outputs that were asked for one after the other. A name shows the coin that was
there at the start, or else the coin of its answer, and nothing but coins has changed. -/
structure Scanned (start : TrackState σ) (answers : List OutputAnswer) (now : TrackState σ) :
    Prop where
  asked : InTurn
    (fun answer before after =>
      tracker.Asks provider tx.version answer.1 before (.ok answer.2) after)
    start.outside answers now.outside
  coin_eq : ∀ id, now.store.coin? id =
    (start.store.coin? id).or (attributed? tx isCoinbase blockHash height answers id)
  rings_kept : now.store.rings = start.store.rings ∧
    now.store.memberRings = start.store.memberRings ∧
    now.store.serialIndex = start.store.serialIndex
  pending_kept : now.store.pending = start.store.pending

/-- A scan has stopped at an output behind the answers to the outputs in front of it: an account
failed that was asked for the output, or there is no index for it. -/
def Stopped (start : TrackState σ) (e : WalletError) (now : TrackState σ) : Prop :=
  ∃ answers output rest outside,
    tx.outputs = answers.map Prod.fst ++ output :: rest ∧
    tracker.Scanned provider tx isCoinbase blockHash height start answers ⟨now.store, outside⟩ ∧
    (answers.length < 256 ∧
        tracker.Asks provider tx.version output outside (.error e) now.outside ∨
      answers.length = 256 ∧ e = .invalidParameter (.tooManyOutputs tx.txid) ∧
        now.outside = outside)

variable {tracker provider tx isCoinbase blockHash height}

theorem Scanned.nil (start : TrackState σ) :
    tracker.Scanned provider tx isCoinbase blockHash height start [] start where
  asked := .nil
  coin_eq id := by simp [attributed?]
  rings_kept := ⟨rfl, rfl, rfl⟩
  pending_kept := rfl

/-- One output takes a scan one answer further. -/
theorem Scanned.snoc {start state : TrackState σ} {answers : List OutputAnswer}
    (h : tracker.Scanned provider tx isCoinbase blockHash height start answers state)
    (hlength : answers.length < 256) {output : Bytes} {owner? : Option (AccountId × UInt64)}
    {outside : σ}
    (hasks : tracker.Asks provider tx.version output state.outside (.ok owner?) outside) :
    tracker.Scanned provider tx isCoinbase blockHash height start (answers ++ [(output, owner?)])
      ⟨(CoinStore.record (receivedCoin tx isCoinbase blockHash height answers.length output)
        owner? state.store).2, outside⟩ := by
  have honly := CoinStore.OnlyCoins.record
    (receivedCoin_isFresh tx isCoinbase blockHash height answers.length output) owner? state.store
  obtain ⟨hrings, hmembers, hserial⟩ := honly.rings_eq
  refine ⟨h.asked.snoc hasks, fun id => ?_, ?_, honly.pending_eq.trans h.pending_kept⟩
  · have hname := id_receivedCoin tx isCoinbase blockHash height answers.length output
    rw [CoinStore.coin?_record_eq hname, attributed?_snoc hlength, h.coin_eq]
    by_cases hid : id = ⟨tx.txid, UInt8.ofNat answers.length⟩
    · rw [if_pos hid, if_pos hid, hid, attributed?_next hlength, Option.or_none]
    · rw [if_neg hid, if_neg hid]
  · exact ⟨hrings.trans h.rings_kept.1, hmembers.trans h.rings_kept.2.1,
      hserial.trans h.rings_kept.2.2⟩

/-- From a state that a scan has reached, the remaining outputs lead to the answers to all outputs
or stop the scan at one of them. -/
theorem Scanned.scanOutputs {start state : TrackState σ} {answers : List OutputAnswer}
    {rest : List Bytes}
    (h : tracker.Scanned provider tx isCoinbase blockHash height start answers state)
    (houtputs : tx.outputs = answers.map Prod.fst ++ rest) (hlength : answers.length ≤ 256) :
    match outcome (tracker.scanOutputs provider tx isCoinbase blockHash height answers.length rest)
      state with
    | (.ok _, after) => tx.outputs.length ≤ 256 ∧ ∃ all, all.map Prod.fst = tx.outputs ∧
        tracker.Scanned provider tx isCoinbase blockHash height start all after
    | (.error e, after) =>
      tracker.Stopped provider tx isCoinbase blockHash height start e after := by
  -- The induction is on the outputs that are still to be asked for, and `Scanned` is its invariant.
  induction rest generalizing answers state with
  | nil =>
    rw [List.append_nil] at houtputs
    rw [Tracker.scanOutputs, outcome_pure]
    exact ⟨by rwa [houtputs, List.length_map], answers, houtputs.symm, h⟩
  | cons output rest ih =>
    by_cases hindex : answers.length < 256
    · rw [scanOutputs_cons tracker provider tx isCoinbase blockHash height hindex]
      have hasks := tracker.asks_recognise provider tx.version output state.outside
      rcases hrecognise : outcome (recognise provider tx.version output tracker.accounts.toList)
        state.outside with ⟨e | owner?, outside⟩
      · rw [hrecognise] at hasks
        rw [outcome_bind_of_error (TrackM.outcome_outside_of_error hrecognise)]
        exact ⟨answers, output, rest, state.outside, houtputs, h, .inl ⟨hindex, hasks⟩⟩
      · rw [hrecognise] at hasks
        rw [outcome_bind_of_ok (TrackM.outcome_outside_of_ok hrecognise),
          outcome_bind_of_ok (TrackM.outcome_onStore _ _)]
        have hnext := ih (h.snoc hindex hasks) (by simp [houtputs]) (by simp; omega)
        rw [List.length_append, List.length_singleton] at hnext
        -- Listing the new name in front changes nothing of where the remaining outputs lead.
        rcases hothers : outcome (tracker.scanOutputs provider tx isCoinbase blockHash height
          (answers.length + 1) rest) _ with ⟨e | names, after⟩
        · rw [hothers] at hnext
          rw [outcome_bind_of_error hothers]
          exact hnext
        · rw [hothers] at hnext
          rw [outcome_bind_of_ok hothers, outcome_pure]
          exact hnext
    · rw [scanOutputs_cons_of_ge tracker provider tx isCoinbase blockHash height hindex]
      have hfull : answers.length = 256 := by omega
      exact ⟨answers, output, rest, state.outside, houtputs, h, .inr ⟨hfull, rfl, rfl⟩⟩

/-- A scan that returns names the coins that it added, in the order of their outputs. -/
theorem scanOutputs_adds {state after : TrackState σ} {index : Nat} {outputs : List Bytes}
    {names : List CoinId}
    (hrun : outcome (tracker.scanOutputs provider tx isCoinbase blockHash height index outputs)
      state = (.ok names, after)) :
    CoinStore.Adds names state.store after.store ∧
      names.Sublist ((List.range' index outputs.length).map fun i => ⟨tx.txid, UInt8.ofNat i⟩) := by
  induction outputs generalizing state index names with
  | nil =>
    cases hrun
    exact ⟨.refl _, .refl _⟩
  | cons output rest ih =>
    by_cases hindex : index < 256
    · rw [scanOutputs_cons tracker provider tx isCoinbase blockHash height hindex] at hrun
      obtain ⟨owner?, asked, hasked, hrun⟩ := outcome_bind_eq_ok hrun
      obtain ⟨isNew, recorded, hrecorded, hrun⟩ := outcome_bind_eq_ok hrun
      obtain ⟨others, last, hothers, hrun⟩ := outcome_bind_eq_ok hrun
      cases hrun
      obtain ⟨-, rfl⟩ := Prod.mk.inj hasked
      obtain ⟨hisNew, rfl⟩ := Prod.mk.inj hrecorded
      have hname := id_receivedCoin tx isCoinbase blockHash height index output
      have hfirst := CoinStore.Adds.record hname owner? state.store
      rw [show (CoinStore.record _ owner? state.store).1 = isNew from Except.ok.inj hisNew]
        at hfirst
      obtain ⟨hadds, hordered⟩ := ih hothers
      have hboth := hfirst.append hadds
      rw [List.length_cons, List.range'_succ, List.map_cons]
      cases isNew with
      | true => exact ⟨hboth, hordered.cons_cons _⟩
      | false => exact ⟨hboth, hordered.cons _⟩
    · rw [scanOutputs_cons_of_ge tracker provider tx isCoinbase blockHash height hindex] at hrun
      cases hrun

/-- Names of consecutive outputs that have an index are in the order of their indices. -/
theorem pairwise_index_of_sublist {txid : TxId} {names : List CoinId} {count : Nat}
    (hcount : count ≤ 256)
    (h : names.Sublist ((List.range' 0 count).map fun i => ⟨txid, UInt8.ofNat i⟩)) :
    names.Pairwise fun a b => a.index < b.index := by
  refine List.Pairwise.sublist h ?_
  rw [List.pairwise_map]
  refine List.Pairwise.imp_of_mem (fun {i j} hi hj hlt => ?_) List.pairwise_lt_range'
  have hbounds : i < 256 ∧ j < 256 := by
    simp only [List.mem_range'_1] at hi hj
    omega
  rw [UInt8.lt_iff_toNat_lt, UInt8.toNat_ofNat_of_lt' hbounds.1,
    UInt8.toNat_ofNat_of_lt' hbounds.2]
  exact hlt

end Scan

/-- For every tracker, every provider, every transaction and every state: a scan that returns has
asked the watched accounts for all outputs, of which there are at most 256, and has added exactly
the coins of the owners found, as far as their names were free. The names that it returns are those
of the added coins, by increasing index. A scan that fails has added exactly the coins of the
outputs in front of the one that it stopped at. -/
theorem scan_attributes (tracker : Tracker) (provider : Provider σ) (tx : ChainTx)
    (isCoinbase : Bool) (blockHash : BlockHash) (height : UInt64) (start : TrackState σ) :
    match outcome (tracker.scanTransaction provider tx isCoinbase blockHash height) start with
    | (.ok names, after) =>
      tx.outputs.length ≤ 256 ∧
      (∃ answers, answers.map Prod.fst = tx.outputs ∧
        tracker.Scanned provider tx isCoinbase blockHash height start answers after) ∧
      CoinStore.Adds names start.store after.store ∧ names.Pairwise fun a b => a.index < b.index
    | (.error e, after) =>
      tracker.Stopped provider tx isCoinbase blockHash height start e after := by
  have hstart : tracker.Scanned provider tx isCoinbase blockHash height start [] start :=
    .nil start
  have hscan := hstart.scanOutputs (List.nil_append _).symm (Nat.zero_le _)
  rw [List.length_nil] at hscan
  change match outcome (tracker.scanOutputs provider tx isCoinbase blockHash height 0 tx.outputs)
    start with
    | (.ok names, after) => _
    | (.error e, after) => _
  rcases hrun : outcome (tracker.scanOutputs provider tx isCoinbase blockHash height 0 tx.outputs)
    start with ⟨e | names, after⟩
  · rw [hrun] at hscan
    exact hscan
  · rw [hrun] at hscan
    obtain ⟨hlength, hanswers⟩ := hscan
    obtain ⟨hadds, hordered⟩ := scanOutputs_adds hrun
    exact ⟨hlength, hanswers, hadds, pairwise_index_of_sublist hlength hordered⟩

end Tracker

end RingWallet
