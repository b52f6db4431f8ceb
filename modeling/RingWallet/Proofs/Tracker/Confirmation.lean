import RingWallet.Proofs.Except
import RingWallet.Proofs.Tracker.SentCoins

/-!
# Sent transactions are confirmed once

A transaction on record waits until a block that holds it is searched, and then it is confirmed at
the height of that block (`PendingTx.behind`). Of what is on record an operation other than a
submission changes nothing else (`Operation.action_searches`), and the coins of a transaction on
record are used up, so that no submission can take one of them again
(`CoinStore.SentSound.refuses`).

A submission that is accepted is therefore on record for the rest of a run: it waits as long as no
searched block holds it, and the first one that does settles its height
(`Wallet.submission_confirmed_once`).
-/

set_option autoImplicit false

namespace RingWallet

variable {σ α : Type}

/-! ## Searched blocks -/

/-- Whether a block holds a transaction with a given identifier. -/
def ChainBlock.holds (block : ChainBlock) (txid : TxId) : Bool :=
  (block.txs.map (·.txid)).contains txid

theorem ChainBlock.holds_iff {block : ChainBlock} {txid : TxId} :
    block.holds txid = true ↔ txid ∈ block.txs.map (·.txid) :=
  List.contains_iff_mem

namespace PendingTx

/-- A sent transaction behind a block that was searched for it: if it waited and the block holds it,
it is confirmed at the block's height. -/
def behindBlock (tx : PendingTx) (block : ChainBlock) : PendingTx :=
  if tx.status = .pending ∧ block.holds tx.txid = true then
    { tx with status := .confirmed, height? := some block.height }
  else tx

/-- A sent transaction behind blocks that were searched for it one after the other. -/
def behind (tx : PendingTx) (blocks : List ChainBlock) : PendingTx := blocks.foldl behindBlock tx

theorem behind_append (tx : PendingTx) (blocks later : List ChainBlock) :
    tx.behind (blocks ++ later) = (tx.behind blocks).behind later :=
  List.foldl_append

theorem behindBlock_facts (tx : PendingTx) (block : ChainBlock) :
    (tx.behindBlock block).txid = tx.txid ∧ (tx.behindBlock block).coins = tx.coins := by
  unfold behindBlock
  split
  · exact ⟨rfl, rfl⟩
  · exact ⟨rfl, rfl⟩

/-- What a transaction was sent as stays. -/
theorem behind_facts (tx : PendingTx) (blocks : List ChainBlock) :
    (tx.behind blocks).txid = tx.txid ∧ (tx.behind blocks).coins = tx.coins := by
  induction blocks generalizing tx with
  | nil => exact ⟨rfl, rfl⟩
  | cons block rest ih =>
    obtain ⟨htxid, hcoins⟩ := tx.behindBlock_facts block
    obtain ⟨htxids, hrest⟩ := ih (tx.behindBlock block)
    exact ⟨htxids.trans htxid, hrest.trans hcoins⟩

/-- A transaction that does not wait stays as it is. -/
theorem behind_of_settled {tx : PendingTx} (h : tx.status ≠ .pending) (blocks : List ChainBlock) :
    tx.behind blocks = tx := by
  induction blocks with
  | nil => rfl
  | cons block rest ih =>
    have hsame : tx.behindBlock block = tx := if_neg fun hfound => h hfound.1
    exact (congrArg (behind · rest) hsame).trans ih

/-- A transaction that waits is confirmed by the first block that holds it. -/
theorem behind_of_waiting {tx : PendingTx} (hwaits : tx.status = .pending)
    (blocks : List ChainBlock) :
    tx.behind blocks =
      match blocks.find? (·.holds tx.txid) with
      | none => tx
      | some block => { tx with status := .confirmed, height? := some block.height } := by
  induction blocks with
  | nil => rfl
  | cons block rest ih =>
    cases hholds : block.holds tx.txid with
    | true =>
      -- Later blocks meet a transaction that does not wait.
      have hconfirmed : tx.behindBlock block =
          { tx with status := .confirmed, height? := some block.height } :=
        if_pos ⟨hwaits, hholds⟩
      rw [List.find?_cons, hholds]
      exact (congrArg (behind · rest) hconfirmed).trans (behind_of_settled (by simp) rest)
    | false =>
      have hsame : tx.behindBlock block = tx := if_neg (by simp [hholds])
      rw [List.find?_cons, hholds]
      exact (congrArg (behind · rest) hsame).trans ih

end PendingTx

namespace CoinStore

/-- The effect of a searched block on each transaction on record. -/
theorem get?_pending_trackPending {store : CoinStore} (hkeyed : store.SentKeyed)
    (block : ChainBlock) (txid : TxId) :
    (trackPending block store).2.pending.get? txid =
      (store.pending.get? txid).map (·.behind [block]) := by
  rw [pending_trackPending]
  cases hget : store.pending.get? txid with
  | none => simp
  | some tx =>
    obtain rfl : tx.txid = txid := hkeyed.txid_eq hget
    -- The block names the transaction exactly if it waits and the block holds it.
    have hnamed : tx.txid ∈ (trackPending block store).1 ↔
        tx.status = .pending ∧ block.holds tx.txid = true := by
      rw [mem_trackPending_iff hkeyed, ChainBlock.holds_iff, and_comm]
      simp [hget]
    show _ = some (tx.behindBlock block)
    by_cases h : tx.status = .pending ∧ block.holds tx.txid = true
    · rw [if_pos (hnamed.mpr h), PendingTx.behindBlock, if_pos h]
      rfl
    · rw [if_neg fun hmem => h (hnamed.mp hmem), PendingTx.behindBlock, if_neg h]

/-! ## Submissions -/

/-- A submission is refused if one of its coins is spent by a transaction on record. -/
theorem SentSound.refuses {store : CoinStore} (h : store.SentSound) {txid : TxId} {sent : PendingTx}
    (hget : store.pending.get? txid = some sent) {id : CoinId} (hid : id ∈ sent.coins)
    (tx : SignedTx) {ids : List CoinId} (hmem : id ∈ ids) :
    ∃ e, store.recordSubmitted tx ids = .error e := by
  have hsent : store.sentAs? txid = some (sent.txid, sent.coins) := by simp [sentAs?, hget]
  cases hsubmit : store.recordSubmitted tx ids with
  | error e => exact ⟨e, rfl⟩
  | ok later =>
    obtain ⟨marked, hmarked, -, -⟩ := recordSubmitted_facts hsubmit
    obtain ⟨coin, hcoin, hspendable, -⟩ := markSpent_facts hmarked id hmem
    exact absurd hspendable (h.not_spendable hsent hid hcoin)

/-- A submission that is accepted puts its transaction on record, as one that waits, and leaves all
others alone. -/
theorem get?_pending_recordSubmitted {tx : SignedTx} {ids : List CoinId} {store later : CoinStore}
    (h : store.recordSubmitted tx ids = .ok later) (txid : TxId) :
    later.pending.get? txid =
      if tx.txid = txid then some ⟨tx.txid, tx.data, ids, .pending, none⟩
      else store.pending.get? txid := by
  cases hmarked : store.markSpent ids with
  | error e => simp [recordSubmitted, hmarked] at h
  | ok marked =>
    simp only [recordSubmitted, hmarked, Except.ok.injEq] at h
    rw [← h, ← (OnlyCoins.markSpent hmarked).pending_eq]
    exact OrderedMap.get?_insert marked.pending tx.txid txid _

end CoinStore

/-! ## Operations that search -/

/-- Of what is on record the operation changes nothing but what the blocks settle that it
searches. -/
def TrackM.Searches (op : TrackM σ α) (blocks : TrackState σ → List ChainBlock) : Prop :=
  ∀ state : TrackState σ, state.store.SentKeyed → ∀ txid,
    (outcome op state).2.store.pending.get? txid =
      (state.store.pending.get? txid).map (·.behind (blocks state))

/-- An operation that leaves what is on record alone searches no block. -/
theorem TrackM.Leaves.searches {op : TrackM σ α} (h : op.Leaves CoinStore.pending) :
    op.Searches fun _ => [] := by
  intro state _ txid
  rw [h state]
  cases state.store.pending.get? txid <;> rfl

/-- A result that is dropped makes no difference. -/
theorem TrackM.Searches.drop {op : TrackM σ α} {blocks : TrackState σ → List ChainBlock}
    (h : op.Searches blocks) : TrackM.Searches (op >>= fun _ => pure ()) blocks := by
  intro state hkeyed txid
  rw [← h state hkeyed txid]
  rcases hrun : outcome op state with ⟨e | a, after⟩
  · rw [outcome_bind_of_error hrun]
  · rw [outcome_bind_of_ok hrun]
    rfl

namespace Tracker

variable (tracker : Tracker) (provider : Provider σ) (source : BlockSource σ)

/-- The block that was searched behind its transactions: none if one of them could not be
scanned. -/
def searchedBlock (block : ChainBlock) (state : TrackState σ) : List ChainBlock :=
  if (outcome (tracker.processTxs provider block.hash block.height true block.txs) state).1.isOk
  then [block] else []

/-- A processed block is searched once its transactions are scanned, whether or not its window can
be resolved then. -/
theorem processBlock_searches (block : ChainBlock) :
    (tracker.processBlock provider source block).Searches
      (tracker.searchedBlock provider block) := by
  intro state hkeyed txid
  have hscan := processTxs_leaves_pending tracker provider block.hash block.height true block.txs
    state
  unfold processBlock searchedBlock
  rcases hrun : outcome (tracker.processTxs provider block.hash block.height true block.txs) state
    with ⟨e | found, between⟩
  · rw [hrun] at hscan
    rw [outcome_bind_of_error hrun, hscan]
    cases state.store.pending.get? txid <;> rfl
  · rw [hrun] at hscan
    rw [outcome_bind_of_ok hrun, ← hscan]
    have hkeyedBetween : between.store.SentKeyed := by
      intro txid sent hfound
      rw [CoinStore.sentAs?_eq_of_pending_eq hscan] at hfound
      exact hkeyed hfound
    -- Maturity leaves alone what the search has settled.
    have hrest : TrackM.Leaves (do
        let maturity ← tracker.handleMaturity provider source block.height
        return (⟨block.height, found.1, found.2, maturity,
          (CoinStore.trackPending block between.store).1⟩ : BlockReport)) CoinStore.pending :=
      .bind (handleMaturity_leaves_pending tracker provider source block.height) fun _ => .pure _
    have hbehind := hrest { between with store := (CoinStore.trackPending block between.store).2 }
    calc _ = (CoinStore.trackPending block between.store).2.pending.get? txid :=
          congrArg (OrderedMap.get? · txid) hbehind
      _ = _ := CoinStore.get?_pending_trackPending hkeyedBetween block txid

end Tracker

namespace Operation

/-- The blocks that an operation searches for sent transactions. -/
def searched (tracker : Tracker) : Operation σ → TrackState σ → List ChainBlock
  | trackPending block => fun _ => [block]
  | processBlock provider _ block => tracker.searchedBlock provider block
  | _ => fun _ => []

/-- An operation other than a submission changes transactions on record only by searching blocks for
them. -/
theorem action_searches (tracker : Tracker) {op : Operation σ}
    (hop : ∀ tx ids, op ≠ .recordSubmitted tx ids) :
    (op.action tracker).Searches (op.searched tracker) := by
  cases op with
  | register id account => exact TrackM.Leaves.searches (.pure ())
  | unregister id => exact TrackM.Leaves.searches (.pure ())
  | scan provider tx isCoinbase blockHash height =>
    exact TrackM.Leaves.searches (.bind (tracker.scanOutputs_leaves_pending provider tx isCoinbase
      blockHash height 0 _) fun _ => .pure ())
  | trackSpends tx =>
    exact TrackM.Leaves.searches (.bind (.onStore fun store =>
      (CoinStore.OnlyCoins.trackInputs tx.inputs store).pending_eq) fun _ => .pure ())
  | markSpent ids =>
    exact TrackM.Leaves.searches (.tryStore fun h => (CoinStore.OnlyCoins.markSpent h).pending_eq)
  | recordSubmitted tx ids => exact absurd rfl (hop tx ids)
  | trackPending block =>
    exact fun state hkeyed txid => CoinStore.get?_pending_trackPending hkeyed block txid
  | handleMaturity provider source height =>
    exact TrackM.Leaves.searches (.bind (tracker.handleMaturity_leaves_pending provider source
      height) fun _ => .pure ())
  | resolveGroup provider source height =>
    exact TrackM.Leaves.searches (.bind (tracker.resolveGroup_leaves_pending provider source height)
      fun _ => .pure ())
  | processBlock provider source block =>
    exact (tracker.processBlock_searches provider source block).drop

end Operation

/-! ## Runs -/

namespace Wallet

/-- The blocks that operations search for sent transactions, one after the other. -/
def searched (wallet : Wallet σ) : List (Operation σ) → List ChainBlock
  | [] => []
  | op :: rest =>
    op.searched wallet.tracker ⟨wallet.store, wallet.outside⟩ ++ (wallet.perform op).searched rest

theorem searched_append (wallet : Wallet σ) (ops later : List (Operation σ)) :
    wallet.searched (ops ++ later) = wallet.searched ops ++ (wallet.run ops).searched later := by
  induction ops generalizing wallet with
  | nil => rfl
  | cons op rest ih =>
    show _ ++ (wallet.perform op).searched (rest ++ later) = _ ++ _ ++ _
    rw [ih, List.append_assoc]
    rfl

/-- A submission changes the wallet's store, or nothing at all if it is refused. -/
theorem perform_recordSubmitted (wallet : Wallet σ) (tx : SignedTx) (ids : List CoinId) :
    wallet.perform (.recordSubmitted tx ids) =
      match wallet.store.recordSubmitted tx ids with
      | .ok store => { wallet with store }
      | .error _ => wallet := by
  show Wallet.mk _ _ _ = _
  simp only [Operation.action, TrackM.outcome_tryStore]
  cases wallet.store.recordSubmitted tx ids <;> rfl

variable {wallet : Wallet σ} {committed : List CoinRing} {sent : PendingTx}

/-- Behind one operation a transaction on record is as the searched blocks have settled it. Only a
submission under its identifier could replace it, and that is refused if it takes the same coins. -/
theorem perform_keeps_record (hsound : wallet.store.SentSound)
    (hget : wallet.store.pending.get? sent.txid = some sent) (hcoins : sent.coins ≠ [])
    {op : Operation σ}
    (hsame : ∀ tx ids, op = .recordSubmitted tx ids → tx.txid = sent.txid → ids = sent.coins) :
    (wallet.perform op).store.pending.get? sent.txid =
      some (sent.behind (op.searched wallet.tracker ⟨wallet.store, wallet.outside⟩)) := by
  by_cases hop : ∃ tx ids, op = .recordSubmitted tx ids
  · obtain ⟨tx, ids, rfl⟩ := hop
    show _ = some sent
    rw [perform_recordSubmitted]
    cases hsubmit : wallet.store.recordSubmitted tx ids with
    | error e => exact hget
    | ok later =>
      -- An accepted submission takes other coins, so it has another identifier.
      have hother : tx.txid ≠ sent.txid := by
        intro heq
        obtain rfl := hsame tx ids rfl heq
        obtain ⟨id, hid⟩ := List.exists_mem_of_ne_nil _ hcoins
        obtain ⟨e, hrefused⟩ := hsound.refuses hget hid tx hid
        rw [hsubmit] at hrefused
        cases hrefused
      rw [CoinStore.get?_pending_recordSubmitted hsubmit, if_neg hother, hget]
  · have hsearch := op.action_searches wallet.tracker (fun tx ids heq => hop ⟨tx, ids, heq⟩)
      ⟨wallet.store, wallet.outside⟩ hsound.keyed sent.txid
    rw [hget] at hsearch
    exact hsearch

/-- Behind a run a transaction on record is as the searched blocks have settled it. -/
theorem run_keeps_record (h : LoggedStore.Sound ⟨wallet.store, committed⟩)
    (hsound : wallet.store.SentSound)
    (hget : wallet.store.pending.get? sent.txid = some sent) (hcoins : sent.coins ≠ [])
    {ops : List (Operation σ)}
    (hsame : ∀ tx ids, .recordSubmitted tx ids ∈ ops → tx.txid = sent.txid → ids = sent.coins) :
    (wallet.run ops).store.pending.get? sent.txid = some (sent.behind (wallet.searched ops)) := by
  induction ops generalizing wallet committed sent with
  | nil => exact hget
  | cons op rest ih =>
    have hfirst := perform_keeps_record hsound hget hcoins fun tx ids heq =>
      hsame tx ids (heq ▸ List.mem_cons_self)
    obtain ⟨htxid, hkept⟩ := sent.behind_facts
      (op.searched wallet.tracker ⟨wallet.store, wallet.outside⟩)
    rw [← htxid] at hfirst hsame ⊢
    rw [← hkept] at hcoins hsame
    have hrest := ih (h.of_history (perform_history h op)) (perform_sentSound h hsound op) hfirst
      hcoins fun tx ids hmem => hsame tx ids (List.mem_cons_of_mem _ hmem)
    rw [searched, PendingTx.behind_append]
    exact hrest

/-- From an accepted submission on, the searched blocks tell what is on record of it. -/
theorem run_of_accepted (h : LoggedStore.Sound ⟨wallet.store, committed⟩)
    (hsound : wallet.store.SentSound) {tx : SignedTx} {ids : List CoinId} (hids : ids ≠ [])
    (haccepted : (wallet.store.recordSubmitted tx ids).isOk = true) {ops : List (Operation σ)}
    (hsame : ∀ again others, .recordSubmitted again others ∈ ops → again.txid = tx.txid →
      others = ids) :
    let sent := wallet.perform (.recordSubmitted tx ids)
    (sent.run ops).store.pending.get? tx.txid =
      some (PendingTx.behind ⟨tx.txid, tx.data, ids, .pending, none⟩ (sent.searched ops)) := by
  intro sent
  let submitted : PendingTx := ⟨tx.txid, tx.data, ids, .pending, none⟩
  obtain ⟨store, hstore⟩ := isOk_iff.mp haccepted
  have hbehind : sent.store = store := by
    show (wallet.perform (.recordSubmitted tx ids)).store = store
    rw [perform_recordSubmitted, hstore]
  have hsubmitted : sent.store.pending.get? submitted.txid = some submitted := by
    rw [hbehind, CoinStore.get?_pending_recordSubmitted hstore, if_pos rfl]
  exact run_keeps_record (h.of_history (perform_history h _)) (perform_sentSound h hsound _)
    hsubmitted hids hsame

/-- In a run a transaction is submitted with some coins, which is accepted, and whenever it is
submitted later on, it is with the same coins. From then on it is on record as it was sent: it waits
until the first block that holds it is searched, and then it is confirmed at the height of that
block. Every later submission is refused and changes nothing, and what is confirmed stays as it
is. -/
theorem submission_confirmed_once (params : ChainParams) (outside : σ)
    (before later : List (Operation σ)) {tx : SignedTx} {ids : List CoinId} (hids : ids ≠ [])
    (haccepted : (((start params outside).run before).store.recordSubmitted tx ids).isOk = true)
    (hsame : ∀ again others, .recordSubmitted again others ∈ later → again.txid = tx.txid →
      others = ids) :
    let sent := ((start params outside).run before).perform (.recordSubmitted tx ids)
    (∀ first rest, later = first ++ rest →
      (sent.run first).store.pending.get? tx.txid =
        match (sent.searched first).find? (·.holds tx.txid) with
        | none => some ⟨tx.txid, tx.data, ids, .pending, none⟩
        | some block => some ⟨tx.txid, tx.data, ids, .confirmed, some block.height⟩) ∧
    (∀ first again others rest, later = first ++ .recordSubmitted again others :: rest →
      again.txid = tx.txid →
        ((sent.run first).store.recordSubmitted again others).isOk = false ∧
          (sent.run first).perform (.recordSubmitted again others) = sent.run first) ∧
    ∀ first middle rest record, later = first ++ middle ++ rest →
      (sent.run first).store.pending.get? tx.txid = some record → record.status = .confirmed →
        (sent.run (first ++ middle)).store.pending.get? tx.txid = some record := by
  intro sent
  let submitted : PendingTx := ⟨tx.txid, tx.data, ids, .pending, none⟩
  have hstart := run_sound params outside before
  have hstartSent := run_sentSound params outside before
  have hrecord : ∀ first, (∀ op ∈ first, op ∈ later) →
      (sent.run first).store.pending.get? tx.txid =
        some (submitted.behind (sent.searched first)) := by
    intro first hfirst
    exact run_of_accepted hstart hstartSent hids haccepted fun again others hmem =>
      hsame again others (hfirst _ hmem)
  refine ⟨?record, ?refused, ?final⟩
  case record =>
    rintro first rest rfl
    have hwaits : submitted.status = .pending := rfl
    rw [hrecord first fun op hop => List.mem_append_left rest hop,
      PendingTx.behind_of_waiting hwaits]
    show _ = match (sent.searched first).find? (·.holds submitted.txid) with
      | none => _
      | some block => _
    cases (sent.searched first).find? (·.holds submitted.txid) <;> rfl
  case refused =>
    rintro first again others rest rfl htxid
    obtain rfl := hsame again others (by simp) htxid
    have hget := hrecord first fun op hop => List.mem_append_left _ hop
    obtain ⟨id, hid⟩ := List.exists_mem_of_ne_nil _ hids
    have hcoins : id ∈ (submitted.behind (sent.searched first)).coins := by
      rw [(submitted.behind_facts _).2]
      exact hid
    have hsound := hstart.of_history (perform_history hstart (.recordSubmitted tx others))
    have hsent := perform_sentSound hstart hstartSent (.recordSubmitted tx others)
    obtain ⟨e, hrefused⟩ :=
      (run_sentSound_of hsound hsent first).refuses hget hcoins again hid
    refine ⟨by rw [hrefused]; rfl, ?_⟩
    rw [perform_recordSubmitted, hrefused]
  case final =>
    rintro first middle rest record rfl hget hconfirmed
    rw [hrecord first fun op hop => by simp [hop]] at hget
    cases hget
    rw [hrecord (first ++ middle) fun op hop => List.mem_append_left rest hop, searched_append,
      PendingTx.behind_append, PendingTx.behind_of_settled (by simp [hconfirmed])]

/-- The small run goes on with a submission that takes the only coin, and a second one under the
same identifier. The block behind them does not hold the transaction, the next one does, and so does
a third that comes too late. -/
theorem small_run_submission_confirmed_once :
    let tx : SignedTx := ⟨[1], ⟨.replicate 32 1⟩⟩
    let again : Operation Unit := .recordSubmitted ⟨[2], tx.txid⟩ [SmallRun.coinName]
    let blockOf (height : UInt64) (txs : List ChainTx) : ChainBlock :=
      ⟨height, .zero .block, some (.zero .block), txs⟩
    let process (block : ChainBlock) : Operation Unit :=
      .processBlock SmallRun.provider SmallRun.source block
    let waiting := [again, process (blockOf 2 [])]
    let holding := [process (blockOf 3 [⟨tx.txid, 1, [], []⟩]),
      .trackPending (blockOf 4 [⟨tx.txid, 1, [], []⟩])]
    let sent := ((start SmallRun.params ()).run SmallRun.whole).perform
      (.recordSubmitted tx [SmallRun.coinName])
    sent.perform again = sent ∧
      (sent.run waiting).store.pending.get? tx.txid =
        some ⟨tx.txid, [1], [SmallRun.coinName], .pending, none⟩ ∧
      (sent.run (waiting ++ holding)).store.pending.get? tx.txid =
        some ⟨tx.txid, [1], [SmallRun.coinName], .confirmed, some 3⟩ := by
  intro tx again blockOf process waiting holding sent
  have hsame : ∀ second others, .recordSubmitted second others ∈ waiting ++ holding →
      second.txid = tx.txid → others = [SmallRun.coinName] := by
    intro second others hmem _
    obtain ⟨-, hothers⟩ : second = ⟨[2], tx.txid⟩ ∧ others = [SmallRun.coinName] := by
      simpa [waiting, holding, again, process] using hmem
    exact hothers
  obtain ⟨hrecord, hrefused, -⟩ := submission_confirmed_once SmallRun.params () SmallRun.whole
    (waiting ++ holding) (List.cons_ne_nil SmallRun.coinName []) (by decide +kernel) hsame
  refine ⟨(hrefused [] _ _ _ rfl rfl).2, ?_, ?_⟩
  · have hfound : (sent.searched waiting).find? (·.holds tx.txid) = none := by decide +kernel
    rw [hrecord waiting holding rfl, hfound]
  · have hfound : (sent.searched (waiting ++ holding)).find? (·.holds tx.txid) =
        some (blockOf 3 [⟨tx.txid, 1, [], []⟩]) := by decide +kernel
    rw [hrecord (waiting ++ holding) [] (List.append_nil _).symm, hfound]

end Wallet

end RingWallet
