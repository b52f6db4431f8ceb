import RingWallet.Proofs.Tracker.SeenSpend
import RingWallet.Proofs.Tracker.Together
import Mathlib.Data.List.Induction

/-!
# Accounts that do not interfere

One wallet watches an account alone, another watches it beside further accounts, and both process
the same blocks. Behind every block both wallets list the same coins of the account, in every field,
and have the same balance of it (`accounts_do_not_interfere`).

Coins are stored by their names, and a stored coin is never replaced. So it is not enough that no
output is recognised by the account and by another one: if two transactions have one identifier,
different outputs have one name, and the coin that comes first keeps the other out
(`one_owner_is_not_enough`). The accounts are apart if no output of the account has the name of an
output of another one (`Tracker.Apart`).
-/

set_option autoImplicit false

namespace RingWallet

variable {σ : Type}

/-! ## Outputs and who recognises them -/

/-- The account can recognise the output. -/
def ViewAccount.Recognises (view : ViewAccount) (provider : Provider σ) (version : UInt32)
    (output : Bytes) : Prop :=
  ∃ value, Returns (view.receive provider version output) (some value)

/-- The blocks hold an output under a name, in a transaction of a version. -/
def HoldOutput (blocks : List ChainBlock) (id : CoinId) (version : UInt32) (output : Bytes) : Prop :=
  ∃ block ∈ blocks, ∃ tx ∈ block.txs, ∃ index, tx.outputs[index]? = some output ∧
    id = ⟨tx.txid, UInt8.ofNat index⟩ ∧ version = tx.version

/-- An output under the name is recognised by another account than the given one. -/
def Tracker.IsForeign (tracker : Tracker) (provider : Provider σ) (account : AccountId)
    (blocks : List ChainBlock) (id : CoinId) : Prop :=
  ∃ version output, HoldOutput blocks id version output ∧ ∃ other view,
    other ≠ account ∧ tracker.accounts.get? other = some view ∧
      view.Recognises provider version output

/-- No output that the account recognises has the name of an output that another one recognises. -/
def Tracker.Apart (tracker : Tracker) (provider : Provider σ) (account : AccountId)
    (blocks : List ChainBlock) : Prop :=
  ∀ view, tracker.accounts.get? account = some view → ∀ id version output,
    HoldOutput blocks id version output → view.Recognises provider version output →
      ¬ tracker.IsForeign provider account blocks id

/-- No output of the blocks is recognised both by the account and by another one. -/
def Tracker.OneOwner (tracker : Tracker) (provider : Provider σ) (account : AccountId)
    (blocks : List ChainBlock) : Prop :=
  ∀ view, tracker.accounts.get? account = some view → ∀ id version output,
    HoldOutput blocks id version output → view.Recognises provider version output →
      ∀ other otherView, other ≠ account → tracker.accounts.get? other = some otherView →
        ¬ otherView.Recognises provider version output

section Owners

variable {provider : Provider σ} {version : UInt32} {output : Bytes}
  {accounts : List (AccountId × ViewAccount)}

/-- Where no owner is found, no account took the output. -/
theorem receive_of_recognise_none
    (h : Returns (recognise provider version output accounts) none) :
    ∀ entry ∈ accounts, Returns (entry.2.receive provider version output) none := by
  induction accounts with
  | nil => exact fun entry hmem => nomatch hmem
  | cons first rest ih =>
    unfold recognise at h
    obtain ⟨value?, hvalue, h⟩ := h.bind
    cases value? with
    | some value => cases h.eq_of_pure
    | none => exact List.forall_mem_cons.mpr ⟨hvalue, ih h⟩

/-- An owner that is found took the output. -/
theorem receive_of_recognise_some {owner : AccountId × UInt64}
    (h : Returns (recognise provider version output accounts) (some owner)) :
    ∃ account, (owner.1, account) ∈ accounts ∧
      Returns (account.receive provider version output) (some owner.2) := by
  induction accounts with
  | nil =>
    unfold recognise at h
    cases h.eq_of_pure
  | cons first rest ih =>
    unfold recognise at h
    obtain ⟨value?, hvalue, h⟩ := h.bind
    cases value? with
    | some value =>
      cases h.eq_of_pure
      exact ⟨first.2, List.mem_cons_self, hvalue⟩
    | none =>
      obtain ⟨account, hmem, hreceive⟩ := ih h
      exact ⟨account, List.mem_cons_of_mem _ hmem, hreceive⟩

/-- One account alone answers for itself. -/
theorem receive_of_recognise_singleton {account : AccountId} {view : ViewAccount}
    {owner? : Option (AccountId × UInt64)}
    (h : Returns (recognise provider version output [(account, view)]) owner?) :
    ∃ answer, Returns (view.receive provider version output) answer ∧
      owner? = answer.map fun value => (account, value) := by
  unfold recognise at h
  obtain ⟨answer, hanswer, h⟩ := h.bind
  refine ⟨answer, hanswer, ?_⟩
  cases answer with
  | none => exact h.eq_of_pure
  | some value => exact h.eq_of_pure

/-- If the accounts are apart, a tracker of one account alone and a tracker of all of them split the
outputs of the blocks. -/
theorem Tracker.splitsAt_of_apart (hsteady : provider.Follows provider) {alone joint : Tracker}
    {account : AccountId} {view : ViewAccount}
    (halone : alone.accounts.toList = [(account, view)])
    (hview : joint.accounts.get? account = some view) {blocks : List ChainBlock}
    (hapart : joint.Apart provider account blocks) {id : CoinId}
    (hhold : HoldOutput blocks id version output) :
    alone.SplitsAt joint provider account (joint.IsForeign provider account blocks) id version
      output := by
  intro owner? jointOwner? howner hjointOwner
  rw [halone] at howner
  obtain ⟨answer, hanswer, rfl⟩ := receive_of_recognise_singleton howner
  have hunique : ∀ {value?}, Returns (view.receive provider version output) value? →
      answer = value? :=
    (hsteady.receive_echoes view version output).returns_unique hanswer
  cases jointOwner? with
  | none =>
    have hmem := (OrderedMap.mem_toList_iff _ _ _).mpr hview
    rw [hunique (receive_of_recognise_none hjointOwner _ hmem)]
    exact .nobody
  | some jointOwner =>
    obtain ⟨owner, value⟩ := jointOwner
    obtain ⟨found, hmem, hreceive⟩ := receive_of_recognise_some hjointOwner
    have hfound := (OrderedMap.mem_toList_iff _ _ _).mp hmem
    by_cases hown : owner = account
    · subst hown
      rw [hview] at hfound
      cases hfound
      rw [hunique hreceive]
      exact .own (hapart view hview id version output hhold ⟨value, hreceive⟩)
    · have hforeign : joint.IsForeign provider account blocks id :=
        ⟨version, output, hhold, owner, found, hown, hfound, value, hreceive⟩
      cases answer with
      | none => exact .other hown hforeign
      | some mine =>
        -- The account does not recognise an output under a foreign name.
        exact absurd hforeign (hapart view hview id version output hhold ⟨mine, hanswer⟩)

end Owners

/-! ## Runs side by side -/

namespace Wallet

/-- A wallet that watches accounts and has seen no block. -/
def registered (params : ChainParams) (accounts : List (AccountId × ViewAccount)) (outside : σ) :
    Wallet σ :=
  (start params outside).run (accounts.map fun entry => .register entry.1 entry.2)

section Registered

variable (params : ChainParams) (outside : σ)

theorem params_registered (accounts : List (AccountId × ViewAccount)) :
    (registered params accounts outside).tracker.params = params :=
  params_run _ _

/-- Watching accounts stores nothing. -/
theorem store_registered (accounts : List (AccountId × ViewAccount)) :
    (registered params accounts outside).store = .empty := by
  unfold registered
  induction accounts using List.reverseRecOn with
  | nil => rfl
  | append_singleton before last ih =>
    rw [List.map_append, run_append]
    exact ih

/-- An account is watched whatever other accounts are watched after it. -/
theorem get?_registered_cons {account : AccountId} (view : ViewAccount)
    {others : List (AccountId × ViewAccount)} (hothers : ∀ entry ∈ others, entry.1 ≠ account) :
    (registered params ((account, view) :: others) outside).tracker.accounts.get? account =
      some view := by
  unfold registered
  induction others using List.reverseRecOn with
  | nil => exact OrderedMap.get?_insert_self _ account view
  | append_singleton before last ih =>
    rw [← List.cons_append, List.map_append, run_append]
    have hlast : last.1 ≠ account := hothers last (List.mem_append_right _ List.mem_cons_self)
    refine (OrderedMap.get?_insert_of_ne _ hlast last.2).trans (ih fun entry hmem => ?_)
    exact hothers entry (List.mem_append_left _ hmem)

end Registered

variable {provider : Provider σ} {source : BlockSource σ} {account : AccountId}

/-- All of the blocks are processed without a failure. -/
def Succeeds (provider : Provider σ) (source : BlockSource σ) (blocks : List ChainBlock)
    (wallet : Wallet σ) : Prop :=
  ∀ step ∈ trace provider source blocks wallet, step.succeeded = true

/-- Two wallets show the same of an account: its coins, in every field, and its balance. -/
def Agree (account : AccountId) (wallet other : Wallet σ) : Prop :=
  wallet.store.byAccount account none = other.store.byAccount account none ∧
    wallet.store.balance account = other.store.balance account

/-- Behind every block, the stores of two wallets share the account if they did at the start. -/
theorem trace_parallel (hsteady : provider.Follows provider) (hsource : source.Follows source)
    {foreign : CoinId → Prop} {alone joint : Wallet σ}
    (hparams : alone.tracker.params = joint.tracker.params)
    (hview : alone.tracker.accounts.get? account = joint.tracker.accounts.get? account)
    (hparallel : CoinStore.Parallel account foreign alone.store joint.store)
    {blocks : List ChainBlock}
    (hsplits : ∀ {id version output}, HoldOutput blocks id version output →
      alone.tracker.SplitsAt joint.tracker provider account foreign id version output)
    (halone : Succeeds provider source blocks alone)
    (hjoint : Succeeds provider source blocks joint) :
    List.Forall₂
      (fun step other => CoinStore.Parallel account foreign step.after.store other.after.store)
      (trace provider source blocks alone) (trace provider source blocks joint) := by
  -- A block leaves both trackers as they are, so only the stores change from block to block.
  induction blocks generalizing alone joint with
  | nil => exact .nil
  | cons block rest ih =>
    obtain ⟨hfirst, hrest⟩ := List.forall_mem_cons.mp halone
    obtain ⟨hfirstJoint, hrestJoint⟩ := List.forall_mem_cons.mp hjoint
    have hrelates := Tracker.processBlock_relates hsteady hsource hparams hview block
      fun tx htx index output houtput =>
        hsplits ⟨block, List.mem_cons_self, tx, htx, index, houtput, rfl, rfl⟩
    have hafter : CoinStore.Parallel account foreign
        (alone.perform (.processBlock provider source block)).store
        (joint.perform (.processBlock provider source block)).store := by
      rw [store_perform_processBlock, store_perform_processBlock]
      exact hrelates.of_isOk hparallel hfirst hfirstJoint
    refine .cons hafter (ih hparams hview hafter ?_ hrest hrestJoint)
    rintro id version output ⟨later, hlater, hhold⟩
    exact hsplits ⟨later, List.mem_cons_of_mem _ hlater, hhold⟩

/-- An account that is watched alone, and the same account watched beside others: if they are apart
and all blocks are processed in both wallets, both show the same of the account behind every
block. -/
theorem accounts_do_not_interfere (params : ChainParams) (outside jointOutside : σ)
    (hsteady : provider.Follows provider) (hsource : source.Follows source) (account : AccountId)
    (view : ViewAccount) (others : List (AccountId × ViewAccount))
    (hothers : ∀ entry ∈ others, entry.1 ≠ account) (blocks : List ChainBlock)
    (hapart : (registered params ((account, view) :: others) jointOutside).tracker.Apart provider
      account blocks)
    (halone : Succeeds provider source blocks (registered params [(account, view)] outside))
    (hjoint : Succeeds provider source blocks
      (registered params ((account, view) :: others) jointOutside)) :
    List.Forall₂ (fun step other => Agree account step.after other.after)
      (trace provider source blocks (registered params [(account, view)] outside))
      (trace provider source blocks
        (registered params ((account, view) :: others) jointOutside)) := by
  let alone := registered params [(account, view)] outside
  let joint := registered params ((account, view) :: others) jointOutside
  have hview := get?_registered_cons params jointOutside view hothers
  have haloneView : alone.tracker.accounts.get? account = some view :=
    OrderedMap.get?_insert_self _ account view
  have hparallel : CoinStore.Parallel account (joint.tracker.IsForeign provider account blocks)
      alone.store joint.store := by
    rw [store_registered, store_registered]
    exact .empty
  have htraces := trace_parallel hsteady hsource
    ((params_registered params outside _).trans (params_registered params jointOutside _).symm)
    (haloneView.trans hview.symm) hparallel
    (fun hhold => Tracker.splitsAt_of_apart hsteady rfl hview hapart hhold) halone hjoint
  exact htraces.imp fun step other hshared =>
    ⟨hshared.shares.byAccount_eq, hshared.shares.balance_eq⟩

end Wallet

namespace SmallRun

/-- The account that the outputs with a given first byte belong to. -/
def holder (first : UInt8) : ViewAccount :=
  .seedBacked (.pseudonym (.replicate CryptoScheme.seedLength first))

/-- A provider that tells accounts by the first byte of an output, and that knows one ring of two
coins. -/
def sorting : Provider Unit :=
  { provider with
    detect _ output detector := return output.head? == detector.head?
    serialNumbers coins _ _ := return coins.map fun coin => [coin.index]
    buildRings _ := return [{ ring with
      members := [(coinName, [0]), (⟨.zero .transaction, 1⟩, [1])]
      members_pos := by decide
      members_le := by decide
      outputs_lt := by decide }] }

theorem sorting_follows : sorting.Follows sorting :=
  { provider_follows with
    detect := fun _ _ _ => .pure _
    serialNumbers := fun _ _ _ => .pure _
    buildRings := fun _ => .pure _ }

theorem receive_answers (first : UInt8) (version : UInt32) (output : Bytes) :
    Answers ((holder first).receive sorting version output)
      (if output.head? = some first then some 1 else none) := by
  intro state
  refine ⟨state, ?_⟩
  change outcome (if output.head? == some first then consult (pure (some 1)) else pure none :
    WalletM Unit (Option UInt64)) state = _
  simp only [beq_iff_eq]
  split <;> rfl

theorem head?_of_recognises {first : UInt8} {version : UInt32} {output : Bytes}
    (h : (holder first).Recognises sorting version output) : output.head? = some first := by
  obtain ⟨value, hreturns⟩ := h
  have hanswer := (receive_answers first version output).eq_of_returns hreturns
  split at hanswer
  · assumption
  · cases hanswer

/-- A block whose coinbase pays outputs. -/
def payingTo (height : UInt64) (outputs : List Bytes) : ChainBlock :=
  ⟨height, .zero .block, none, [⟨.zero .transaction, 1, [], outputs⟩]⟩

/-- The second account. -/
def others : List (AccountId × ViewAccount) := [(⟨1⟩, holder 1)]

/-- The accounts hold the outputs that begin with their numbers. -/
theorem get?_holders {params : ChainParams} {id : AccountId} {view : ViewAccount}
    (h : (Wallet.registered params ((⟨0⟩, holder 0) :: others) ()).tracker.accounts.get? id =
      some view) : id = ⟨0⟩ ∧ view = holder 0 ∨ id = ⟨1⟩ ∧ view = holder 1 := by
  have hmem : (id, view) ∈ [((⟨0⟩ : AccountId), holder 0), (⟨1⟩, holder 1)] :=
    (OrderedMap.mem_toList_iff _ _ _).mpr h
  simpa using hmem

/-- An output that the two accounts of a wallet recognise, the first and another one, begins with
two different bytes. -/
theorem head?_of_holders {params : ChainParams} {other : AccountId}
    {view otherView : ViewAccount} (hother : other ≠ ⟨0⟩)
    (hview : (Wallet.registered params ((⟨0⟩, holder 0) :: others) ()).tracker.accounts.get? ⟨0⟩ =
      some view)
    (hotherView : (Wallet.registered params ((⟨0⟩, holder 0) :: others) ()).tracker.accounts.get?
      other = some otherView)
    {version otherVersion : UInt32} {output otherOutput : Bytes}
    (h : view.Recognises sorting version output)
    (h' : otherView.Recognises sorting otherVersion otherOutput) :
    output.head? = some 0 ∧ otherOutput.head? = some 1 := by
  rcases get?_holders hview with ⟨-, rfl⟩ | ⟨hid, -⟩
  · rcases get?_holders hotherView with ⟨hid, -⟩ | ⟨-, rfl⟩
    · exact absurd hid hother
    · exact ⟨head?_of_recognises h, head?_of_recognises h'⟩
  · cases hid

end SmallRun

namespace Wallet

/-- One coinbase pays both accounts, and the coins fall due in the next block. -/
theorem small_run_accounts_do_not_interfere :
    let blocks := [SmallRun.payingTo 0 [[0], [1]], SmallRun.payingTo 1 []]
    let alone := registered SmallRun.params [(⟨0⟩, SmallRun.holder 0)] ()
    let joint := registered SmallRun.params ((⟨0⟩, SmallRun.holder 0) :: SmallRun.others) ()
    joint.tracker.Apart SmallRun.sorting ⟨0⟩ blocks ∧
      Succeeds SmallRun.sorting SmallRun.source blocks alone ∧
      Succeeds SmallRun.sorting SmallRun.source blocks joint ∧
      (trace SmallRun.sorting SmallRun.source blocks joint).map (·.after.store.balance ⟨0⟩) =
        [.ok 0, .ok 1] ∧
      List.Forall₂ (fun step other => Agree ⟨0⟩ step.after other.after)
        (trace SmallRun.sorting SmallRun.source blocks alone)
        (trace SmallRun.sorting SmallRun.source blocks joint) := by
  intro blocks alone joint
  -- In these blocks an output begins with its own index.
  have hindex : ∀ {id version output}, HoldOutput blocks id version output →
      output.head? = some id.index := by
    rintro id version output ⟨block, hblock, tx, htx, index, houtput, rfl, rfl⟩
    rcases List.mem_cons.mp hblock with rfl | hblock
    · cases List.mem_singleton.mp htx
      rcases index with _ | _ | index
      · cases houtput
        rfl
      · cases houtput
        rfl
      · cases houtput
    · cases List.mem_singleton.mp hblock
      cases List.mem_singleton.mp htx
      cases houtput
  have hapart : joint.tracker.Apart SmallRun.sorting ⟨0⟩ blocks := by
    rintro view hview id version output hhold hrecognises
      ⟨otherVersion, otherOutput, hotherHold, other, otherView, hother, hotherView, hforeign⟩
    obtain ⟨hfirst, hsecond⟩ :=
      SmallRun.head?_of_holders hother hview hotherView hrecognises hforeign
    rw [hindex hhold] at hfirst
    rw [hindex hotherHold, hfirst] at hsecond
    cases hsecond
  have halone : Succeeds SmallRun.sorting SmallRun.source blocks alone := by
    unfold Succeeds
    decide +kernel
  have hjoint : Succeeds SmallRun.sorting SmallRun.source blocks joint := by
    unfold Succeeds
    decide +kernel
  have hbalance : (trace SmallRun.sorting SmallRun.source blocks joint).map
      (·.after.store.balance ⟨0⟩) = [.ok 0, .ok 1] := by decide +kernel
  exact ⟨hapart, halone, hjoint, hbalance, accounts_do_not_interfere SmallRun.params () ()
    SmallRun.sorting_follows SmallRun.source_follows ⟨0⟩ (SmallRun.holder 0) SmallRun.others
    (by decide) blocks hapart halone hjoint⟩

/-- It is not enough that no output has two owners: where two transactions have one identifier, a coin
of the other account can take the place of the account's own. -/
theorem one_owner_is_not_enough :
    ¬ ∀ (params : ChainParams) (outside jointOutside : Unit) (provider : Provider Unit)
      (source : BlockSource Unit) (account : AccountId) (view : ViewAccount)
      (others : List (AccountId × ViewAccount)) (blocks : List ChainBlock),
      provider.Follows provider → source.Follows source →
      (∀ entry ∈ others, entry.1 ≠ account) →
      (registered params ((account, view) :: others) jointOutside).tracker.OneOwner provider account
        blocks →
      Succeeds provider source blocks (registered params [(account, view)] outside) →
      Succeeds provider source blocks (registered params ((account, view) :: others) jointOutside) →
      List.Forall₂ (fun step other => Agree account step.after other.after)
        (trace provider source blocks (registered params [(account, view)] outside))
        (trace provider source blocks
          (registered params ((account, view) :: others) jointOutside)) := by
  intro h
  -- Both blocks are inside one window, so no ring is asked for.
  let params : ChainParams := ⟨1, 3, 7⟩
  let blocks := [SmallRun.payingTo 0 [[1]], SmallRun.payingTo 1 [[0]]]
  have hone : (registered params ((⟨0⟩, SmallRun.holder 0) :: SmallRun.others) ()).tracker.OneOwner
      SmallRun.sorting ⟨0⟩ blocks := by
    intro view hview id version output hhold hrecognises other otherView hother hotherView hforeign
    obtain ⟨hfirst, hsecond⟩ :=
      SmallRun.head?_of_holders hother hview hotherView hrecognises hforeign
    rw [hfirst] at hsecond
    cases hsecond
  have hagree := h params () () SmallRun.sorting SmallRun.source ⟨0⟩ (SmallRun.holder 0)
    SmallRun.others blocks SmallRun.sorting_follows SmallRun.source_follows (by decide) hone
    (by unfold Succeeds; decide +kernel) (by unfold Succeeds; decide +kernel)
  cases hagree with
  | cons _ hrest =>
    cases hrest with
    | cons hsecond _ =>
      -- Alone, the account has its coin; beside the other, it has none.
      exact absurd hsecond.1 (by decide +kernel)

end Wallet

end RingWallet
