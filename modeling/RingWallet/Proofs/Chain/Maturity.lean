import RingWallet.Proofs.Chain.Aging
import RingWallet.Proofs.Tracker.Run

/-!
# Maturity on a built chain

A wallet with a fixed set of accounts processes the blocks of a built chain in order, over the
stand-in scheme and with the chain as its source. No block fails. Behind any number of blocks, the
stored coins are outputs of these blocks, and every output that has an owner is stored
(`behind_covers`). If no input of the blocks shows the serial number of a stored coin, every stored
coin is on time (`behind_onTime`).

`maturity_exact` puts both together for the outputs that an account recognises: when they are stored,
linked and spendable.
-/

set_option autoImplicit false

namespace RingWallet

open HashScheme

/-- Transactions of a chain with one identifier stand at one place. -/
theorem LocalChain.DistinctTxids.place_eq {chain : LocalChain} (h : chain.DistinctTxids)
    {place other txPlace otherTxPlace : Nat} {block otherBlock : ChainBlock} {tx otherTx : ChainTx}
    (hblock : chain.blocks[place]? = some block) (hother : chain.blocks[other]? = some otherBlock)
    (htx : block.txs[txPlace]? = some tx) (hotherTx : otherBlock.txs[otherTxPlace]? = some otherTx)
    (heq : tx.txid = otherTx.txid) : place = other ∧ txPlace = otherTxPlace := by
  have hmem := List.mem_of_getElem? htx
  have hotherMem := List.mem_of_getElem? hotherTx
  -- Different blocks share no identifier, and one block holds each of them once.
  rcases Nat.lt_trichotomy place other with hlt | rfl | hgt
  · exact absurd heq (h.ne hlt hblock hother hmem hotherMem)
  · rw [hblock] at hother
    cases hother
    unfold DistinctTxids at h
    rw [List.map_flatMap, List.nodup_flatMap] at h
    have htxids := h.1 block (List.mem_of_getElem? hblock)
    obtain ⟨hplace, -⟩ := List.getElem?_eq_some_iff.mp htx
    have hlast : txPlace < (block.txs.map (·.txid)).length := by
      rw [List.length_map]
      exact hplace
    refine ⟨rfl, (List.getElem?_inj hlast htxids).mp ?_⟩
    rw [List.getElem?_map, List.getElem?_map, htx, hotherTx, Option.map_some, Option.map_some, heq]
  · exact absurd heq.symm (h.ne hgt hother hblock hotherMem hmem)

namespace CoinStore

/-- The store holds what the first blocks of a chain pay to given accounts. -/
structure Covers (chain : LocalChain) (accounts : List (AccountId × ViewAccount)) (bound : Nat)
    (store : CoinStore) : Prop where
  /-- Every stored coin is an output of the blocks. -/
  found : ∀ id coin, store.coin? id = some coin →
    ∃ place < bound, FoundAt chain accounts place coin
  /-- Every output of the blocks that has an owner is stored. -/
  stored : ∀ place < bound, ∀ block, chain.blocks[place]? = some block → ∀ tx ∈ block.txs,
    ∀ index data owner, tx.outputs[index]? = some data → OwnedBy accounts data owner →
    ∃ coin, store.coin? ⟨tx.txid, UInt8.ofNat index⟩ = some coin

/-- No input of the blocks shows the serial number of a stored coin. -/
def Unshown (store : CoinStore) (blocks : List ChainBlock) : Prop :=
  ∀ id coin, store.coin? id = some coin → ∀ block ∈ blocks, ∀ tx ∈ block.txs,
    ∀ input ∈ tx.inputs, coin.serialNumber? ≠ some input.serialNumber

end CoinStore

namespace Wallet

/-- A wallet that watches the accounts of a tracker and holds nothing. -/
def watching (tracker : Tracker) (tally : Tally) : Wallet Tally := ⟨tracker, .empty, tally⟩

/-- A wallet behind the first blocks of a chain. -/
def behind (wallet : Wallet Tally) (supply : RandSupply) (chain : LocalChain) (count : Nat) :
    Wallet Tally :=
  wallet.run ((chain.blocks.take count).map (.processBlock (provider supply) chain.source))

variable {chain : LocalChain} {tracker : Tracker} {supply : RandSupply} {tally : Tally}
  {wallet : Wallet Tally} {place count : Nat} {block : ChainBlock}

theorem behind_succ (hblock : chain.blocks[place]? = some block) :
    wallet.behind supply chain (place + 1) =
      (wallet.behind supply chain place).perform (.processBlock (provider supply) chain.source
        block) := by
  unfold behind
  rw [List.take_add_one, hblock, Option.toList_some, List.map_append, run_append]
  rfl

theorem tracker_behind (wallet : Wallet Tally) (supply : RandSupply) (chain : LocalChain)
    (count : Nat) : (wallet.behind supply chain count).tracker = wallet.tracker := by
  unfold behind
  generalize chain.blocks.take count = blocks
  induction blocks generalizing wallet with
  | nil => rfl
  | cons block rest ih => exact ih (wallet.perform (.processBlock (provider supply) _ block))

theorem behind_sound (tracker : Tracker) (tally : Tally) (supply : RandSupply) (chain : LocalChain)
    (count : Nat) : ∃ committed,
      LoggedStore.Sound ⟨((watching tracker tally).behind supply chain count).store, committed⟩ := by
  have hempty : LoggedStore.Sound ⟨(watching tracker tally).store, []⟩ := .empty
  exact ⟨_, hempty.of_history (run_history hempty
    ((chain.blocks.take count).map (.processBlock (provider supply) chain.source)))⟩

/-- Further blocks only move coins forward. -/
theorem behind_advances (tracker : Tracker) (tally : Tally) (supply : RandSupply)
    (chain : LocalChain) (hle : place ≤ count) :
    ((watching tracker tally).behind supply chain place).store.Advances
      ((watching tracker tally).behind supply chain count).store := by
  obtain ⟨committed, hsound⟩ := behind_sound tracker tally supply chain place
  obtain ⟨rest, hsplit⟩ : ∃ rest, chain.blocks.take count = chain.blocks.take place ++ rest := by
    have htake := List.take_append_drop place (chain.blocks.take count)
    rw [List.take_take, Nat.min_eq_left hle] at htake
    exact ⟨_, htake.symm⟩
  have hrun : (watching tracker tally).behind supply chain count =
      ((watching tracker tally).behind supply chain place).run
        (rest.map (.processBlock (provider supply) chain.source)) := by
    rw [behind, hsplit, List.map_append, run_append]
    rfl
  rw [hrun]
  exact hsound.advances_of_history (run_history hsound _)

section

variable (hbuilt : chain.Built) (htxids : chain.DistinctTxids)
  (hrings : chain.DistinctRings tracker.params)
  (haccounts : ∀ entry ∈ tracker.accounts.toList, IsReadable supply entry.2)

include hbuilt htxids hrings haccounts

/-- One more block: it is processed, and the store covers it. -/
theorem covers_succ (tally : Tally) (hblock : chain.blocks[place]? = some block)
    (hcovers : ((watching tracker tally).behind supply chain place).store.Covers chain
      tracker.accounts.toList place) :
    (outcome (tracker.processBlock (provider supply) chain.source block)
      ⟨((watching tracker tally).behind supply chain place).store,
        ((watching tracker tally).behind supply chain place).outside⟩).1.isOk = true ∧
      ((watching tracker tally).behind supply chain (place + 1)).store.Covers chain
        tracker.accounts.toList (place + 1) := by
  obtain ⟨committed, hsound⟩ := behind_sound tracker tally supply chain place
  obtain ⟨report, after, hrun, hfound, hstored⟩ := Tracker.processBlock_ages hbuilt htxids hrings
    haccounts hblock (Q := fun _ => True) (fun _ _ _ _ => trivial) (fun _ _ _ => trivial)
    ⟨((watching tracker tally).behind supply chain place).store,
      ((watching tracker tally).behind supply chain place).outside⟩ hsound
    fun id coin hcoin => ⟨trivial, hcovers.found id coin hcoin⟩
  have hstore : ((watching tracker tally).behind supply chain (place + 1)).store =
      after.store := by
    rw [behind_succ hblock, store_perform_processBlock, tracker_behind]
    change (outcome (tracker.processBlock (provider supply) chain.source block) _).2.store = _
    rw [hrun]
  refine ⟨by rw [hrun]; rfl, ?_, ?_⟩
  · intro id coin hcoin
    rw [hstore] at hcoin
    exact (hfound id coin hcoin).1
  · intro older hlt olderBlock holder tx htx index data owner houtput howned
    rcases Nat.lt_succ_iff_lt_or_eq.mp hlt with hlt | rfl
    · -- A coin of an older block is still there.
      obtain ⟨coin, hcoin⟩ :=
        hcovers.stored older hlt olderBlock holder tx htx index data owner houtput howned
      obtain ⟨later, hlater, -⟩ :=
        behind_advances tracker tally supply chain (Nat.le_succ place) _ coin hcoin
      exact ⟨later, hlater⟩
    · rw [hblock] at holder
      cases holder
      rw [hstore]
      exact hstored tx htx index data owner houtput howned

/-- The store behind any number of blocks covers them. -/
theorem behind_covers (tally : Tally) (hcount : count ≤ chain.blocks.length) :
    ((watching tracker tally).behind supply chain count).store.Covers chain
      tracker.accounts.toList count := by
  induction count with
  | zero =>
    refine ⟨fun id coin hcoin => ?_, fun place hlt => absurd hlt (Nat.not_lt_zero place)⟩
    cases hcoin
  | succ count ih =>
    have hblock := List.getElem?_eq_getElem (Nat.lt_of_succ_le hcount)
    exact (covers_succ hbuilt htxids hrings haccounts tally hblock (ih (by omega))).2

/-- Coins whose serial numbers are not shown are on time behind any number of blocks. -/
theorem behind_onTime (tally : Tally) (hcount : count ≤ chain.blocks.length)
    (hunshown : ((watching tracker tally).behind supply chain count).store.Unshown
      (chain.blocks.take count)) {bound : Nat} (hbound : bound ≤ count) :
    ∀ id coin, ((watching tracker tally).behind supply chain bound).store.coin? id = some coin →
      coin.OnTime tracker.params bound := by
  induction bound with
  | zero => exact fun id coin hcoin => nomatch hcoin
  | succ place ih =>
    have hplace : place < chain.blocks.length := by omega
    have hblock := List.getElem?_eq_getElem hplace
    have hlength := hbuilt.length_le htxids
    have hcovers := behind_covers hbuilt htxids hrings haccounts tally (Nat.le_of_lt hplace)
    obtain ⟨committed, hsound⟩ := behind_sound tracker tally supply chain place
    -- A coin that is on time and that the inputs of the block do not show.
    let Q : Coin → Prop := fun coin => coin.OnTime tracker.params place ∧
      ∀ tx ∈ chain.blocks[place].txs, ∀ input ∈ tx.inputs,
        coin.serialNumber? ≠ some input.serialNumber
    have hseen : ∀ tx ∈ chain.blocks[place].txs, ∀ coin, Q coin → Q (coin.seenBy tx.inputs) := by
      intro tx htx coin hcoin
      rw [Coin.seenBy_of_not_shown (hcoin.2 tx htx)]
      exact hcoin
    have hnew : ∀ coin : Coin, coin.IsFresh → coin.height.toNat = place → Q coin := by
      intro coin hfresh hheight
      refine ⟨hfresh.onTime (Nat.le_of_eq hheight.symm), fun tx _ input _ hshown => ?_⟩
      rw [hfresh.serialNumber_eq] at hshown
      cases hshown
    obtain ⟨report, after, hrun, haged, -⟩ := Tracker.processBlock_ages hbuilt htxids hrings
      haccounts hblock hseen hnew
      ⟨((watching tracker tally).behind supply chain place).store,
        ((watching tracker tally).behind supply chain place).outside⟩ hsound
      fun id coin hcoin => by
        refine ⟨⟨ih (by omega) id coin hcoin, fun tx htx input hinput hshown => ?_⟩,
          hcovers.found id coin hcoin⟩
        -- The coin keeps its serial number to the end, where no input shows it.
        obtain ⟨later, hlater, hforward⟩ := behind_advances tracker tally supply chain
          (show place ≤ count by omega) id coin hcoin
        refine hunshown id later hlater chain.blocks[place] ?_ tx htx input hinput
          (hforward.serialNumber_kept _ hshown)
        exact List.mem_take_iff_getElem.mpr ⟨place, by omega, rfl⟩
    intro id coin hcoin
    rw [behind_succ hblock, store_perform_processBlock, tracker_behind] at hcoin
    change (outcome (tracker.processBlock (provider supply) chain.source chain.blocks[place])
      _).2.store.coin? id = some coin at hcoin
    rw [hrun] at hcoin
    obtain ⟨-, before, hbefore, hage⟩ := haged id coin hcoin
    exact hage.onTime hbefore.1 (by omega)

/-- Maturity is exact. A wallet processes the blocks of a built chain up to a height without a
failure. If no input of these blocks shows the serial number of a stored coin, then every output
that a watched account recognises is stored behind them: it is resolved exactly if the window of its
block has ended, and it is spendable exactly if it is due, and immature otherwise. -/
theorem maturity_exact (tally : Tally) {height : Nat} (hheight : height < chain.blocks.length) :
    (∀ place ≤ height, ∀ block, chain.blocks[place]? = some block →
      (outcome (tracker.processBlock (provider supply) chain.source block)
        ⟨((watching tracker tally).behind supply chain place).store,
          ((watching tracker tally).behind supply chain place).outside⟩).1.isOk = true) ∧
    (((watching tracker tally).behind supply chain (height + 1)).store.Unshown
        (chain.blocks.take (height + 1)) →
      ∀ place ≤ height, ∀ block, chain.blocks[place]? = some block →
      ∀ txPlace tx, block.txs[txPlace]? = some tx → ∀ index data, tx.outputs[index]? = some data →
      ∀ entry ∈ tracker.accounts.toList, ∀ asked value,
        (outcome (entry.2.receive (provider supply) tx.version data) asked).1 = .ok (some value) →
        ∃ coin, ((watching tracker tally).behind supply chain (height + 1)).store.coin?
            ⟨tx.txid, UInt8.ofNat index⟩ = some coin ∧
          coin.height = UInt64.ofNat place ∧ coin.isCoinbase = decide (txPlace = 0) ∧
          (coin.isResolved = true ↔ tracker.params.windowEnd place ≤ height) ∧
          coin.status = if tracker.params.dueAt (decide (txPlace = 0)) place ≤ height
            then .spendable else .immature) := by
  refine ⟨fun place hle block hblock => ?_, fun hunshown place hle block hblock txPlace tx htx index
    data houtput entry hentry asked value hreceive => ?_⟩
  · have hcovers := behind_covers hbuilt htxids hrings haccounts tally
      (show place ≤ chain.blocks.length by omega)
    exact (covers_succ hbuilt htxids hrings haccounts tally hblock hcovers).1
  · have hlength := hbuilt.length_le htxids
    have htxMem := List.mem_of_getElem? htx
    have hplain := ((hbuilt.plainBlock hblock).outputs tx htxMem).plain data
      (List.mem_of_getElem? houtput)
    obtain ⟨owner, howned⟩ := hplain.exists_ownedBy hentry (haccounts entry hentry) hreceive
    have hcovers := behind_covers hbuilt htxids hrings haccounts tally
      (show height + 1 ≤ chain.blocks.length by omega)
    obtain ⟨coin, hcoin⟩ := hcovers.stored place (by omega) block hblock tx htxMem index data owner
      houtput howned
    -- The coin under this name can only have been found at this output's place.
    obtain ⟨coinPlace, -, hfound⟩ := hcovers.found _ coin hcoin
    have hcoinHeight := hfound.toNat_height hlength
    rcases hfound with ⟨hcoinBlock, hcoinTx, -, hid, hcoinPlace, hcoinbase, -⟩
    obtain ⟨committed, hsound⟩ := behind_sound tracker tally supply chain (height + 1)
    have hname := (hsound.id_eq hcoin).symm.trans hid
    obtain ⟨rfl, rfl⟩ := htxids.place_eq hblock hcoinBlock htx hcoinTx (CoinId.mk.inj hname).1
    have htime := behind_onTime hbuilt htxids hrings haccounts tally (by omega) hunshown
      (Nat.le_refl _) _ coin hcoin
    refine ⟨coin, hcoin, hcoinPlace, hcoinbase, ?_, ?_⟩
    · rw [(hsound.link hcoin).isResolved_iff, htime.linked_iff, hcoinHeight]
      omega
    · rw [htime.status_eq, hcoinHeight, hcoinbase]
      refine if_congr ?_ rfl rfl
      omega

end

end Wallet

/-! ## A small chain

Two blocks, the first of which pays one coinbase output to the only account. Every block is a window
of its own, and coinbase outputs must be one block deep.
-/

namespace SmallChain

/-- Windows of one block each; coinbase coins fall due one block later. -/
def params : ChainParams := ⟨1, 1, 7⟩

/-- A coin address of a pseudonym. -/
def coinAddress : CoinAddress :=
  ⟨.pseudonym, List.replicate PrivacyLevel.pseudonym.coinAddressLength 0, rfl⟩

/-- The address of the only account. -/
def address : CryptoAddress where
  bytes := PrivacyLevel.pseudonym.header ++ coinAddress.bytes
  coin := coinAddress
  tag_eq := by decide +kernel
  length_eq := by decide +kernel

def account : ViewAccount := .keyBacked ⟨address, [1], [2], none, by decide, by decide⟩

/-- The output that is paid to the account. -/
def output : Output := ⟨.pseudonym, coinAddress.bytes, 5⟩

/-- The transaction that pays the output. -/
def coinbase : ChainTx := ⟨LocalChain.txidAt 0 0, LocalChain.txVersion, [], [output.serialize]⟩

def chain : LocalChain := (LocalChain.empty.push [output.serialize] []).push [] []

def tracker : Tracker := (Tracker.new params).register ⟨0⟩ account

theorem built : chain.Built := by
  have hpaid : PlainOutputs [output.serialize] := by
    refine ⟨by decide, fun data hdata => ?_⟩
    rw [List.mem_singleton.mp hdata]
    exact .intro (by decide +kernel)
  have hnone : PlainOutputs [] := ⟨by decide, fun data hdata => nomatch hdata⟩
  exact .push (.push .empty hpaid (fun tx htx => nomatch htx) (by decide)) hnone
    (fun tx htx => nomatch htx) (by decide)

theorem distinctTxids : chain.DistinctTxids := by
  have hne : LocalChain.txidAt 0 0 ≠ LocalChain.txidAt 1 0 := by decide +kernel
  change [LocalChain.txidAt 0 0, LocalChain.txidAt 1 0].Nodup
  simpa using hne

theorem isReadable : ∀ entry ∈ tracker.accounts.toList, IsReadable countingSupply entry.2 := by
  intro entry hentry
  rw [List.mem_singleton.mp hentry]
  exact ⟨⟨0, 0⟩, by decide +kernel⟩

/-- A window of the small chain has at most one output, and so at most one ring. -/
theorem distinctRings : chain.DistinctRings tracker.params := by
  intro place rings hend hrings a ha b hb _
  have hplace : place < 2 := Nat.lt_of_le_of_lt (tracker.params.le_windowEnd place) hend
  obtain ⟨found, hfound, hmembers, -⟩ := built.exists_windowRings distinctTxids hend
  have hone : (windowOutputs (chain.window (LocalChain.windowStart tracker.params place)
      tracker.params.groupSize)).length ≤ 1 := by
    rcases (by omega : place = 0 ∨ place = 1) with rfl | rfl <;> decide
  rw [hfound] at hrings
  cases hrings
  exact eq_of_length_windowOutputs_le hmembers hone a ha b hb

theorem inputs_eq : ∀ block ∈ chain.blocks, ∀ tx ∈ block.txs, tx.inputs = [] := by
  simp [chain, LocalChain.push, LocalChain.empty, LocalChain.nextBlock]

end SmallChain

namespace Wallet

/-- In the small chain the output is linked at once, and can be spent one block later. -/
theorem small_chain_maturity_exact :
    (∃ coin, ((watching SmallChain.tracker ⟨0, 0⟩).behind countingSupply SmallChain.chain
        1).store.coin? ⟨LocalChain.txidAt 0 0, 0⟩ = some coin ∧
      coin.isResolved = true ∧ coin.status = .immature) ∧
    ∃ coin, ((watching SmallChain.tracker ⟨0, 0⟩).behind countingSupply SmallChain.chain
        2).store.coin? ⟨LocalChain.txidAt 0 0, 0⟩ = some coin ∧
      coin.isResolved = true ∧ coin.status = .spendable := by
  have hunshown : ∀ (store : CoinStore) (count : Nat),
      store.Unshown (SmallChain.chain.blocks.take count) := by
    intro store count id coin _ block hblock tx htx input hinput
    rw [SmallChain.inputs_eq block (List.mem_of_mem_take hblock) tx htx] at hinput
    cases hinput
  have hlength : SmallChain.output.coinAddress.length < UInt32.size := by decide +kernel
  obtain ⟨after, hreceive⟩ := receive_answers countingSupply
    (SmallChain.isReadable (⟨0⟩, SmallChain.account) (.head _)) hlength
    SmallChain.coinbase.version ⟨0, 0⟩
  have hvalue : valueFor SmallChain.account SmallChain.output = some 5 := by decide +kernel
  rw [hvalue] at hreceive
  have hcoin : ∀ height < 2, _ := fun height hheight =>
    (maturity_exact SmallChain.built SmallChain.distinctTxids SmallChain.distinctRings
      SmallChain.isReadable ⟨0, 0⟩
      (show height < SmallChain.chain.blocks.length from hheight)).2 (hunshown _ _) 0 (Nat.zero_le _) _
        rfl 0 SmallChain.coinbase rfl 0 SmallChain.output.serialize rfl
        (⟨0⟩, SmallChain.account) (.head _) ⟨0, 0⟩ 5 (congrArg Prod.fst hreceive)
  constructor
  · obtain ⟨coin, hstored, -, -, hresolved, hstatus⟩ := hcoin 0 (by decide)
    exact ⟨coin, hstored, hresolved.mpr (by decide), hstatus⟩
  · obtain ⟨coin, hstored, -, -, hresolved, hstatus⟩ := hcoin 1 (by decide)
    exact ⟨coin, hstored, hresolved.mpr (by decide), hstatus⟩

end Wallet

end RingWallet
