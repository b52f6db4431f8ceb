import Mathlib.Data.List.Pairwise
import RingWallet.Proofs.HashScheme.Answers
import RingWallet.Proofs.HashScheme.Rings
import RingWallet.Proofs.Tracker.Stages

/-!
# Accounts that are watched later

With the stand-in scheme, it does not matter whether an account is watched when the end of a window
is handled first or only when it is handled again: the store becomes the same, up to the order in
which the coins of a serial number are listed (`window_resolved_in_stages`). The outputs of the
window must have different names, as a coin is told by its name to which ring it belongs.
-/

set_option autoImplicit false

namespace RingWallet

namespace HashScheme

variable (supply : RandSupply)

theorem answer_echoes {α : Type} (result : Except Failure α) :
    Echoes (answer result) (answer result) :=
  fun _ h => answer_answers (eq_ok_of_returns h)

/-- What tracking asks of the scheme is answered alike whenever it is asked. -/
theorem provider_follows : (provider supply).Follows (provider supply) where
  outputLevel _ _ := answer_echoes _
  outputCoinAddress _ _ := answer_echoes _
  detect _ _ _ := answer_echoes _
  valueByRoot _ _ _ _ := answer_echoes _
  valueByKeys _ _ _ _ := answer_echoes _
  serialNumbers _ _ _ := answer_echoes _
  buildRings _ := answer_echoes _

/-! ## The rings of one window -/

/-- No two outputs of the blocks have one name. -/
def DistinctNames (blocks : List Bytes) : Prop :=
  ∀ decoded, blocks.mapM decodeBlock = .ok decoded →
    ((decoded.flatMap BlockOutputs.named).map Prod.fst).Nodup

/-- If outputs have different names, no two different rings share a member. -/
theorem eq_of_member_of_buildRings {blocks : List Bytes} (hnames : DistinctNames blocks)
    {rings : List CoinRing} (hrings : buildRings blocks = .ok rings) :
    ∀ a ∈ rings, ∀ b ∈ rings, ∀ coin, coin ∈ a.coins → coin ∈ b.coins → a = b := by
  obtain ⟨decoded, hdecoded, hperm⟩ := members_of_buildRings hrings
  have hnodup := (hperm.map Prod.fst).nodup_iff.mpr (hnames decoded hdecoded)
  rw [List.map_flatMap, List.nodup_flatMap] at hnodup
  have hsymm : Std.Symm (Function.onFun List.Disjoint fun ring : CoinRing =>
      ring.members.map Prod.fst) := ⟨fun _ _ => List.disjoint_symm⟩
  intro a ha b hb coin hcoinA hcoinB
  by_contra hne
  exact hnodup.2.forall ha hb hne hcoinA hcoinB

/-! ## Resolving a window -/

/-- The end of a window, handled for given accounts on a store. -/
def resolveFor (params : ChainParams) (source : BlockSource Tally) (height : UInt64)
    (watched : OrderedMap AccountId ViewAccount) (store : CoinStore) (tally : Tally) :
    Except WalletError (List (CoinId × Bool)) × TrackState Tally :=
  outcome (Tracker.resolveGroup ⟨params, watched⟩ (provider supply) source height) ⟨store, tally⟩

/-- It does not matter which accounts are watched when.

Take any state of a run and any height whose blocks are there and have outputs of different names. If
the window is resolved for some accounts, and then for these and others, the store is the one that
resolving it for all of them at once makes, up to the order in which the coins of a serial number are
listed. The window can be resolved at once, unless two of its rings are a collision of the hash that
makes identifiers. -/
theorem window_resolved_in_stages {σ : Type} (params : ChainParams) (outside : σ)
    (ops : List (Operation σ)) (source : BlockSource Tally) (height : UInt64)
    {blocks : List Bytes} (hblocks : Answers (fetchGroup source params height) blocks)
    (hnames : DistinctNames blocks) {accounts more : OrderedMap AccountId ViewAccount}
    (hmore : ∀ id view, accounts.get? id = some view → more.get? id = some view)
    {resolved others : List (CoinId × Bool)} {tally laterTally : Tally}
    {first second : TrackState Tally}
    (hfirst : resolveFor supply params source height accounts
      ((Wallet.start params outside).run ops).store tally = (.ok resolved, first))
    (hsecond : resolveFor supply params source height more first.store laterTally =
      (.ok others, second)) (otherTally : Tally) :
    (∀ all once, resolveFor supply params source height more
        ((Wallet.start params outside).run ops).store otherTally = (.ok all, once) →
      once.store.SameUpToOrder second.store) ∧
    ((∃ all once, resolveFor supply params source height more
        ((Wallet.start params outside).run ops).store otherTally = (.ok all, once)) ∨
      ∃ rings, buildRings blocks = .ok rings ∧
        ∃ a ∈ rings, ∃ b ∈ rings, Collision sha256 a.serialize b.serialize) := by
  let store := ((Wallet.start params outside).run ops).store
  let part : Tracker := ⟨params, accounts⟩
  let whole : Tracker := ⟨params, more⟩
  have hpart : part.IsPartOf whole := ⟨rfl, hmore⟩
  have hsound : LoggedStore.Sound ⟨store, (Wallet.start params outside).committed ops⟩ :=
    Wallet.run_sound params outside ops
  have hfetch : Echoes (fetchGroup source params height) (fetchGroup source params height) := by
    intro other hother
    rw [hblocks.eq_of_returns hother]
    exact hblocks
  have hsteady := provider_follows supply
  -- Only the rings of the given blocks can be formed.
  have hformed : ∀ other rings, Returns (fetchGroup source params height) other →
      Returns ((provider supply).buildRings other) rings → buildRings blocks = .ok rings := by
    intro other rings hother hrings
    rw [hblocks.eq_of_returns hother] at hrings
    exact eq_ok_of_returns hrings
  constructor
  · intro all once honce
    exact hpart.resolveGroup_in_stages hsound hfirst hsteady hfetch hsecond rfl
      (fun other rings hother hrings =>
        eq_of_member_of_buildRings hnames (hformed other rings hother hrings)) honce rfl
  · by_cases hdistinct : ∀ rings, buildRings blocks = .ok rings →
      ∀ a ∈ rings, ∀ b ∈ rings, a.ringId = b.ringId → a = b
    · have hok := hpart.resolveGroup_isOk hsound hfirst hsteady hfetch hsecond rfl
        (fun other rings hother hrings => hdistinct rings (hformed other rings hother hrings))
        ⟨store, otherTally⟩ rfl
      obtain ⟨all, hall⟩ := isOk_iff.mp hok
      exact .inl ⟨all, _, Prod.ext hall rfl⟩
    · push Not at hdistinct
      obtain ⟨rings, hrings, a, ha, b, hb, hid, hne⟩ := hdistinct
      exact .inr ⟨rings, hrings, a, ha, b, hb, (CoinRing.ringId_eq_iff.mp hid).resolve_left hne⟩

/-! ### Two accounts in one ring -/

namespace SharedRing

/-- A window of one block. -/
def params : ChainParams := ⟨1, 1, 7⟩

def account (number : UInt8) : ViewAccount :=
  .seedBacked (.pseudonym (.replicate CryptoScheme.seedLength number))

/-- An output that pays to the account with a number. -/
def outputTo (number : UInt8) : Output := ⟨.pseudonym, [number], 10⟩

/-- A provider that tells the owner by the coin address. -/
def sorting : Provider Unit := { SmallRun.provider with
  detect _ data detector := return (Output.parse data).toOption.any fun output =>
    output.coinAddress == detector.take 1 }

def tx : ChainTx := ⟨.zero .transaction, 1, [], [(outputTo 1).serialize, (outputTo 2).serialize]⟩

def block : ChainBlock := ⟨0, .zero .block, none, [tx]⟩

def source : BlockSource Tally where
  fetch _ := return encodeBlock block

/-- Both accounts are watched when the coins are received. -/
def scanned : List (Operation Unit) :=
  [.register ⟨1⟩ (account 1), .register ⟨2⟩ (account 2), .scan sorting tx true block.hash 0]

def store : CoinStore := ((Wallet.start params ()).run scanned).store

/-- The first account alone. -/
def alone : OrderedMap AccountId ViewAccount := OrderedMap.empty.insert ⟨1⟩ (account 1)

/-- Both accounts. -/
def both : OrderedMap AccountId ViewAccount := alone.insert ⟨2⟩ (account 2)

theorem fetchGroup_answers : Answers (fetchGroup source params 0) [encodeBlock block] := by
  have hheights : params.groupHeights 0 = [0] := by decide +kernel
  unfold fetchGroup
  rw [hheights]
  exact fun tally => ⟨tally, rfl⟩

theorem distinctNames : DistinctNames [encodeBlock block] := by
  have hblock : [encodeBlock block].mapM decodeBlock = .ok [outputsOf block] := by decide +kernel
  intro decoded hdecoded
  rw [hblock] at hdecoded
  cases hdecoded
  decide +kernel

theorem get?_both {id : AccountId} {view : ViewAccount} (h : alone.get? id = some view) :
    both.get? id = some view := by
  have hid : id = ⟨1⟩ := by
    by_contra hne
    rw [alone, OrderedMap.get?_insert_of_ne _ (Ne.symm hne)] at h
    cases h
  subst hid
  exact (OrderedMap.get?_insert_of_ne _ (by decide) _).trans h

end SharedRing

open SharedRing in
/-- Two accounts have a coin each in the only ring of a window, and the second account is watched
only when the window is resolved again. -/
theorem shared_ring_resolved_in_stages :
    ∃ first second once,
      resolveFor countingSupply params source 0 alone store .start =
        (.ok [(⟨tx.txid, 0⟩, true)], first) ∧
      resolveFor countingSupply params source 0 both first.store .start =
        (.ok [(⟨tx.txid, 1⟩, true)], second) ∧
      resolveFor countingSupply params source 0 both store .start =
        (.ok [(⟨tx.txid, 0⟩, true), (⟨tx.txid, 1⟩, true)], once) ∧
      once.store.SameUpToOrder second.store := by
  have hruns :
      let first := resolveFor countingSupply params source 0 alone store .start
      first.1 = .ok [(⟨tx.txid, 0⟩, true)] ∧
        (resolveFor countingSupply params source 0 both first.2.store .start).1 =
          .ok [(⟨tx.txid, 1⟩, true)] ∧
        (resolveFor countingSupply params source 0 both store .start).1 =
          .ok [(⟨tx.txid, 0⟩, true), (⟨tx.txid, 1⟩, true)] := by
    decide +kernel
  obtain ⟨hfirstOk, hsecondOk, honceOk⟩ := hruns
  -- Only the results of the runs are computed; the states behind them get names.
  rcases hfirst : resolveFor countingSupply params source 0 alone store .start with ⟨_, first⟩
  rw [hfirst] at hfirstOk hsecondOk
  obtain rfl := hfirstOk
  rcases hsecond : resolveFor countingSupply params source 0 both first.store .start with
    ⟨_, second⟩
  rw [hsecond] at hsecondOk
  obtain rfl := hsecondOk
  rcases honce : resolveFor countingSupply params source 0 both store .start with ⟨_, once⟩
  rw [honce] at honceOk
  obtain rfl := honceOk
  obtain ⟨hsame, -⟩ := window_resolved_in_stages countingSupply params () scanned source 0
    fetchGroup_answers distinctNames (fun _ _ => get?_both) hfirst hsecond .start
  exact ⟨first, second, once, rfl, hsecond, rfl, hsame _ once honce⟩

end HashScheme

end RingWallet
