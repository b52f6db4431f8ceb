import RingWallet.Proofs.Keyed
import RingWallet.Proofs.Tracker.Run

/-!
# Usable coins have their rings

In every state of a run, what is known about a coin's ring is known completely and can be used: the
ring is stored, it lists the coin at the coin's place, and the coin is found once by its serial
number. A coin that is or was spendable has all of it.

The store keeps one ring for each identifier, so the ring that a coin was linked to is the stored
one only if no two different committed rings have one identifier. That is the only assumption; the
provider's rings may overlap, may miss coins and may come from anywhere.
-/

set_option autoImplicit false

namespace RingWallet

namespace CoinStore

variable {committed : List CoinRing}

/-- A coin is found by its serial number, and found once. -/
theorem bySerial_filter_eq_singleton {store : CoinStore}
    (h : LoggedStore.Sound ⟨store, committed⟩) {coin : Coin} {serialNumber : Bytes}
    (hcoin : store.coin? coin.id = some coin) (hserial : coin.serialNumber? = some serialNumber) :
    (store.bySerial serialNumber).filter (fun other => decide (other.id = coin.id)) = [coin] := by
  have hcurrent := current_bySerial h serialNumber
  apply filter_key_eq_singleton Coin.id hcurrent.nodup
  rw [bySerial_eq, List.mem_filterMap]
  exact ⟨coin.id, (h.mem_holders_iff serialNumber coin.id).mpr ⟨coin, hcoin, hserial⟩, hcoin⟩

end CoinStore

/-- The ring that a linked coin was linked to is stored, if identifiers tell rings apart. -/
theorem LoggedStore.Sound.ring?_of_mem {log : LoggedStore} (h : log.Sound)
    (hdistinct : ∀ a ∈ log.committed, ∀ b ∈ log.committed, a.ringId = b.ringId → a = b)
    {ring : CoinRing} (hring : ring ∈ log.committed) :
    log.store.ring? ring.ringId = some ring := by
  obtain ⟨stored, hstored⟩ := Option.isSome_iff_exists.mp (h.ring_isSome ring hring)
  obtain ⟨hmem, hid⟩ := h.of_ring hstored
  rw [hstored, hdistinct stored hmem ring hring hid]

/-- A coin of which nothing is known but that it was received. -/
def Coin.IsUnlinked (coin : Coin) : Prop :=
  coin.ringId? = none ∧ coin.ringIndex? = none ∧ coin.serialNumber? = none

/-- A coin with a stored ring that lists it at its place, and with a usable serial number by which
it is found once. -/
def Coin.IsLinkedIn (coin : Coin) (store : CoinStore) : Prop :=
  ∃ ring index serialNumber,
    coin.ringId? = some ring.ringId ∧ coin.ringIndex? = some index ∧
      coin.serialNumber? = some serialNumber ∧
    store.ring? ring.ringId = some ring ∧ ring.indexOf? coin.id = some index ∧
    serialNumber ≠ [] ∧
    (store.bySerial serialNumber).filter (fun other => decide (other.id = coin.id)) = [coin]

namespace Wallet

variable {σ : Type}

/-- Every coin of a run is unlinked or completely linked, and it is linked if it can be spent or was
spent. -/
theorem coin_linkage (params : ChainParams) (outside : σ) (ops : List (Operation σ))
    (hdistinct : ∀ a ∈ (start params outside).committed ops,
      ∀ b ∈ (start params outside).committed ops, a.ringId = b.ringId → a = b)
    {id : CoinId} {coin : Coin}
    (hcoin : ((start params outside).run ops).store.coin? id = some coin) :
    coin.id = id ∧
      (coin.IsUnlinked ∨ coin.IsLinkedIn ((start params outside).run ops).store) ∧
      (coin.status = .spendable ∨ coin.status = .spent ∨ coin.status = .confirmed →
        coin.IsLinkedIn ((start params outside).run ops).store) := by
  have hsound := run_sound params outside ops
  have hid : coin.id = id := hsound.id_eq hcoin
  subst hid
  refine ⟨rfl, ?_⟩
  cases hsound.link hcoin with
  | unlinked hringId hringIndex hserial hstatus =>
    refine ⟨.inl ⟨hringId, hringIndex, hserial⟩, fun h => ?_⟩
    -- A coin without a ring is immature.
    rw [hstatus] at h
    rcases h with h | h | h <;> cases h
  | @linked ring index serialNumber hring hringId hringIndex hplace hserial hne _ =>
    have hlinked : coin.IsLinkedIn ((start params outside).run ops).store :=
      ⟨ring, index, serialNumber, hringId, hringIndex, hserial,
        hsound.ring?_of_mem hdistinct hring, hplace, hne,
        CoinStore.bySerial_filter_eq_singleton hsound hcoin hserial⟩
    exact ⟨.inr hlinked, fun _ => hlinked⟩

/-- The only coin of the small run, behind the block that shows its serial number. -/
theorem small_run_coin_linkage :
    ∃ coin, ((start SmallRun.params ()).run SmallRun.whole).store.coin? SmallRun.coinName =
        some coin ∧
      coin.status = .spendable ∧
      coin.IsLinkedIn ((start SmallRun.params ()).run SmallRun.whole).store := by
  have hcoin : ((start SmallRun.params ()).run SmallRun.whole).store.coin? SmallRun.coinName =
      some { SmallRun.coin with status := .spendable } := by decide +kernel
  have hdistinct : ∀ a ∈ (start SmallRun.params ()).committed SmallRun.whole,
      ∀ b ∈ (start SmallRun.params ()).committed SmallRun.whole, a.ringId = b.ringId → a = b := by
    decide +kernel
  exact ⟨_, hcoin, rfl,
    (coin_linkage SmallRun.params () SmallRun.whole hdistinct hcoin).2.2 (.inl rfl)⟩

end Wallet

end RingWallet
