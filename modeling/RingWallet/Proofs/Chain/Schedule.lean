import RingWallet.Proofs.Chain.Built
import RingWallet.Proofs.Store.Effect

/-!
# When coins are linked and can be spent

A coin is due at the end of the window of its height, and a coinbase coin also not before its depth
(`ChainParams.dueAt`). A coin is on time below a height if it is linked exactly if the window of its
height has ended below it, and spendable exactly if it is due below it (`Coin.OnTime`).

A block ages each coin: a pending coin is linked if the block ends the window of its height, and a
linked coinbase coin ripens (`Coin.Aged`). Coins that are on time stay on time when they age
(`Aged.onTime`).
-/

set_option autoImplicit false

namespace RingWallet

/-- The height behind which a coin of a given height can be spent. -/
def ChainParams.dueAt (params : ChainParams) (isCoinbase : Bool) (height : Nat) : Nat :=
  if isCoinbase then max (params.windowEnd height) (height + params.coinbaseMaturity.toNat)
  else params.windowEnd height

theorem ChainParams.windowEnd_le_dueAt (params : ChainParams) (isCoinbase : Bool) (height : Nat) :
    params.windowEnd height ≤ params.dueAt isCoinbase height := by
  unfold dueAt
  split
  · exact Nat.le_max_left _ _
  · exact Nat.le_refl _

namespace Coin

variable {params : ChainParams} {place : Nat} {coin later : Coin}

/-- The coin is as the heights below a bound make it, if nobody spends it. -/
structure OnTime (params : ChainParams) (bound : Nat) (coin : Coin) : Prop where
  linked_iff : coin.ringId? ≠ none ↔ params.windowEnd coin.height.toNat < bound
  status_eq : coin.status =
    if params.dueAt coin.isCoinbase coin.height.toNat < bound then .spendable else .immature

/-- A coin is on time when it is received. -/
theorem IsFresh.onTime (h : coin.IsFresh) (hheight : place ≤ coin.height.toNat) :
    coin.OnTime params place := by
  have hend := params.le_windowEnd coin.height.toNat
  have hdue := params.windowEnd_le_dueAt coin.isCoinbase coin.height.toNat
  constructor
  · rw [h.ringId_eq]
    exact ⟨fun hne => absurd rfl hne, fun hlt => by omega⟩
  · rw [h.status_eq, if_neg (by omega)]

/-- A coin without a ring waits for the block at a place, which ends the window of its height. -/
structure Pends (params : ChainParams) (place : Nat) (coin : Coin) : Prop where
  status_eq : coin.status = .immature
  ringId_eq : coin.ringId? = none
  windowEnd_eq : params.windowEnd coin.height.toNat = place

/-- What the block at a place does to a coin that its inputs do not show. -/
inductive Aged (params : ChainParams) (place : Nat) (coin : Coin) : Coin → Prop where
  | linked (resolution : RingResolution) (hpends : coin.Pends params place)
      (hspendable : resolution.makeSpendable = !coin.isCoinbase)
      (hserial : resolution.serialNumber ≠ []) :
      Aged params place coin ((coin.linked resolution).ripened params (UInt64.ofNat place))
  | kept (hpends : ¬ coin.Pends params place)
      (hresolved : coin.isResolved = true ↔ coin.ringId? ≠ none) :
      Aged params place coin (coin.ripened params (UInt64.ofNat place))

@[simp] theorem ringId?_ripened (params : ChainParams) (height : UInt64) (coin : Coin) :
    (coin.ripened params height).ringId? = coin.ringId? := by
  obtain ⟨status, h⟩ := exists_ripened_eq params height coin
  rw [h]

@[simp] theorem height_ripened (params : ChainParams) (height : UInt64) (coin : Coin) :
    (coin.ripened params height).height = coin.height := by
  obtain ⟨status, h⟩ := exists_ripened_eq params height coin
  rw [h]

@[simp] theorem isCoinbase_ripened (params : ChainParams) (height : UInt64) (coin : Coin) :
    (coin.ripened params height).isCoinbase = coin.isCoinbase := by
  obtain ⟨status, h⟩ := exists_ripened_eq params height coin
  rw [h]

/-- The status of a coin behind a place. -/
theorem status_ripened (hplace : place < UInt64.size) :
    (coin.ripened params (UInt64.ofNat place)).status =
      if coin.status = .immature ∧ coin.isCoinbase = true ∧ coin.isResolved = true ∧
        coin.height.toNat + params.coinbaseMaturity.toNat ≤ place then .spendable
      else coin.status := by
  have hdeep := params.isDeep_iff coin.height (UInt64.ofNat place)
  rw [UInt64.toNat_ofNat_of_lt' hplace] at hdeep
  unfold ripened
  simp only [hdeep]
  split <;> rfl

/-- A coin that was not linked is on time behind the end of its window. -/
theorem OnTime.linked (hplace : place < UInt64.size) (hpends : coin.Pends params place)
    {resolution : RingResolution} (hspendable : resolution.makeSpendable = !coin.isCoinbase)
    (hserial : resolution.serialNumber ≠ []) :
    ((coin.linked resolution).ripened params (UInt64.ofNat place)).OnTime params (place + 1) := by
  have hend := hpends.windowEnd_eq
  constructor
  · rw [ringId?_ripened, height_ripened]
    refine ⟨fun _ => ?_, fun _ => ?_⟩
    · change params.windowEnd coin.height.toNat < place + 1
      omega
    · exact Option.some_ne_none _
  · have hresolved : (coin.linked resolution).isResolved = true := by
      simp [Coin.linked, isResolved, hserial]
    rw [status_ripened hplace, height_ripened, isCoinbase_ripened, hresolved]
    simp only [Coin.linked, hspendable, hpends.status_eq, ChainParams.dueAt, hend]
    cases coin.isCoinbase with
    | true =>
      -- The window ends here, so the depth alone decides.
      simp only [Bool.not_true, Bool.false_eq_true, if_false, if_true, true_and]
      refine if_congr ?_ rfl rfl
      omega
    | false => simp

/-- A coin that the end of its window passes over, or that has another window, stays on time. -/
theorem OnTime.kept (h : coin.OnTime params place) (hplace : place < UInt64.size)
    (hpends : ¬ coin.Pends params place) (hresolved : coin.isResolved = true ↔ coin.ringId? ≠ none) :
    (coin.ripened params (UInt64.ofNat place)).OnTime params (place + 1) := by
  have hdue := params.windowEnd_le_dueAt coin.isCoinbase coin.height.toNat
  -- A coin on time whose window ends here would be pending, so the window ends elsewhere.
  have hend : params.windowEnd coin.height.toNat ≠ place := by
    intro hend
    refine hpends ⟨?_, ?_, hend⟩
    · rw [h.status_eq, if_neg (by omega)]
    · by_contra hlinked
      have hbelow := h.linked_iff.mp hlinked
      omega
  constructor
  · rw [ringId?_ripened, height_ripened, h.linked_iff]
    omega
  · simp only [status_ripened hplace, height_ripened, isCoinbase_ripened,
      hresolved.trans h.linked_iff, h.status_eq]
    unfold ChainParams.dueAt at hdue ⊢
    cases coin.isCoinbase with
    | true =>
      simp only [if_true, true_and] at hdue ⊢
      -- Either the coin was due before, or it becomes due with this block or stays as it is.
      by_cases hbefore : max (params.windowEnd coin.height.toNat)
          (coin.height.toNat + params.coinbaseMaturity.toNat) < place
      · rw [if_pos hbefore, if_pos (Nat.lt_succ_of_lt hbefore)]
        exact ite_self _
      · rw [if_neg hbefore]
        refine if_congr ⟨fun hripe => ?_, fun hdueNow => ⟨rfl, ?_, ?_⟩⟩ rfl rfl <;> omega
    | false =>
      simp only [Bool.false_eq_true, if_false, false_and, and_false]
      refine if_congr ?_ rfl rfl
      omega

/-- A block keeps coins on time. -/
theorem Aged.onTime (haged : coin.Aged params place later) (h : coin.OnTime params place)
    (hplace : place < UInt64.size) : later.OnTime params (place + 1) := by
  cases haged with
  | linked resolution hpends hspendable hserial => exact .linked hplace hpends hspendable hserial
  | kept hpends hresolved => exact h.kept hplace hpends hresolved

end Coin

end RingWallet
