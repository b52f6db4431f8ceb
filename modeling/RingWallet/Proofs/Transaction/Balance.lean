import RingWallet.Proofs.Except
import RingWallet.Proofs.Transaction.WireOrder

/-!
# Checked totals

Amounts are added up in words, one after the other, and a sum that wraps ends the addition. So a
total is reached exactly if the sum of the amounts as natural numbers fits a word, and it is that
sum (`checkedTotal_eq_ok_iff`). A plan therefore passes its checks exactly if it has inputs and outputs
and balances as natural numbers do (`TxPlan.check_eq_ok_iff`). The order of its entries does not
matter for that (`TxPlan.Balanced.of_perm`).
-/

set_option autoImplicit false

namespace RingWallet

/-! ## Words and natural numbers -/

/-- The sum of amounts, however large. -/
def total (values : List UInt64) : Nat := values.foldr (fun value sum => value.toNat + sum) 0

theorem total_nil : total [] = 0 := rfl

theorem total_cons (value : UInt64) (rest : List UInt64) :
    total (value :: rest) = value.toNat + total rest := rfl

theorem total_perm {values others : List UInt64} (h : values.Perm others) :
    total values = total others := by
  induction h with
  | nil => rfl
  | cons value _ ih => rw [total_cons, total_cons, ih]
  | swap a b rest => simp only [total_cons]; omega
  | trans _ _ ih ih' => rw [ih, ih']

/-- A sum of two amounts is exact, or there is none. -/
theorem checkedAdd_eq_some_iff {a b sum : UInt64} :
    checkedAdd a b = some sum ↔ a.toNat + b.toNat = sum.toNat := by
  have ha := a.toNat_lt
  have hb := b.toNat_lt
  have hsum := sum.toNat_lt
  have hword : (a + b).toNat = (a.toNat + b.toNat) % 2 ^ 64 := UInt64.toNat_add a b
  unfold checkedAdd
  split
  · -- A sum that does not fit has lost a whole word.
    rename_i hwraps
    rw [UInt64.lt_iff_toNat_lt] at hwraps
    simp only [reduceCtorEq, false_iff]
    omega
  · rename_i hfits
    rw [UInt64.lt_iff_toNat_lt] at hfits
    rw [Option.some.injEq]
    constructor
    · rintro rfl
      omega
    · intro h
      apply UInt64.toNat.inj
      omega

theorem foldlM_checkedAdd_eq_some_iff {values : List UInt64} {start sum : UInt64} :
    values.foldlM checkedAdd start = some sum ↔ start.toNat + total values = sum.toNat := by
  induction values generalizing start with
  | nil =>
    change some start = some sum ↔ start.toNat + 0 = sum.toNat
    rw [Option.some.injEq, Nat.add_zero, UInt64.toNat_inj]
  | cons value rest ih =>
    rw [List.foldlM_cons, Option.bind_eq_bind, Option.bind_eq_some_iff, total_cons]
    constructor
    · rintro ⟨between, hadd, hrest⟩
      rw [ih] at hrest
      rw [checkedAdd_eq_some_iff] at hadd
      omega
    · intro h
      -- The sum so far is not above the whole sum, so it fits a word.
      have hlt : start.toNat + value.toNat < UInt64.size := by
        have := sum.toNat_lt
        simp only [UInt64.size]
        omega
      have hbetween : (UInt64.ofNat (start.toNat + value.toNat)).toNat =
          start.toNat + value.toNat := UInt64.toNat_ofNat_of_lt' hlt
      refine ⟨UInt64.ofNat (start.toNat + value.toNat), ?_, ?_⟩
      · rw [checkedAdd_eq_some_iff, hbetween]
      · rw [ih, hbetween]
        omega

/-- From zero on, amounts are added up to their exact sum. -/
theorem foldlM_checkedAdd_zero_eq_some_iff {values : List UInt64} {sum : UInt64} :
    values.foldlM checkedAdd 0 = some sum ↔ total values = sum.toNat := by
  rw [foldlM_checkedAdd_eq_some_iff, UInt64.toNat_zero, Nat.zero_add]

/-- Only a sum that does not fit a word is missing. -/
theorem foldlM_checkedAdd_zero_eq_none_iff {values : List UInt64} :
    values.foldlM checkedAdd 0 = none ↔ UInt64.size ≤ total values := by
  constructor
  · intro hnone
    by_contra hfits
    have hsum : values.foldlM checkedAdd 0 = some (.ofNat (total values)) := by
      rw [foldlM_checkedAdd_zero_eq_some_iff, UInt64.toNat_ofNat_of_lt' (Nat.lt_of_not_le hfits)]
    rw [hnone] at hsum
    cases hsum
  · intro hlarge
    cases hsum : values.foldlM checkedAdd 0 with
    | none => rfl
    | some sum =>
      rw [foldlM_checkedAdd_zero_eq_some_iff.mp hsum] at hlarge
      exact absurd sum.toNat_lt (Nat.not_lt_of_le hlarge)

/-- A total is the exact sum of the amounts; it is missing exactly if that does not fit a word. -/
theorem checkedTotal_eq_ok_iff {side : TransferSide} {values : List UInt64} {sum : UInt64} :
    checkedTotal side values = .ok sum ↔ total values = sum.toNat := by
  rw [← foldlM_checkedAdd_zero_eq_some_iff, checkedTotal]
  cases values.foldlM checkedAdd 0 <;> simp

/-! ## Plans that balance -/

namespace TxPlan

/-- There are inputs and outputs, and the inputs make up for outputs and fee in a sum that fits a
word. -/
structure Balanced (plan : TxPlan) : Prop where
  inputs_ne : plan.inputs ≠ []
  outputs_ne : plan.outputs ≠ []
  total_eq : total (plan.inputs.map (·.value)) =
    total (plan.outputs.map (·.value)) + plan.fee.toNat
  total_lt : total (plan.inputs.map (·.value)) < UInt64.size

/-- With inputs and outputs, only the three totals decide. -/
theorem check_eq_of_ne (plan : TxPlan) (hinputs : plan.inputs ≠ []) (houtputs : plan.outputs ≠ []) :
    plan.check = (do
      let outputs ← plan.outputTotal
      let required ← checkedTotal .output [outputs, plan.fee]
      let available ← plan.inputTotal
      unless available = required do
        throw (.invalidParameter (.unbalanced available required))) := by
  unfold check
  rw [if_neg (by simpa using hinputs)]
  exact if_neg (by simpa using houtputs)

/-- The totals of both sides and the sum with the fee are reached and agree exactly if the amounts
balance as natural numbers. -/
theorem check_eq_ok_iff_of_ne (plan : TxPlan) (hinputs : plan.inputs ≠ [])
    (houtputs : plan.outputs ≠ []) :
    plan.check = .ok () ↔
      total (plan.inputs.map (·.value)) = total (plan.outputs.map (·.value)) + plan.fee.toNat ∧
      total (plan.inputs.map (·.value)) < UInt64.size := by
  rw [check_eq_of_ne plan hinputs houtputs]
  constructor
  · intro h
    obtain ⟨outputs, houtputs, h⟩ := bind_eq_ok_iff.mp h
    obtain ⟨required, hrequired, h⟩ := bind_eq_ok_iff.mp h
    obtain ⟨available, havailable, h⟩ := bind_eq_ok_iff.mp h
    have houtputs := checkedTotal_eq_ok_iff.mp houtputs
    have hrequired := checkedTotal_eq_ok_iff.mp hrequired
    have havailable := checkedTotal_eq_ok_iff.mp havailable
    split at h
    · rename_i heq
      subst heq
      rw [total_cons, total_cons, total_nil] at hrequired
      have hword := available.toNat_lt
      simp only [UInt64.size]
      omega
    · cases h
  · rintro ⟨heq, hlt⟩
    -- Each of the three totals is at most the sum of the inputs, so none of them overflows.
    have hfits : ∀ sum, sum ≤ total (plan.inputs.map (·.value)) →
        (UInt64.ofNat sum).toNat = sum := fun sum hsum =>
      UInt64.toNat_ofNat_of_lt' (Nat.lt_of_le_of_lt hsum hlt)
    have houtputs : plan.outputTotal = .ok (.ofNat (total (plan.outputs.map (·.value)))) := by
      apply checkedTotal_eq_ok_iff.mpr
      rw [hfits _ (by omega)]
    have havailable : plan.inputTotal = .ok (.ofNat (total (plan.inputs.map (·.value)))) := by
      apply checkedTotal_eq_ok_iff.mpr
      rw [hfits _ (Nat.le_refl _)]
    have hrequired : checkedTotal .output
        [.ofNat (total (plan.outputs.map (·.value))), plan.fee] =
          .ok (.ofNat (total (plan.inputs.map (·.value)))) := by
      apply checkedTotal_eq_ok_iff.mpr
      rw [hfits _ (Nat.le_refl _), total_cons, total_cons, total_nil, hfits _ (by omega), heq]
      rfl
    rw [houtputs, havailable]
    change (checkedTotal .output _ >>= _) = _
    rw [hrequired]
    exact if_pos rfl

theorem check_eq_ok_iff (plan : TxPlan) : plan.check = .ok () ↔ plan.Balanced := by
  by_cases hinputs : plan.inputs = []
  · have hcheck : plan.check = .error (.invalidParameter (.emptySide .input)) := by
      unfold check
      rw [if_pos (by simp [hinputs])]
      rfl
    rw [hcheck]
    exact iff_of_false (by simp) fun h => h.inputs_ne hinputs
  by_cases houtputs : plan.outputs = []
  · have hcheck : plan.check = .error (.invalidParameter (.emptySide .output)) := by
      unfold check
      rw [if_neg (by simpa using hinputs), if_pos (by simp [houtputs])]
      rfl
    rw [hcheck]
    exact iff_of_false (by simp) fun h => h.outputs_ne houtputs
  rw [check_eq_ok_iff_of_ne plan hinputs houtputs]
  exact ⟨fun ⟨heq, hlt⟩ => ⟨hinputs, houtputs, heq, hlt⟩, fun h => ⟨h.total_eq, h.total_lt⟩⟩

theorem Balanced.of_perm {plan other : TxPlan} (h : plan.Balanced)
    (hinputs : plan.inputs.Perm other.inputs) (houtputs : plan.outputs.Perm other.outputs)
    (hfee : plan.fee = other.fee) : other.Balanced := by
  have hin := total_perm (hinputs.map (·.value))
  have hout := total_perm (houtputs.map (·.value))
  refine ⟨fun hnone => h.inputs_ne ?_, fun hnone => h.outputs_ne ?_, ?_, ?_⟩
  · rw [hnone] at hinputs
    exact hinputs.eq_nil
  · rw [hnone] at houtputs
    exact houtputs.eq_nil
  · rw [← hin, ← hout, ← hfee]
    exact h.total_eq
  · rw [← hin]
    exact h.total_lt

end TxPlan

end RingWallet
