import RingWallet.HashScheme.Faults
import RingWallet.Proofs.HashScheme.SerialNumbers

/-!
# Serial numbers one by one and all at once

The wallet asks for the serial numbers of one coin at a time, and the scheme answers lists of any
length. Each number is made by a rule for one coin (`numberOf`), and a list is answered exactly if
the rule gives all of its numbers (`answers_serialNumbers_iff`). So a list of coins has its serial
numbers exactly if each of its coins has, and they are the numbers of the single coins in the order
of the list (`serialNumbers_one_by_one`). This holds whether the scheme makes serial numbers or
withholds them.
-/

set_option autoImplicit false

namespace RingWallet

namespace HashScheme

/-! ## A scheme that withholds serial numbers -/

/-- Without faults the scheme is as it was. -/
theorem faulty_none (supply : RandSupply) : faulty supply Faults.none = provider supply := by
  simp [faulty, Faults.none, Faults.guard, Faults.changeSerials]

/-- The scheme, with serial numbers or without. -/
def withholding (supply : RandSupply) (withheld : Bool) : Provider Tally :=
  faulty supply { Faults.none with noSerialNumbers := withheld }

theorem withholding_false (supply : RandSupply) : withholding supply false = provider supply :=
  faulty_none supply

theorem serialNumbers_withholding_true (supply : RandSupply) (coins : List CoinId)
    (context : RingContext) (key : SerialNumberKey) :
    (withholding supply true).serialNumbers coins context key =
      answer (.error .serialNumbersUnavailable) := by
  simp [withholding, faulty, Faults.none, Faults.guard]

/-! ## The rule for one coin -/

/-- The serial number of one coin for an account in a context. -/
def numberOf (withheld : Bool) (account : ViewAccount) (context : RingContext) (coin : CoinId) :
    Except Failure Bytes :=
  if withheld then .error .serialNumbersUnavailable
  else do
    let rings ← ringsOfContext context
    serialNumber rings (serialKeyOf account) coin

variable {supply : RandSupply} {withheld : Bool} {account : ViewAccount} {context : RingContext}
  {coin : CoinId} {coins : List CoinId} {number : Bytes} {numbers : List Bytes}

theorem numberOf_ne_nil (h : numberOf withheld account context coin = .ok number) :
    number ≠ [] := by
  unfold numberOf at h
  split at h
  · cases h
  · obtain ⟨rings, -, hnumber⟩ := bind_eq_ok_iff.mp h
    exact serialNumber_ne_nil hnumber

/-- For one coin at least, the scheme reads the context once and then makes number by number. -/
theorem serialNumbers_eq_ok_iff (hsome : coins ≠ []) :
    serialNumbers coins context (account.serialNumberKey coins.length) = .ok numbers ↔
      coins.mapM (numberOf false account context) = .ok numbers := by
  have hrule : numberOf false account context = fun coin =>
      ringsOfContext context >>= fun rings => serialNumber rings (serialKeyOf account) coin := rfl
  rw [serialNumbers_eq, hrule]
  cases ringsOfContext context with
  | ok rings => rfl
  | error failure =>
    -- The list fails as a whole, and the rule fails for its first coin.
    obtain ⟨first, rest, rfl⟩ := List.exists_cons_of_ne_nil hsome
    rw [List.mapM_cons]
    exact iff_of_false (fun h => nomatch h) fun h => nomatch h

/-! ## Lists of coins -/

/-- What an account gets for a list of coins, the rule gives for them. -/
theorem mapM_numberOf_of_returns
    (h : Returns (account.serialNumbers (withholding supply withheld) coins context) numbers) :
    coins.mapM (numberOf withheld account context) = .ok numbers := by
  by_cases hsome : coins = []
  · -- The scheme is not asked about no coins, so that neither the context nor a fault matters.
    subst hsome
    rw [h.eq_of_pure]
    rfl
  · cases withheld with
    | true =>
      unfold ViewAccount.serialNumbers at h
      rw [if_neg (by simpa using hsome), serialNumbers_withholding_true] at h
      obtain ⟨given, hgiven, -⟩ := h.bind
      cases eq_ok_of_returns hgiven.of_adapt
    | false =>
      rw [withholding_false] at h
      exact (serialNumbers_eq_ok_iff hsome).mp (serialNumbers_of_returns hsome h)

/-- What the rule gives for a list of coins, an account gets. -/
theorem answers_of_mapM_numberOf
    (h : coins.mapM (numberOf withheld account context) = .ok numbers) :
    Answers (account.serialNumbers (withholding supply withheld) coins context) numbers := by
  by_cases hsome : coins = []
  · subst hsome
    cases h
    exact .pure []
  · cases withheld with
    | true =>
      obtain ⟨first, rest, rfl⟩ := List.exists_cons_of_ne_nil hsome
      rw [List.mapM_cons] at h
      cases h
    | false =>
      rw [withholding_false]
      exact serialNumbers_answers supply ((serialNumbers_eq_ok_iff hsome).mpr h)

theorem answers_serialNumbers_iff :
    Answers (account.serialNumbers (withholding supply withheld) coins context) numbers ↔
      coins.mapM (numberOf withheld account context) = .ok numbers :=
  ⟨fun h => mapM_numberOf_of_returns (h.returns .start), answers_of_mapM_numberOf⟩

/-- One coin gets the one number that the rule gives for it. -/
theorem answers_singleton_iff :
    Answers (account.serialNumbers (withholding supply withheld) [coin] context) numbers ↔
      ∃ number, numberOf withheld account context coin = .ok number ∧ numbers = [number] := by
  rw [answers_serialNumbers_iff, mapM_eq_ok_iff, List.forall₂_cons_left_iff]
  simp only [List.forall₂_nil_left_iff]
  constructor
  · rintro ⟨number, _, hnumber, rfl, rfl⟩
    exact ⟨number, hnumber, rfl⟩
  · rintro ⟨number, hnumber, rfl⟩
    exact ⟨number, [], hnumber, rfl, rfl⟩

/-- Serial numbers of a list of coins are those of its coins. Whatever the account, the coins and
the context, and whether or not serial numbers are withheld: a list of coins has serial numbers
exactly if each of its coins alone has, and otherwise asking for them fails. The numbers of the list
are those of the single coins in its order, one for each, and none is empty. No coins have no
numbers, even in a context that cannot be read. -/
theorem serialNumbers_one_by_one (supply : RandSupply) (withheld : Bool) (account : ViewAccount)
    (coins : List CoinId) (context : RingContext) :
    ((∃ numbers, Answers (account.serialNumbers (withholding supply withheld) coins context)
        numbers) ↔
      ∀ coin ∈ coins, ∃ numbers,
        Answers (account.serialNumbers (withholding supply withheld) [coin] context) numbers) ∧
    ((∃ numbers, Answers (account.serialNumbers (withholding supply withheld) coins context)
        numbers) ∨
      Fails (account.serialNumbers (withholding supply withheld) coins context)) ∧
    (∀ numbers,
      Answers (account.serialNumbers (withholding supply withheld) coins context) numbers ↔
        List.Forall₂ (fun coin number => number ≠ [] ∧
          Answers (account.serialNumbers (withholding supply withheld) [coin] context) [number])
          coins numbers) ∧
    Answers (account.serialNumbers (withholding supply withheld) [] context) [] := by
  refine ⟨?_, ?_, fun numbers => ?_, .pure []⟩
  · rw [exists_congr fun _ => answers_serialNumbers_iff, exists_mapM_eq_ok_iff]
    refine forall₂_congr fun coin _ => ?_
    simp only [answers_singleton_iff]
    constructor
    · rintro ⟨number, hnumber⟩
      exact ⟨[number], number, hnumber, rfl⟩
    · rintro ⟨_, number, hnumber, rfl⟩
      exact ⟨number, hnumber⟩
  · by_cases hgiven : ∃ numbers, coins.mapM (numberOf withheld account context) = .ok numbers
    · obtain ⟨numbers, hnumbers⟩ := hgiven
      exact .inl ⟨numbers, answers_of_mapM_numberOf hnumbers⟩
    · refine .inr (Fails.of_not_returns fun numbers hreturns => hgiven ⟨numbers, ?_⟩)
      exact mapM_numberOf_of_returns hreturns
  · have hsingle : ∀ coin number, numberOf withheld account context coin = .ok number ↔
        number ≠ [] ∧
          Answers (account.serialNumbers (withholding supply withheld) [coin] context)
            [number] := by
      intro coin number
      rw [answers_singleton_iff]
      constructor
      · intro hnumber
        exact ⟨numberOf_ne_nil hnumber, number, hnumber, rfl⟩
      · rintro ⟨-, _, hnumber, hsame⟩
        cases hsame
        exact hnumber
    rw [answers_serialNumbers_iff, mapM_eq_ok_iff]
    simp only [hsingle]

end HashScheme

end RingWallet
