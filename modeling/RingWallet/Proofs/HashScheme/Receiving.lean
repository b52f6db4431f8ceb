import RingWallet.Proofs.HashScheme.Accounts
import RingWallet.Proofs.Scheme

/-!
# What an account receives

The scheme reads an output from its written form and from no other bytes (`Output.parse_eq_ok_iff`).
An output belongs to an account if it has the account's level and the account finds its coin
address: a root seed by its detector key, a key-backed account by comparing it with its own.

An account asked for any bytes therefore fails exactly if they are no output, answers the value if
the output belongs to it, and answers that there is nothing for it in every other case
(`receive_exact`).
-/

set_option autoImplicit false

namespace RingWallet

/-- A root seed's view is never of the legacy level. -/
theorem SeedView.level_ne_ringCtPre (view : SeedView) : view.level ≠ .ringCtPre := by
  cases view <;> simp [level]

namespace HashScheme

/-! ## Outputs and their written form -/

namespace Output

/-- The bytes are the written form of an output: its level's byte, the length of its coin address
in four bytes, the coin address and the value in eight bytes. -/
def WrittenAs (output : Output) (data : Bytes) : Prop :=
  output.coinAddress.length < UInt32.size ∧ data = output.serialize

/-- Bytes behind a level that are as long as the length in front of them says are the length, a coin
address of this length and a value. -/
theorem fields_eq {behind : Bytes} {length : Nat} (hlength : Bytes.toNatLE (behind.take 4) = length)
    (htotal : behind.length = 4 + length + 8) :
    length < UInt32.size ∧ ((behind.drop 4).take length).length = length ∧
      Bytes.ofNatLE 4 length ++ (behind.drop 4).take length ++
        Bytes.ofUInt64 (UInt64.ofNat (Bytes.toNatLE (behind.drop (4 + length)))) = behind := by
  have hfour : (behind.take 4).length = 4 := List.length_take_of_le (by omega)
  have height : (behind.drop (4 + length)).length = 8 := by
    rw [List.length_drop]
    omega
  -- Four and eight bytes are the digits of the numbers that are read from them.
  have hdigits := Bytes.ofNatLE_toNatLE (behind.take 4)
  have hvalue := Bytes.ofNatLE_toNatLE (behind.drop (4 + length))
  have hfits := Bytes.toNatLE_lt (behind.take 4)
  have hword := Bytes.toNatLE_lt (behind.drop (4 + length))
  rw [hfour, hlength] at hdigits hfits
  rw [height] at hvalue hword
  refine ⟨hfits, ?_, ?_⟩
  · apply List.length_take_of_le
    rw [List.length_drop]
    omega
  · rw [hdigits, Bytes.ofUInt64, UInt64.toNat_ofNat_of_lt' hword, hvalue, List.append_assoc,
      ← List.drop_drop, List.take_append_drop, List.take_append_drop]

/-- An output is read from its written form and from no other bytes. -/
theorem parse_eq_ok_iff {data : Bytes} {output : Output} :
    parse data = .ok output ↔ output.WrittenAs data := by
  constructor
  · intro h
    cases data with
    | nil => cases h
    | cons code behind =>
      simp only [parse] at h
      split at h
      · cases h
      · rename_i level hlevel
        split at h
        · rename_i htotal
          cases h
          obtain ⟨hfits, hcoin, hfields⟩ := fields_eq rfl htotal
          refine ⟨by rw [hcoin]; exact hfits, ?_⟩
          rw [serialize, hcoin, hfields, PrivacyLevel.ofCode?_eq_some_iff.mp hlevel]
        · cases h
  · rintro ⟨hfits, rfl⟩
    exact parse_serialize hfits

/-- Bytes are the written form of one output at most. -/
theorem WrittenAs.unique {output other : Output} {data : Bytes} (h : output.WrittenAs data)
    (hother : other.WrittenAs data) : output = other := by
  have hparse := parse_eq_ok_iff.mpr h
  rw [parse_eq_ok_iff.mpr hother] at hparse
  exact (Except.ok.inj hparse).symm

/-- The output belongs to the account: it has the account's level, and its coin address is one that
the detector key of a root seed finds, or the own one of a key-backed account. -/
def BelongsTo (output : Output) (account : ViewAccount) : Prop :=
  output.level = account.level ∧
    match account with
    | .seedBacked view => Finds view.detector output.coinAddress
    | .keyBacked view => output.coinAddress = view.address.coin.bytes

end Output

/-! ## The answer of an account -/

/-- An output has its value for the accounts that it belongs to. -/
theorem valueFor_eq_some_iff {account : ViewAccount} {output : Output} {value : UInt64} :
    valueFor account output = some value ↔ output.BelongsTo account ∧ output.value = value := by
  unfold valueFor Output.BelongsTo
  by_cases hlevel : output.level = account.level
  · rw [if_neg (not_not_intro hlevel)]
    cases account with
    | seedBacked view =>
      -- Only legacy outputs are never detected, and they are not of the account's level.
      have hne : output.level ≠ .ringCtPre := hlevel.trans_ne view.level_ne_ringCtPre
      have hdetects : detects output view.detector.toList = true ↔
          Finds view.detector output.coinAddress := by
        rw [detects, bne_iff_ne.mpr hne, Bool.true_and, detectsCoin_iff]
      simp [hlevel, hdetects]
    | keyBacked view => simp [hlevel]
  · simp [hlevel]

theorem valueFor_eq_none_iff {account : ViewAccount} {output : Output} :
    valueFor account output = none ↔ ¬ output.BelongsTo account := by
  rw [Option.eq_none_iff_forall_ne_some]
  constructor
  · intro hnone hbelongs
    exact hnone output.value (valueFor_eq_some_iff.mpr ⟨hbelongs, rfl⟩)
  · intro hother value hvalue
    exact hother (valueFor_eq_some_iff.mp hvalue).1

section

variable {supply : RandSupply} {account : ViewAccount} {txVersion : UInt32} {data : Bytes}

/-- Only bytes that are an output get an answer, as the level is asked for first. -/
theorem exists_writtenAs_of_returns {answer : Option UInt64}
    (h : Returns (account.receive (provider supply) txVersion data) answer) :
    ∃ output : Output, output.WrittenAs data := by
  unfold ViewAccount.receive at h
  obtain ⟨level, hlevel, -⟩ := h.bind
  obtain ⟨output, houtput, -⟩ := map_eq_ok_iff.mp (eq_ok_of_returns hlevel.of_adapt)
  exact ⟨output, Output.parse_eq_ok_iff.mp houtput⟩

theorem Output.WrittenAs.receive_answers {output : Output} (h : output.WrittenAs data)
    (haccount : IsReadable supply account) (txVersion : UInt32) :
    Answers (account.receive (provider supply) txVersion data) (valueFor account output) := by
  obtain ⟨hfits, rfl⟩ := h
  exact HashScheme.receive_answers supply haccount hfits txVersion

/-- Whatever an account can answer, it answers from every state: what the output is worth to it. -/
theorem returns_receive_iff (haccount : IsReadable supply account) {answer : Option UInt64} :
    Returns (account.receive (provider supply) txVersion data) answer ↔
      ∃ output : Output, output.WrittenAs data ∧ valueFor account output = answer := by
  constructor
  · intro h
    obtain ⟨output, hwritten⟩ := exists_writtenAs_of_returns h
    exact ⟨output, hwritten, ((hwritten.receive_answers haccount txVersion).eq_of_returns h).symm⟩
  · rintro ⟨output, hwritten, rfl⟩
    exact (hwritten.receive_answers haccount txVersion).returns .start

theorem answers_receive_iff (haccount : IsReadable supply account) {answer : Option UInt64} :
    Answers (account.receive (provider supply) txVersion data) answer ↔
      ∃ output : Output, output.WrittenAs data ∧ valueFor account output = answer := by
  constructor
  · intro h
    exact (returns_receive_iff haccount).mp (h.returns .start)
  · rintro ⟨output, hwritten, rfl⟩
    exact hwritten.receive_answers haccount txVersion

end

/-- Receiving never confuses "not mine" with "cannot tell". Whatever bytes an account is asked for,
with any transaction version, it fails exactly if they are not the written form of an output. It
answers a value exactly if they are one of an output that belongs to it and has this value, and it
answers that there is nothing for it exactly if they are one of an output that does not belong to
it. -/
theorem receive_exact (supply : RandSupply) {account : ViewAccount}
    (haccount : IsReadable supply account) (txVersion : UInt32) (data : Bytes) :
    (Fails (account.receive (provider supply) txVersion data) ↔
      ¬ ∃ output : Output, output.WrittenAs data) ∧
    (∀ value, Answers (account.receive (provider supply) txVersion data) (some value) ↔
      ∃ output : Output, output.WrittenAs data ∧ output.BelongsTo account ∧
        output.value = value) ∧
    (Answers (account.receive (provider supply) txVersion data) none ↔
      ∃ output : Output, output.WrittenAs data ∧ ¬ output.BelongsTo account) := by
  refine ⟨⟨?_, ?_⟩, fun value => ?_, ?_⟩
  · -- A written output is answered from the start already, whoever it belongs to.
    rintro hfails ⟨output, hwritten⟩
    obtain ⟨after, hanswer⟩ := hwritten.receive_answers haccount txVersion .start
    obtain ⟨e, other, hfailed⟩ := hfails .start
    rw [hanswer] at hfailed
    cases hfailed
  · intro hnone
    apply Fails.of_not_returns
    intro answer hreturns
    exact hnone (exists_writtenAs_of_returns hreturns)
  · simp only [answers_receive_iff haccount, valueFor_eq_some_iff]
  · simp only [answers_receive_iff haccount, valueFor_eq_none_iff]

/-- A one-time seed of the legacy scheme. -/
def legacySeed : OneTimeSeed := ⟨.legacy (.replicate 64 1) (.replicate 64 2), none, rfl⟩

/-- The account of a legacy seed fails for no bytes at all, receives what is paid to its address and
has nothing in an output to that address of another level. -/
theorem legacy_receive_exact :
    Fails ((accountOf (.oneTime legacySeed)).view.receive (provider countingSupply) 1 []) ∧
    Answers ((accountOf (.oneTime legacySeed)).view.receive (provider countingSupply) 1
      (paidTo (keyViewOf legacySeed).address 5).serialize) (some 5) ∧
    Answers ((accountOf (.oneTime legacySeed)).view.receive (provider countingSupply) 1
      (Output.mk .ringCt (keyViewOf legacySeed).address.coin.bytes 5).serialize) none := by
  have hreadable := isReadable_view countingSupply (.oneTime legacySeed)
  have hfits : (keyViewOf legacySeed).address.coin.bytes.length < UInt32.size :=
    length_paidTo (keyViewOf legacySeed).address 5
  refine ⟨?_, ?_, ?_⟩
  · apply (receive_exact countingSupply hreadable 1 []).1.mpr
    rintro ⟨output, -, hnil⟩
    cases hnil
  · apply ((receive_exact countingSupply hreadable 1 _).2.1 5).mpr
    exact ⟨_, ⟨hfits, rfl⟩, ⟨rfl, rfl⟩, rfl⟩
  · apply (receive_exact countingSupply hreadable 1 _).2.2.mpr
    refine ⟨⟨.ringCt, (keyViewOf legacySeed).address.coin.bytes, 5⟩, ⟨hfits, rfl⟩, ?_⟩
    rintro ⟨hlevel, -⟩
    cases hlevel

end HashScheme

end RingWallet
