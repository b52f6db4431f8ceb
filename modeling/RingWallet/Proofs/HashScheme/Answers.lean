import RingWallet.Account.View
import RingWallet.HashScheme.Provider
import RingWallet.Proofs.Address.Parse
import RingWallet.Proofs.Coin.RingCodec
import RingWallet.Proofs.HashScheme.Block
import RingWallet.Proofs.Outcome
import RingWallet.Tracker.Scan

/-!
# What the stand-in scheme answers

The stand-in scheme only counts its calls, so what it answers to a watched account is a function of
the arguments: the value of an output for an account (`valueFor`), and the owner of an output among
accounts (`ownerOf`).

A key-backed account must hold an address that the scheme itself has read; the scheme takes the
address apart again whenever it is asked for a value.
-/

set_option autoImplicit false

namespace RingWallet

namespace HashScheme

variable {α : Type} (supply : RandSupply)

theorem outcome_answer (result : Except Failure α) (tally : Tally) :
    outcome (answer result) tally =
      (result.mapError Failure.toProviderError, { tally with calls := tally.calls + 1 }) := by
  cases result <;> rfl

theorem answer_answers {result : Except Failure α} {a : α} (h : result = .ok a) :
    Answers (answer result) a := by
  intro tally
  rw [outcome_answer, h]
  exact ⟨_, rfl⟩

/-- What the scheme returns is what it was to answer. -/
theorem eq_ok_of_returns {result : Except Failure α} {a : α} (h : Returns (answer result) a) :
    result = .ok a := by
  obtain ⟨tally, after, h⟩ := h
  rw [outcome_answer] at h
  exact mapError_eq_ok_iff.mp (Prod.mk.inj h).1

/-- A question to the scheme inside an operation of the wallet. -/
theorem consult_answers {result : Except Failure α} {a : α} (h : result = .ok a) :
    Answers (consult (answer result)) a :=
  (answer_answers h).consult

/-! ## Accounts -/

/-- The address of a key-backed account was read by the scheme. -/
def IsReadable : ViewAccount → Prop
  | .seedBacked _ => True
  | .keyBacked view => ∃ tally,
    (outcome (CryptoAddress.parse (provider supply) view.address.bytes) tally).1 = .ok view.address

/-- An address that the scheme has read is taken apart into its coin address. -/
theorem split_of_parse {address : CryptoAddress} {tally : Tally}
    (h : (outcome (CryptoAddress.parse (provider supply) address.bytes) tally).1 = .ok address) :
    ∃ parts, split address.bytes = .ok parts ∧ parts.coin = address.coin.bytes := by
  obtain ⟨-, hsplit⟩ := CryptoAddress.of_parse (.of_outcome (Prod.ext h rfl))
  obtain ⟨parts, hparts, hpair⟩ := map_eq_ok_iff.mp (eq_ok_of_returns hsplit)
  exact ⟨parts, hparts, (Prod.mk.inj hpair).2⟩

/-- The value of an output for an account. -/
def valueFor (account : ViewAccount) (output : Output) : Option UInt64 :=
  if output.level ≠ account.level then none
  else match account with
  | .seedBacked view =>
    if detects output view.detector.toList then some output.value else none
  | .keyBacked view =>
    if output.coinAddress = view.address.coin.bytes then some output.value else none

/-- A root seed's view can value every output of its own level that it detects. -/
theorem valueByRoot_eq {view : SeedView} {output : Output}
    (houtput : output.coinAddress.length < UInt32.size) (hlevel : output.level = view.level)
    (hdetects : detects output view.detector.toList = true) :
    valueByRoot output.serialize (view.value?.map FixedBytes.toList) view.detector.toList =
      .ok (some output.value) := by
  have hseed : (output.level.isFullPrivacy &&
      (view.value?.map FixedBytes.toList).isNone) = false := by
    rw [hlevel]
    cases view <;> rfl
  unfold valueByRoot
  rw [Output.parse_serialize houtput]
  change (if (output.level.isFullPrivacy && (view.value?.map FixedBytes.toList).isNone) = true then
    _ else _) = _
  rw [hseed]
  change Except.ok (if detects output view.detector.toList = true then some output.value else none)
    = _
  rw [if_pos hdetects]

/-- The view keys of an address that the scheme has read can value every output paid to it. -/
theorem valueByKeys_eq {view : KeyView} {output : Output}
    (haccount : IsReadable supply (.keyBacked view))
    (houtput : output.coinAddress.length < UInt32.size)
    (hsame : output.coinAddress = view.address.coin.bytes) :
    valueByKeys output.serialize view.address.bytes view.viewKey = .ok (some output.value) := by
  obtain ⟨tally, hread⟩ := haccount
  obtain ⟨parts, hparts, hcoin⟩ := split_of_parse supply hread
  unfold valueByKeys
  rw [if_neg (by simpa using view.viewKey_ne), Output.parse_serialize houtput, hparts]
  change Except.ok (if output.coinAddress = parts.coin then some output.value else none) = _
  rw [hcoin, if_pos hsame]

theorem receive_answers {account : ViewAccount} (haccount : IsReadable supply account)
    {output : Output} (houtput : output.coinAddress.length < UInt32.size) (txVersion : UInt32) :
    Answers (account.receive (provider supply) txVersion output.serialize)
      (valueFor account output) := by
  have hparse := Output.parse_serialize houtput
  -- The level is asked for first; then each kind of account has its own two questions.
  unfold ViewAccount.receive valueFor
  apply (consult_answers (a := output.level) (by rw [hparse]; rfl)).bind
  by_cases hlevel : output.level ≠ account.level
  · rw [if_pos hlevel, if_pos hlevel]
    exact .pure none
  · rw [if_neg hlevel, if_neg hlevel]
    cases account with
    | seedBacked view =>
      dsimp only
      refine (consult_answers (a := detects output view.detector.toList)
        (by rw [hparse]; rfl)).bind ?_
      by_cases hdetects : detects output view.detector.toList = true
      · rw [if_pos hdetects, if_pos hdetects]
        exact consult_answers (valueByRoot_eq houtput (not_not.mp hlevel) hdetects)
      · rw [if_neg hdetects, if_neg hdetects]
        exact .pure none
    | keyBacked view =>
      dsimp only
      apply (consult_answers (a := output.coinAddress) (by rw [hparse]; rfl)).bind
      by_cases hsame : output.coinAddress = view.address.coin.bytes
      · rw [if_pos hsame, if_pos hsame]
        exact consult_answers (valueByKeys_eq supply haccount houtput hsame)
      · rw [if_neg hsame, if_neg hsame]
        exact .pure none

/-- The first account that an output belongs to, with its value. -/
def ownerOf (accounts : List (AccountId × ViewAccount)) (output : Output) :
    Option (AccountId × UInt64) :=
  accounts.findSome? fun entry => (valueFor entry.2 output).map (entry.1, ·)

theorem recognise_answers {accounts : List (AccountId × ViewAccount)}
    (haccounts : ∀ entry ∈ accounts, IsReadable supply entry.2) {output : Output}
    (houtput : output.coinAddress.length < UInt32.size) (txVersion : UInt32) :
    Answers (recognise (provider supply) txVersion output.serialize accounts)
      (ownerOf accounts output) := by
  induction accounts with
  | nil => exact .pure none
  | cons entry rest ih =>
    have hfirst := receive_answers supply (haccounts entry List.mem_cons_self) houtput txVersion
    have hrest := ih fun other hmem => haccounts other (List.mem_cons_of_mem _ hmem)
    unfold recognise ownerOf
    apply hfirst.bind
    rw [List.findSome?_cons]
    cases valueFor entry.2 output with
    | none => exact hrest
    | some value => exact .pure _

/-- An owner is one of the accounts, and the output has a value for it. -/
theorem mem_of_ownerOf {accounts : List (AccountId × ViewAccount)} {output : Output}
    {id : AccountId} {value : UInt64} (h : ownerOf accounts output = some (id, value)) :
    ∃ account, (id, account) ∈ accounts ∧ valueFor account output = some value := by
  obtain ⟨entry, hmem, hvalue⟩ := List.exists_of_findSome?_eq_some h
  obtain ⟨found, hfound, heq⟩ := Option.map_eq_some_iff.mp hvalue
  cases heq
  exact ⟨entry.2, hmem, hfound⟩

/-- Bytes are a plain output that belongs to an owner among accounts. -/
inductive OwnedBy (accounts : List (AccountId × ViewAccount)) :
    Bytes → AccountId × UInt64 → Prop where
  | intro {output : Output} {owner : AccountId × UInt64}
      (hlength : output.coinAddress.length < 2147483648)
      (howner : ownerOf accounts output = some owner) : OwnedBy accounts output.serialize owner

section

variable {supply} {accounts : List (AccountId × ViewAccount)} {data : Bytes}

/-- A scan of plain bytes answers their owner, if they have one. -/
theorem IsPlain.recognise_answers (h : IsPlain data)
    (haccounts : ∀ entry ∈ accounts, IsReadable supply entry.2) (txVersion : UInt32) :
    ∃ owner?, Answers (recognise (provider supply) txVersion data accounts) owner? ∧
      ∀ owner, OwnedBy accounts data owner ↔ owner? = some owner := by
  cases h with
  | @intro output hlength =>
    have hfits : output.coinAddress.length < UInt32.size := Nat.lt_trans hlength (by decide)
    refine ⟨ownerOf accounts output, HashScheme.recognise_answers supply haccounts hfits txVersion,
      fun owner => ⟨fun howned => ?_, .intro hlength⟩⟩
    -- Another output with the same bytes is the same output.
    generalize hdata : output.serialize = data at howned
    cases howned with
    | @intro other _ hotherLength howner =>
      have hotherFits : other.coinAddress.length < UInt32.size :=
        Nat.lt_trans hotherLength (by decide)
      have hparse := Output.parse_serialize hfits
      rw [hdata, Output.parse_serialize hotherFits] at hparse
      cases hparse
      exact howner

/-- Plain bytes that some account recognises have an owner. -/
theorem IsPlain.exists_ownedBy (h : IsPlain data) {entry : AccountId × ViewAccount}
    (hmem : entry ∈ accounts) (haccount : IsReadable supply entry.2) {txVersion : UInt32}
    {tally : Tally} {value : UInt64}
    (hreceive : (outcome (entry.2.receive (provider supply) txVersion data) tally).1 =
      .ok (some value)) : ∃ owner, OwnedBy accounts data owner := by
  cases h with
  | @intro output hlength =>
    have hfits : output.coinAddress.length < UInt32.size := Nat.lt_trans hlength (by decide)
    obtain ⟨after, hanswer⟩ := receive_answers supply haccount hfits txVersion tally
    rw [hanswer] at hreceive
    have hvalue : valueFor entry.2 output = some value := Except.ok.inj hreceive
    have hsome : (ownerOf accounts output).isSome = true := by
      unfold ownerOf
      rw [List.findSome?_isSome_iff]
      exact ⟨entry, hmem, by rw [hvalue]; rfl⟩
    obtain ⟨owner, howner⟩ := Option.isSome_iff_exists.mp hsome
    exact ⟨owner, .intro hlength howner⟩

end

end HashScheme

end RingWallet
