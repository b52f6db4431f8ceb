import RingWallet.Proofs.Address.Parse
import RingWallet.Proofs.Provider.Calls
import RingWallet.Proofs.Transaction.Building
import RingWallet.Seed.Rederive

/-!
# Checks that need no provider come first

An operation that checks its input does so before it asks the provider for anything. Two facts show
this for each of them. What passes the checks begins with a call (`BeginsWith`). What does not comes
to its result by itself, so it calls nothing. So the checks alone decide whether the provider is
called (`checks_precede_calls`).

Each check has a description of its own: the tag and the length of a level for crypto addresses
(`CryptoAddress.FitsLevel`), the frame of application addresses (`AppAddress.IsFramed`), balance for
plans, and one kind for signers (`Account.OfOneKind`).
-/

set_option autoImplicit false

namespace RingWallet

variable {σ : Type}

/-! ## Reading addresses -/

namespace CryptoAddress

/-- The bytes start with the tag of a level's scheme, and have the length of the level's crypto
addresses. -/
def FitsLevel (data : Bytes) : Prop :=
  ∃ level : PrivacyLevel, level.scheme.tag <+: data ∧ data.length = level.cryptoAddressLength

theorem fitsLevel_iff {data : Bytes} :
    FitsLevel data ↔ ∃ scheme, CryptoScheme.ofTag? data = some scheme ∧
      isPlausibleLength scheme data.length = true := by
  simp only [CryptoScheme.ofTag?_eq_some_iff, isPlausibleLength_iff]
  constructor
  · rintro ⟨level, ⟨rest, htag⟩, hlength⟩
    exact ⟨level.scheme, ⟨rest, htag.symm⟩, level, rfl, hlength.symm⟩
  · rintro ⟨scheme, ⟨rest, htag⟩, level, rfl, hlength⟩
    exact ⟨level, ⟨rest, htag.symm⟩, hlength.symm⟩

variable {data : Bytes}

/-- Bytes that fit a level are handed to the provider, to be taken apart. -/
theorem beginsWith_parse (provider : Provider σ) (h : FitsLevel data) :
    BeginsWith [.splitAddress data] (parse provider.noting data) := by
  obtain ⟨scheme, htag, hlength⟩ := fitsLevel_iff.mp h
  unfold parse
  rw [htag]
  dsimp only
  rw [if_pos hlength]
  refine (BeginsWith.consult _ (provider.splitAddress data)).bind fun answer => ?_
  exact (BeginsWith.lift _).bind fun coin => .check (.lift _)

/-- Other bytes are refused without it. -/
theorem exists_parse_eq_lift (provider : Provider σ) (h : ¬ FitsLevel data) :
    ∃ result, parse provider data = liftM (result : Except WalletError CryptoAddress) := by
  unfold parse
  cases htag : CryptoScheme.ofTag? data with
  | none => exact ⟨.error _, rfl⟩
  | some scheme =>
    dsimp only
    rw [if_neg fun hlength => h (fitsLevel_iff.mpr ⟨scheme, htag, hlength⟩)]
    exact ⟨.error _, rfl⟩

end CryptoAddress

namespace AppAddress

/-- The bytes start with the number of a network, have tag and length of a level behind it, and end
with the checksum of what is in front of that. -/
structure IsFramed (data : Bytes) : Prop where
  network : ∃ network : Network, data.head? = some network.code
  entry : ∃ level : PrivacyLevel,
    level.scheme.tag <+: data.drop 1 ∧ data.length = level.appAddressLength
  checksum : (sha3 (data.take (data.length - 32))).toList = data.drop (data.length - 32)

variable {data cryptoBytes : Bytes} {network : Network}

/-- What passes the checks is framed. -/
theorem isFramed_of_splitChecked (h : splitChecked data = .ok (network, cryptoBytes)) :
    IsFramed data := by
  unfold splitChecked at h
  -- Every check that fails ends in an error, so each has passed.
  split at h
  · cases h
  rename_i code behind
  split at h
  · cases h
  split at h
  · cases h
  rename_i found hfound
  split at h
  · cases h
  rename_i scheme htag
  dsimp only at h
  split at h
  · cases h
  rename_i hlisted
  split at h
  · cases h
  rename_i hchecksum
  obtain rfl := Network.ofCode?_eq_some_iff.mp hfound
  obtain ⟨rest, htag⟩ := CryptoScheme.ofTag?_eq_some_iff.mp htag
  rw [Bool.not_eq_true', Bool.not_eq_false] at hlisted
  obtain ⟨level, rfl, hlength⟩ := isPlausibleLength_iff.mp hlisted
  exact {
    network := ⟨found, rfl⟩
    entry := ⟨level, ⟨rest, htag.symm⟩, hlength.symm⟩
    checksum := not_not.mp hchecksum }

/-- What is framed passes the checks, and what is in the frame fits a level. -/
theorem IsFramed.exists_splitChecked (h : IsFramed data) :
    ∃ network cryptoBytes, splitChecked data = .ok (network, cryptoBytes) ∧
      CryptoAddress.FitsLevel cryptoBytes := by
  obtain ⟨⟨network, hcode⟩, ⟨level, htag, hlength⟩, hchecksum⟩ := h
  cases data with
  | nil => cases hcode
  | cons code behind =>
    obtain rfl : code = network.code := Option.some.inj hcode
    change level.scheme.tag <+: behind at htag
    have hscheme : CryptoScheme.ofTag? behind = some level.scheme := by
      obtain ⟨rest, hrest⟩ := htag
      exact CryptoScheme.ofTag?_eq_some_iff.mpr ⟨rest, hrest.symm⟩
    have hlisted := isPlausibleLength_iff.mpr ⟨level, rfl, hlength.symm⟩
    have hlong : level.appAddressLength = 1 + level.cryptoAddressLength + 32 := rfl
    have htagLength : level.scheme.tag.length = 4 := Bytes.length_ofUInt32 _
    have hfits : 4 ≤ level.cryptoAddressLength := by cases level <;> decide
    have hshort : ¬ (network.code :: behind).length <
        1 + CryptoScheme.tagLength + PrivacyLevel.checksumLength := by
      change ¬ _ < 1 + 4 + 32
      omega
    refine ⟨network, behind.take ((network.code :: behind).length - 32 - 1), ?_, level, ?_, ?_⟩
    · unfold splitChecked
      dsimp only
      rw [if_neg hshort, Network.ofCode?_code]
      dsimp only
      rw [hscheme]
      dsimp only
      rw [hlisted, Bool.not_true, if_neg Bool.false_ne_true, if_neg (not_not_intro hchecksum)]
    · -- The inside has room for the tag that it starts with.
      rw [List.prefix_take_iff]
      exact ⟨htag, by omega⟩
    · rw [List.length_take]
      rw [List.length_cons] at hlength ⊢
      omega

/-- Framed bytes are unwrapped, and their inside is handed to the provider. -/
theorem exists_beginsWith_parse (provider : Provider σ) (h : IsFramed data) :
    ∃ entry, BeginsWith [entry] (parse provider.noting data) := by
  obtain ⟨network, cryptoBytes, hsplit, hfits⟩ := h.exists_splitChecked
  have hcrypto := CryptoAddress.beginsWith_parse provider hfits
  refine ⟨.splitAddress cryptoBytes, ?_⟩
  unfold parse
  rw [hsplit]
  refine hcrypto.bind fun crypto => ?_
  refine (BeginsWith.consult _ (provider.validateAddress crypto.bytes)).nil.bind fun valid => ?_
  exact .check (.pure _)

/-- Other bytes are refused without it. -/
theorem exists_parse_eq_lift (provider : Provider σ) (h : ¬ IsFramed data) :
    ∃ result, parse provider data = liftM (result : Except WalletError AppAddress) := by
  unfold parse
  cases hsplit : splitChecked data with
  | error e => exact ⟨.error e, rfl⟩
  | ok parts => exact absurd (isFramed_of_splitChecked hsplit) h

end AppAddress

/-! ## Deriving keys -/

namespace RootSeed

variable {root : RootSeed}

theorem beginsWith_rederive (provider : Provider σ) {publicRand : Bytes}
    (h : publicRand.length = 64) :
    BeginsWith [.randomize root publicRand] (root.rederive provider.noting publicRand) := by
  unfold rederive
  rw [if_pos h]
  refine (BeginsWith.consult _ (provider.randomize root publicRand)).bind fun keys => ?_
  exact .check (.lift _)

theorem exists_rederive_eq_lift (provider : Provider σ) {publicRand : Bytes}
    (h : publicRand.length ≠ 64) :
    ∃ result, root.rederive provider publicRand =
      liftM (result : Except WalletError OneTimeSeed) := by
  unfold rederive
  rw [if_neg h]
  exact ⟨.error _, rfl⟩

theorem beginsWith_regenerate (provider : Provider σ) {address : CryptoAddress}
    (h : address.level = root.level) :
    BeginsWith [.publicRandOf address.bytes] (root.regenerate provider.noting address) := by
  unfold regenerate
  rw [if_pos h]
  refine (BeginsWith.consult _ (provider.publicRandOf address.bytes)).bind fun publicRand => ?_
  refine (BeginsWith.consult _ (provider.deriveFromRand root publicRand)).nil.bind fun keys => ?_
  exact .check (.pure _)

theorem exists_regenerate_eq_lift (provider : Provider σ) {address : CryptoAddress}
    (h : address.level ≠ root.level) :
    ∃ result, root.regenerate provider address =
      liftM (result : Except WalletError OneTimeKeys) := by
  unfold regenerate
  rw [if_neg h]
  exact ⟨.error _, rfl⟩

end RootSeed

/-! ## Building and signing -/

/-- Reading the levels of inputs takes a call at least. -/
theorem ReadsLevels.calls_ne_nil {provider : Provider σ} {start after : Noted σ}
    {inputs : List TxInput} {result : Except ProviderError (List ReadInput)}
    (h : ReadsLevels provider.noting start inputs result after) (hinputs : inputs ≠ []) :
    after.2 ≠ [] := by
  -- Whether the provider answers or fails, the last input that it is asked about is noted.
  cases h with
  | failed _ _ hfails => exact calls_ne_nil_of_noted hfails
  | all hall hread =>
    cases hread with
    | nil => exact absurd hall hinputs
    | snoc _ hlast => exact calls_ne_nil_of_noted hlast

theorem callsOf_buildUnsigned_ne_nil (provider : Provider σ) (start : σ) {plan : TxPlan}
    (h : plan.Balanced) :
    callsOf (fun _ asked => buildUnsigned asked plan) provider start ≠ [] := by
  obtain ⟨result, between, hread⟩ := exists_readsLevels provider.noting (start, []) plan.inputs
  unfold callsOf
  cases result with
  | error cause =>
    rw [outcome_buildUnsigned_of_error h hread]
    exact hread.calls_ne_nil h.inputs_ne
  | ok entries =>
    rw [outcome_buildUnsigned_of_ok h hread]
    exact List.append_ne_nil_of_right_ne_nil _ (List.cons_ne_nil _ _)

theorem exists_buildUnsigned_eq_lift (provider : Provider σ) {plan : TxPlan}
    (h : ¬ plan.Balanced) :
    ∃ result, buildUnsigned provider plan = liftM (result : Except WalletError UnsignedTx) := by
  unfold buildUnsigned
  cases hcheck : plan.check with
  | ok => exact absurd (plan.check_eq_ok_iff.mp hcheck) h
  | error e => exact ⟨.error e, rfl⟩

/-- A list is treated exactly if each of its elements is. -/
theorem exists_mapM_eq_some_iff {α β : Type} {f : α → Option β} {xs : List α} :
    (∃ ys, xs.mapM f = some ys) ↔ ∀ x ∈ xs, (f x).isSome = true := by
  induction xs with
  | nil => simp
  | cons x rest ih =>
    rw [List.forall_mem_cons, ← ih, List.mapM_cons]
    cases f x <;> cases rest.mapM f <;> simp

namespace Account

/-- There are signers, and all of them are of one kind. -/
structure OfOneKind (signers : List Account) : Prop where
  signers_ne : signers ≠ []
  kind : ∃ kind : AccountKind, ∀ signer ∈ signers, signer.view.kind = kind

theorem isSome_root?_iff {account : Account} :
    account.root?.isSome = true ↔ account.view.kind = .seedBacked := by
  cases account <;> simp [root?, view, ViewAccount.kind]

theorem isSome_keys?_iff {account : Account} :
    account.keys?.isSome = true ↔ account.view.kind = .keyBacked := by
  cases account <;> simp [keys?, view, ViewAccount.kind]

/-- Signers have something to sign with exactly if they are of one kind. -/
theorem exists_signerMaterial_iff {signers : List Account} :
    (∃ material, signerMaterial signers = .ok material) ↔ OfOneKind signers := by
  cases signers with
  | nil =>
    constructor
    · rintro ⟨material, h⟩
      cases h
    · exact fun h => absurd rfl h.signers_ne
  | cons first rest =>
    -- The first signer says which kind the others have to be of.
    have hkind : ∀ kind, first.view.kind = kind →
        (OfOneKind (first :: rest) ↔ ∀ signer ∈ first :: rest, signer.view.kind = kind) := by
      rintro kind rfl
      constructor
      · rintro ⟨-, kind, hall⟩ signer hmem
        exact (hall signer hmem).trans (hall first List.mem_cons_self).symm
      · exact fun hall => ⟨List.cons_ne_nil _ _, _, hall⟩
    cases first with
    | seedBacked root =>
      simp only [hkind .seedBacked rfl, ← isSome_root?_iff, ← exists_mapM_eq_some_iff,
        signerMaterial]
      cases (seedBacked root :: rest).mapM root? <;> simp
    | keyBacked own =>
      simp only [hkind .keyBacked rfl, ← isSome_keys?_iff, ← exists_mapM_eq_some_iff,
        signerMaterial]
      cases (keyBacked own :: rest).mapM keys? <;> simp

end Account

theorem exists_beginsWith_signTransaction (provider : Provider σ) (unsigned : UnsignedTx)
    {signers : List Account} (h : Account.OfOneKind signers) :
    ∃ entry, BeginsWith [entry] (signTransaction provider.noting unsigned signers) := by
  obtain ⟨material, hmaterial⟩ := Account.exists_signerMaterial_iff.mpr h
  refine ⟨.sign unsigned material, ?_⟩
  unfold signTransaction
  rw [hmaterial]
  exact .consult _ (provider.sign unsigned material)

theorem exists_signTransaction_eq_lift (provider : Provider σ) (unsigned : UnsignedTx)
    {signers : List Account} (h : ¬ Account.OfOneKind signers) :
    ∃ result, signTransaction provider unsigned signers =
      liftM (result : Except WalletError SignedTx) := by
  unfold signTransaction
  cases hmaterial : Account.signerMaterial signers with
  | error e => exact ⟨.error e, rfl⟩
  | ok material => exact absurd (Account.exists_signerMaterial_iff.mp ⟨material, hmaterial⟩) h

/-! ## Watching -/

namespace ViewAccount

theorem beginsWith_serialNumbers (provider : Provider σ) (account : ViewAccount)
    {coins : List CoinId} (ring : RingContext) (h : coins ≠ []) :
    BeginsWith [.serialNumbers coins ring (account.serialNumberKey coins.length)]
      (account.serialNumbers provider.noting coins ring) := by
  unfold serialNumbers
  rw [if_neg (by simpa using h)]
  refine (BeginsWith.consult _ (provider.serialNumbers coins ring _)).bind fun numbers => ?_
  exact .lift _

theorem serialNumbers_nil (provider : Provider σ) (account : ViewAccount) (ring : RingContext) :
    account.serialNumbers provider [] ring = liftM (.ok [] : Except WalletError (List Bytes)) :=
  rfl

section

variable {provider : Provider σ} {start : σ} {account : ViewAccount} {txVersion : UInt32}
  {output : Bytes}

/-- An account that is not answered its own level asks no more. -/
theorem callsOf_receive_of_ne
    (h : (outcome (provider.outputLevel txVersion output) start).1 ≠ .ok account.level) :
    callsOf (fun _ asked => account.receive asked txVersion output) provider start =
      [.outputLevel txVersion output] := by
  have hasked : outcome (consult (provider.noting.outputLevel txVersion output)) (start, []) = _ :=
    outcome_consult_noted _ _ _ _
  change (outcome (account.receive provider.noting txVersion output) (start, [])).2.2 = _
  unfold receive
  rcases houtcome : outcome (provider.outputLevel txVersion output) start with
    ⟨cause | level, between⟩
  · rw [houtcome] at hasked
    rw [outcome_bind_of_error hasked]
    rfl
  · rw [houtcome] at hasked h
    have hlevel : level ≠ account.level := fun hsame => h (congrArg Except.ok hsame)
    rw [outcome_bind_of_ok hasked, if_pos hlevel]
    rfl

/-- Answered its own level, an account asks whether the output is its own. -/
theorem exists_prefix_callsOf_receive
    (h : (outcome (provider.outputLevel txVersion output) start).1 = .ok account.level) :
    ∃ entry, [.outputLevel txVersion output, entry] <+:
      callsOf (fun _ asked => account.receive asked txVersion output) provider start := by
  have hasked : outcome (consult (provider.noting.outputLevel txVersion output)) (start, []) = _ :=
    outcome_consult_noted _ _ _ _
  change ∃ entry, _ <+: (outcome (account.receive provider.noting txVersion output) (start, [])).2.2
  unfold receive
  rw [h] at hasked
  rw [outcome_bind_of_ok hasked, if_neg (not_not_intro rfl)]
  -- The question about the level stands in the notes when the kind's own question is asked.
  cases account with
  | seedBacked view =>
    refine ⟨.detect txVersion output view.detector.toList, ?_⟩
    refine (BeginsWith.consult _ (provider.detect txVersion output view.detector.toList)).bind
      (fun detected => ?_) (_, [_])
    split
    · exact (BeginsWith.consult _ (provider.valueByRoot txVersion output _ _)).nil
    · exact .pure none
  | keyBacked view =>
    refine ⟨.outputCoinAddress txVersion output, ?_⟩
    refine (BeginsWith.consult _ (provider.outputCoinAddress txVersion output)).bind
      (fun coin => ?_) (_, [_])
    split
    · exact (BeginsWith.consult _ (provider.valueByKeys txVersion output _ _)).nil
    · exact .pure none

end

end ViewAccount

/-! ## All operations together -/

/-- Checks that need no provider come before every call.

Whatever the provider and its state, nothing is called exactly if a crypto address does not fit a
level by tag and length, an application address is not framed, public randomness has not 64 bytes,
an address is not of a root seed's scheme and level, a plan does not balance, signers are missing or
of both kinds, or there are no coins. An account asks one question alone, for the level of an
output, exactly if the answer is not its own level. -/
theorem checks_precede_calls (provider : Provider σ) (start : σ) :
    (∀ data, callsOf (fun _ asked => CryptoAddress.parse asked data) provider start = [] ↔
      ¬ CryptoAddress.FitsLevel data) ∧
    (∀ data, callsOf (fun _ asked => AppAddress.parse asked data) provider start = [] ↔
      ¬ AppAddress.IsFramed data) ∧
    (∀ root publicRand,
      callsOf (fun _ asked => RootSeed.rederive asked root publicRand) provider start = [] ↔
        ¬ publicRand.length = 64) ∧
    (∀ root address,
      callsOf (fun _ asked => RootSeed.regenerate asked root address) provider start = [] ↔
        ¬ (address.scheme = root.keys.scheme ∧ address.level = root.level)) ∧
    (∀ plan, callsOf (fun _ asked => buildUnsigned asked plan) provider start = [] ↔
      ¬ plan.Balanced) ∧
    (∀ unsigned signers,
      callsOf (fun _ asked => signTransaction asked unsigned signers) provider start = [] ↔
        ¬ Account.OfOneKind signers) ∧
    (∀ account coins ring,
      callsOf (fun _ asked => ViewAccount.serialNumbers asked account coins ring) provider start =
        [] ↔ coins = []) ∧
    ∀ account txVersion output,
      callsOf (fun _ asked => ViewAccount.receive asked account txVersion output) provider start =
          [.outputLevel txVersion output] ↔
        (outcome (provider.outputLevel txVersion output) start).1 ≠ .ok account.level := by
  refine ⟨fun data => ?_, fun data => ?_, fun root publicRand => ?_, fun root address => ?_,
    fun plan => ?_, fun unsigned signers => ?_, fun account coins ring => ?_,
    fun account txVersion output => ?_⟩
  · exact callsOf_eq_nil_iff_of_first (fun h => ⟨_, CryptoAddress.beginsWith_parse provider h⟩)
      (CryptoAddress.exists_parse_eq_lift provider.noting)
  · exact callsOf_eq_nil_iff_of_first (AppAddress.exists_beginsWith_parse provider)
      (AppAddress.exists_parse_eq_lift provider.noting)
  · exact callsOf_eq_nil_iff_of_first (fun h => ⟨_, RootSeed.beginsWith_rederive provider h⟩)
      (RootSeed.exists_rederive_eq_lift provider.noting)
  · -- The level decides, as it has one scheme.
    refine callsOf_eq_nil_iff_of_first
      (fun h => ⟨_, RootSeed.beginsWith_regenerate provider h.2⟩) fun h => ?_
    exact RootSeed.exists_regenerate_eq_lift provider.noting
      fun hlevel => h ⟨congrArg PrivacyLevel.scheme hlevel, hlevel⟩
  · exact callsOf_eq_nil_iff (callsOf_buildUnsigned_ne_nil provider start)
      (exists_buildUnsigned_eq_lift provider.noting)
  · exact callsOf_eq_nil_iff_of_first (exists_beginsWith_signTransaction provider unsigned)
      (exists_signTransaction_eq_lift provider.noting unsigned)
  · rw [← not_not (a := coins = [])]
    refine callsOf_eq_nil_iff_of_first
      (fun h => ⟨_, account.beginsWith_serialNumbers provider ring h⟩) fun h => ?_
    obtain rfl := not_not.mp h
    exact ⟨_, account.serialNumbers_nil provider.noting ring⟩
  · constructor
    · intro hcalls hlevel
      obtain ⟨entry, hsecond⟩ := ViewAccount.exists_prefix_callsOf_receive hlevel
      rw [hcalls] at hsecond
      exact absurd hsecond.length_le (by simp)
    · exact ViewAccount.callsOf_receive_of_ne

end RingWallet
