import RingWallet.Proofs.HashScheme.Receiving
import RingWallet.Proofs.Seed.Codec

/-!
# Accounts made again from what was kept of them

The serialized seed of an account is the whole account: bytes that are a serialized seed have an
account, whatever was kept of it besides, and no other bytes have one (`ofSeedBytes_answers`,
`exists_returns_ofSeedBytes_iff`).

The exported view keys are the whole watching part. The two constructors of views accept what was
exported, and make the view that exported it (`SeedView.ofMaterial_material`,
`KeyView.ofMaterial_material`); the first of them makes the view of every root seed from the fields
of the seed (`RootSeed.checkedView_eq`). So a view that is made again watches as the account does,
whichever provider is asked (`Account.Rebuilds.eq_view`).
-/

set_option autoImplicit false

namespace RingWallet

/-! ## Exported material -/

theorem SeedView.checkedField_toList (field : SeedField) :
    SeedView.checkedField field.toList = .ok field := by
  unfold SeedView.checkedField
  rw [FixedBytes.ofList?_toList]

/-- What a view of a root seed exports is accepted for its level, and gives that view. -/
theorem SeedView.ofMaterial_material (view : SeedView) :
    SeedView.ofMaterial view.level (view.serialNumber?.map FixedBytes.toList)
      (view.value?.map FixedBytes.toList) view.detector.toList = .ok view := by
  cases view with
  | fullPrivacy serialNumber value detector =>
    simp only [ofMaterial, level, serialNumber?, value?, SeedView.detector, Option.map_some,
      checkedField_toList]
    rfl
  | pseudonym detector =>
    simp only [ofMaterial, level, serialNumber?, value?, SeedView.detector, Option.map_none,
      checkedField_toList]
    rfl

/-- What a view of keys exports is accepted with its address, and gives that view. -/
theorem KeyView.ofMaterial_material (view : KeyView) :
    KeyView.ofMaterial view.address view.serialNumberKey view.viewKey view.detector? = .ok view :=
  dif_pos ⟨view.serialNumberKey_ne, view.viewKey_ne⟩

/-- The view that the constructor of views makes of a root seed's own fields, behind all its
checks. -/
def RootSeed.checkedView (root : RootSeed) : Except WalletError SeedView :=
  match root.keys.detector? with
  | none => .error .mismatchedSeedType
  | some detector =>
    SeedView.ofMaterial root.level (root.keys.serialNumber?.map FixedBytes.toList)
      (root.keys.value?.map FixedBytes.toList) detector.toList

/-- No root seed is refused by the checks. -/
theorem RootSeed.checkedView_eq (root : RootSeed) : root.checkedView = .ok root.view := by
  have haccepted := root.view.ofMaterial_material
  obtain ⟨keys, hscheme⟩ := root
  -- The fields of the view are those of the seed, which has all that its level asks for.
  cases keys with
  | legacy spend value => cases hscheme
  | fullPrivacy spend serialNumber value detector => exact haccepted
  | pseudonym spend detector => exact haccepted

/-! ## Views made again -/

namespace Account

variable {σ : Type} {provider : Provider σ} {account : Account}

/-- A watching account made again from what an account exports: root seeds by their constructor
under the account's level, and keys by theirs for an address of the account. -/
inductive Rebuilds (provider : Provider σ) (account : Account) : ViewAccount → Prop
  | rootSeeds {serialNumber? value? : Option Bytes} {detector : Bytes} {view : SeedView}
      (hmaterial : account.view.material = .rootSeeds serialNumber? value? detector)
      (hview : SeedView.ofMaterial account.view.level serialNumber? value? detector = .ok view) :
      Rebuilds provider account (.seedBacked view)
  | keys {serialNumber viewKey : Bytes} {detector? : Option Bytes} {address : CryptoAddress}
      {view : KeyView} (hmaterial : account.view.material = .keys serialNumber viewKey detector?)
      (haddress : Returns (account.makeAddress provider) address)
      (hview : KeyView.ofMaterial address serialNumber viewKey detector? = .ok view) :
      Rebuilds provider account (.keyBacked view)

/-- Every account can be watched again, as there is a state to ask for its address in. -/
theorem rebuilds_view (account : Account) (start : σ) : Rebuilds provider account account.view := by
  cases account with
  | seedBacked root => exact .rootSeeds rfl root.view.ofMaterial_material
  | keyBacked own => exact .keys rfl ⟨start, start, rfl⟩ own.view.ofMaterial_material

/-- A view made again is the account's own. -/
theorem Rebuilds.eq_view {view : ViewAccount} (h : Rebuilds provider account view) :
    view = account.view := by
  -- The material tells the kind of account, so each kind is rebuilt in one way only.
  cases account with
  | seedBacked root =>
    cases h with
    | rootSeeds hmaterial hview =>
      cases hmaterial
      cases (root.view.ofMaterial_material).symm.trans hview
      rfl
    | keys hmaterial => cases hmaterial
  | keyBacked own =>
    cases h with
    | rootSeeds hmaterial => cases hmaterial
    | keys hmaterial haddress hview =>
      cases hmaterial
      cases haddress.eq_of_pure
      cases own.view.ofMaterial_material.symm.trans hview
      rfl

end Account

/-! ## Restored accounts -/

namespace HashScheme

theorem dump_accountOf (seed : Seed) : (accountOf seed).dump = seed.serialize := by
  cases seed <;> rfl

theorem kind_accountOf (seed : Seed) :
    (accountOf seed).view.kind = .seedBacked ↔ seed.kind = .root := by
  cases seed <;> simp [accountOf, Account.view, ViewAccount.kind, Seed.kind]

theorem level_accountOf (seed : Seed) : (accountOf seed).view.level = seed.level := by
  cases seed with
  | root root => exact root.level_view
  | oneTime seed => rfl

variable (supply : RandSupply)

/-- A serialized seed has the account of the seed. -/
theorem ofSeedBytes_answers {data : Bytes} {seed : Seed} (h : Seed.deserialize data = .ok seed) :
    Answers (Account.ofSeedBytes (provider supply) data) (accountOf seed) :=
  (Answers.lift h).bind (ofSeed_answers supply seed)

/-- An account that was made once is made from every state. -/
theorem ofSeedBytes_echoes (data : Bytes) :
    Echoes (Account.ofSeedBytes (provider supply) data)
      (Account.ofSeedBytes (provider supply) data) := by
  intro account h
  obtain ⟨seed, hseed, -⟩ := h.bind
  have hanswers := ofSeedBytes_answers supply hseed.of_lift
  rw [hanswers.eq_of_returns h]
  exact hanswers

/-- Accounts are made from serialized seeds only. -/
theorem exists_returns_ofSeedBytes_iff {data : Bytes} :
    (∃ account, Returns (Account.ofSeedBytes (provider supply) data) account) ↔
      ∃ seed, Seed.deserialize data = .ok seed := by
  constructor
  · rintro ⟨account, h⟩
    obtain ⟨seed, hseed, -⟩ := h.bind
    exact ⟨seed, hseed.of_lift⟩
  · rintro ⟨seed, hseed⟩
    exact ⟨accountOf seed, (ofSeedBytes_answers supply hseed).returns .start⟩

/-- The bytes of a seed are the whole account, and its exported view keys the whole watching part.

Bytes have an account exactly if they are a serialized seed, and it is the same one whenever it is
made. It is seed-backed exactly if the seed is a root seed, has the scheme and the level of the
seed, and dumps the bytes it was made from; for a root seed, its view passes all checks of the
constructor of views. The account can be watched again from its exported view keys and, if it is
key-backed, its address; what is made of them receives outputs and computes serial numbers as the
account does, whichever provider is asked. -/
theorem account_restored_from_seed (data : Bytes) :
    ((∃ account, Answers (Account.ofSeedBytes (provider supply) data) account) ↔
      ∃ seed, Seed.deserialize data = .ok seed) ∧
    (Fails (Account.ofSeedBytes (provider supply) data) ↔
      ¬ ∃ seed, Seed.deserialize data = .ok seed) ∧
    ∀ seed account, Seed.deserialize data = .ok seed →
      Returns (Account.ofSeedBytes (provider supply) data) account →
        (account.view.kind = .seedBacked ↔ seed.kind = .root) ∧
        account.view.scheme = seed.scheme ∧ account.view.level = seed.level ∧
        account.dump = data ∧
        (∀ root, seed = .root root →
          root.checkedView.map ViewAccount.seedBacked = .ok account.view) ∧
        (∃ view, account.Rebuilds (provider supply) view) ∧
        ∀ view, account.Rebuilds (provider supply) view →
          ∀ (σ : Type) (asked : Provider σ),
            (∀ txVersion output,
              view.receive asked txVersion output = account.receive asked txVersion output) ∧
            ∀ coins ring,
              view.serialNumbers asked coins ring = account.serialNumbers asked coins ring := by
  refine ⟨?_, ?_, fun seed account hseed haccount => ?_⟩
  · exact ((ofSeedBytes_echoes supply data).exists_answers_iff .start).trans
      (exists_returns_ofSeedBytes_iff supply)
  · rw [fails_iff, exists_returns_ofSeedBytes_iff]
  · obtain rfl := (ofSeedBytes_answers supply hseed).eq_of_returns haccount
    have hdata := Seed.deserialize_eq_ok_iff.mp hseed
    refine ⟨kind_accountOf seed, congrArg PrivacyLevel.scheme (level_accountOf seed),
      level_accountOf seed, (dump_accountOf seed).trans hdata.symm, fun root hroot => ?_,
      ⟨_, Account.rebuilds_view (accountOf seed) .start⟩, fun view hview σ asked => ?_⟩
    · rw [hroot, root.checkedView_eq]
      rfl
    · rw [hview.eq_view]
      exact ⟨fun txVersion output => rfl, fun coins ring => rfl⟩

/-- The account of a legacy seed is made from the seed's bytes. It is key-backed, dumps the bytes
again, and can be watched from what it exports. No bytes at all have no account. -/
theorem legacy_account_restored :
    (∃ account, Answers (Account.ofSeedBytes (provider countingSupply)
        (Seed.oneTime legacySeed).serialize) account ∧
      account.view.kind ≠ .seedBacked ∧ account.dump = (Seed.oneTime legacySeed).serialize ∧
      ∃ view, account.Rebuilds (provider countingSupply) view ∧
        view.receive (provider countingSupply) = account.receive (provider countingSupply)) ∧
    Fails (Account.ofSeedBytes (provider countingSupply) []) := by
  have hseed := Seed.deserialize_eq_ok_iff.mpr (rfl : (Seed.oneTime legacySeed).serialize = _)
  constructor
  · obtain ⟨hexists, -, hmade⟩ :=
      account_restored_from_seed countingSupply (Seed.oneTime legacySeed).serialize
    obtain ⟨account, haccount⟩ := hexists.mpr ⟨_, hseed⟩
    obtain ⟨hkind, -, -, hdump, -, ⟨view, hview⟩, hsame⟩ :=
      hmade _ account hseed (haccount.returns .start)
    obtain ⟨hreceive, -⟩ := hsame view hview Tally (provider countingSupply)
    refine ⟨account, haccount, fun hbacked => ?_, hdump, view, hview, ?_⟩
    · cases hkind.mp hbacked
    · exact funext fun txVersion => funext fun output => hreceive txVersion output
  · obtain ⟨-, hfails, -⟩ := account_restored_from_seed countingSupply []
    apply hfails.mpr
    rintro ⟨seed, hempty⟩
    cases hempty

end HashScheme

end RingWallet
