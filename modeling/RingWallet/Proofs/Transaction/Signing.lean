import RingWallet.Proofs.HashScheme.Receiving
import RingWallet.Proofs.Provider.ChecksFirst

/-!
# What a transaction is signed with

Signers give their material as one list, of root seeds or of key sets. A list of signers has
material exactly if there are signers and all are of one kind, and then the material holds one entry
for each signer, in their order (`Account.signerMaterial_eq_ok_iff`).

`signing_material_follows_signers` puts this in front of the provider, which is asked to sign once,
with that material, or not at all.
-/

set_option autoImplicit false

namespace RingWallet

variable {σ : Type}

/-- Every element is treated, and the results stand in the order of the elements. -/
theorem mapM_eq_some_iff_map_eq {α β : Type} {f : α → Option β} {xs : List α} {ys : List β} :
    xs.mapM f = some ys ↔ xs.map f = ys.map some := by
  induction xs generalizing ys with
  | nil => cases ys <;> simp
  | cons x rest ih =>
    rw [List.mapM_cons]
    constructor
    · intro h
      obtain ⟨y, hy, h⟩ := Option.bind_eq_some_iff.mp h
      obtain ⟨behind, hbehind, h⟩ := Option.bind_eq_some_iff.mp h
      cases h
      rw [List.map_cons, List.map_cons, hy, ih.mp hbehind]
    · intro h
      cases ys with
      | nil => cases h
      | cons y behind =>
        obtain ⟨hy, hbehind⟩ := List.cons.inj h
        rw [hy, ih.mpr hbehind]
        rfl

/-- The material is that of the signers: one root seed or one key set for each of them, in their
order. -/
def SignerMaterial.IsOf : SignerMaterial → List Account → Prop
  | rootSeeds seeds, signers => signers.map Account.root? = seeds.map some
  | keys sets, signers => signers.map Account.keys? = sets.map some

namespace SignerMaterial.IsOf

variable {material : SignerMaterial} {signers : List Account}

/-- No entry more or less than there are signers. -/
theorem size_eq (h : material.IsOf signers) : material.size = signers.length := by
  cases material with
  | rootSeeds seeds => simpa [size] using (congrArg List.length h).symm
  | keys sets => simpa [size] using (congrArg List.length h).symm

/-- Signers with material are of one kind. -/
theorem not_both (h : material.IsOf signers) {root : RootSeed} {own : KeyAccount}
    (hroot : .seedBacked root ∈ signers) (hown : .keyBacked own ∈ signers) : False := by
  -- The signer of the other kind would stand as nothing among the entries.
  cases material with
  | rootSeeds seeds =>
    have hnone : none ∈ seeds.map some := h ▸ List.mem_map_of_mem hown
    simp at hnone
  | keys sets =>
    have hnone : none ∈ sets.map some := h ▸ List.mem_map_of_mem hroot
    simp at hnone

end SignerMaterial.IsOf

namespace Account

variable {signers : List Account}

/-- The material of signers is their own, and there is at least one of them. -/
theorem signerMaterial_eq_ok_iff {material : SignerMaterial} :
    signerMaterial signers = .ok material ↔ signers ≠ [] ∧ material.IsOf signers := by
  cases signers with
  | nil =>
    constructor
    · intro h
      cases h
    · exact fun h => absurd rfl h.1
  | cons first rest =>
    -- The first signer decides on the kind of entries, which leaves one kind of material.
    simp only [ne_eq, List.cons_ne_nil, not_false_eq_true, true_and]
    cases first with
    | seedBacked root =>
      cases material with
      | rootSeeds seeds =>
        rw [SignerMaterial.IsOf, ← mapM_eq_some_iff_map_eq, signerMaterial]
        cases (seedBacked root :: rest).mapM root? <;> simp
      | keys sets =>
        rw [SignerMaterial.IsOf, signerMaterial]
        cases (seedBacked root :: rest).mapM root? <;> cases sets <;> simp [keys?]
    | keyBacked own =>
      cases material with
      | rootSeeds seeds =>
        rw [SignerMaterial.IsOf, signerMaterial]
        cases (keyBacked own :: rest).mapM keys? <;> cases seeds <;> simp [root?]
      | keys sets =>
        rw [SignerMaterial.IsOf, ← mapM_eq_some_iff_map_eq, signerMaterial]
        cases (keyBacked own :: rest).mapM keys? <;> simp

/-- Signers that have no material are missing, or of both kinds. -/
theorem signerMaterial_eq_error {e : WalletError} (h : signerMaterial signers = .error e) :
    signers = [] ∧ e = .invalidParameter .noSigners ∨
      signers ≠ [] ∧ e = .invalidAccountType := by
  unfold signerMaterial at h
  split at h
  · cases h
    exact .inl ⟨rfl, rfl⟩
  · split at h <;> cases h
    exact .inr ⟨List.cons_ne_nil _ _, rfl⟩
  · split at h <;> cases h
    exact .inr ⟨List.cons_ne_nil _ _, rfl⟩

/-- Signers of both kinds have no material. -/
theorem signerMaterial_of_both {root : RootSeed} {own : KeyAccount}
    (hroot : .seedBacked root ∈ signers) (hown : .keyBacked own ∈ signers) :
    signerMaterial signers = .error .invalidAccountType := by
  cases hmaterial : signerMaterial signers with
  | ok material => exact ((signerMaterial_eq_ok_iff.mp hmaterial).2.not_both hroot hown).elim
  | error e =>
    rcases signerMaterial_eq_error hmaterial with ⟨rfl, -⟩ | ⟨-, rfl⟩
    · cases hroot
    · rfl

/-- Signers not of both kinds are of one. -/
theorem OfOneKind.of_not_both (hne : signers ≠ [])
    (h : ¬ ((∃ root, .seedBacked root ∈ signers) ∧ ∃ own, .keyBacked own ∈ signers)) :
    OfOneKind signers := by
  refine ⟨hne, ?_⟩
  by_cases hroot : ∃ root, .seedBacked root ∈ signers
  · refine ⟨.seedBacked, fun signer hmem => ?_⟩
    cases signer with
    | seedBacked root => rfl
    | keyBacked own => exact absurd ⟨hroot, own, hmem⟩ h
  · refine ⟨.keyBacked, fun signer hmem => ?_⟩
    cases signer with
    | seedBacked root => exact absurd ⟨root, hmem⟩ hroot
    | keyBacked own => rfl

end Account

section

variable (provider : Provider σ) (start : σ) (unsigned : UnsignedTx) {signers : List Account}

/-- Signers without material are refused before the provider is asked. -/
theorem signTransaction_of_error {e : WalletError} (h : Account.signerMaterial signers = .error e) :
    outcome (signTransaction provider unsigned signers) start = (.error e, start) ∧
      callsOf (fun _ asked => signTransaction asked unsigned signers) provider start = [] := by
  have hsign : ∀ (τ : Type) (asked : Provider τ),
      signTransaction asked unsigned signers = liftM (.error e : Except WalletError SignedTx) := by
    intro τ asked
    unfold signTransaction
    rw [h]
    rfl
  refine ⟨by rw [hsign]; rfl, ?_⟩
  rw [callsOf, hsign]
  rfl

/-- Signers with material hand it to the provider, which is asked once and answers for itself. -/
theorem signTransaction_of_ok {material : SignerMaterial}
    (h : Account.signerMaterial signers = .ok material) :
    outcome (signTransaction provider unsigned signers) start =
        outcome (consult (provider.sign unsigned material)) start ∧
      callsOf (fun _ asked => signTransaction asked unsigned signers) provider start =
        [.sign unsigned material] := by
  have hsign : ∀ (τ : Type) (asked : Provider τ),
      signTransaction asked unsigned signers = consult (asked.sign unsigned material) := by
    intro τ asked
    unfold signTransaction
    rw [h]
    rfl
  refine ⟨by rw [hsign], ?_⟩
  rw [callsOf, hsign]
  rfl

end

/-- A transaction is signed with the material of its signers, in their order, or with nothing.

Whatever the provider and its state: without signers, and with signers of both kinds in whatever
positions, signing fails and the provider is not called. Otherwise it is called once, with the
transaction as it stands and with one root seed or one key set for each signer, and its answer is
what signing comes to. -/
theorem signing_material_follows_signers (provider : Provider σ) (start : σ)
    (unsigned : UnsignedTx) (signers : List Account) :
    (signers = [] →
      outcome (signTransaction provider unsigned signers) start =
          (.error (.invalidParameter .noSigners), start) ∧
        callsOf (fun _ asked => signTransaction asked unsigned signers) provider start = []) ∧
    (((∃ root, .seedBacked root ∈ signers) ∧ ∃ own, .keyBacked own ∈ signers) →
      outcome (signTransaction provider unsigned signers) start =
          (.error .invalidAccountType, start) ∧
        callsOf (fun _ asked => signTransaction asked unsigned signers) provider start = []) ∧
    (signers ≠ [] →
      ¬ ((∃ root, .seedBacked root ∈ signers) ∧ ∃ own, .keyBacked own ∈ signers) →
      ∃ material : SignerMaterial, material.IsOf signers ∧ material.size = signers.length ∧
        callsOf (fun _ asked => signTransaction asked unsigned signers) provider start =
          [.sign unsigned material] ∧
        outcome (signTransaction provider unsigned signers) start =
          outcome (consult (provider.sign unsigned material)) start) := by
  refine ⟨?_, ?_, fun hne hkinds => ?_⟩
  · rintro rfl
    exact signTransaction_of_error provider start unsigned rfl
  · rintro ⟨⟨root, hroot⟩, own, hown⟩
    exact signTransaction_of_error provider start unsigned
      (Account.signerMaterial_of_both hroot hown)
  · obtain ⟨material, hmaterial⟩ :=
      Account.exists_signerMaterial_iff.mpr (.of_not_both hne hkinds)
    have hof := (Account.signerMaterial_eq_ok_iff.mp hmaterial).2
    obtain ⟨houtcome, hcalls⟩ := signTransaction_of_ok provider start unsigned hmaterial
    exact ⟨material, hof, hof.size_eq, hcalls, houtcome⟩

namespace HashScheme

/-- A root seed whose fields are filled with one byte. -/
def filledRoot (fill : UInt8) : RootSeed :=
  ⟨.pseudonym (.replicate 64 fill) (.replicate 64 fill), rfl⟩

/-- Two root seeds are handed over as they stand; a key-backed account behind a root seed is refused,
and so is nobody. -/
theorem signing_material_of_roots :
    callsOf (fun _ asked => signTransaction asked ⟨[7]⟩
        [.seedBacked (filledRoot 2), .seedBacked (filledRoot 1)]) (provider countingSupply) .start =
      [.sign ⟨[7]⟩ (.rootSeeds [filledRoot 2, filledRoot 1])] ∧
    outcome (signTransaction (provider countingSupply) ⟨[7]⟩
        [.seedBacked (filledRoot 2), accountOf (.oneTime legacySeed)]) .start =
      (.error .invalidAccountType, .start) ∧
    outcome (signTransaction (provider countingSupply) ⟨[7]⟩ []) .start =
      (.error (.invalidParameter .noSigners), .start) := by
  refine ⟨?_, ?_, ?_⟩
  · obtain ⟨material, hof, -, hcalls, -⟩ :=
      (signing_material_follows_signers (provider countingSupply) .start ⟨[7]⟩
        [.seedBacked (filledRoot 2), .seedBacked (filledRoot 1)]).2.2 (List.cons_ne_nil _ _)
        (by simp)
    have hmaterial := Account.signerMaterial_eq_ok_iff.mpr ⟨List.cons_ne_nil _ _, hof⟩
    cases hmaterial
    exact hcalls
  · exact ((signing_material_follows_signers (provider countingSupply) .start ⟨[7]⟩
      [.seedBacked (filledRoot 2), accountOf (.oneTime legacySeed)]).2.1
      ⟨⟨_, List.mem_cons_self⟩, _, List.mem_cons_of_mem _ List.mem_cons_self⟩).1
  · exact ((signing_material_follows_signers (provider countingSupply) .start ⟨[7]⟩ []).1 rfl).1

end HashScheme

end RingWallet
