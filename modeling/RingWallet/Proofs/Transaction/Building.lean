import RingWallet.Proofs.Transaction.Balance
import RingWallet.Proofs.Transaction.Sorting

/-!
# Building unsigned transactions

What a provider is asked to build can be seen on a provider that keeps the plans it is handed
(`Provider.keepingPlans`); it answers as the provider below. A plan that does not balance is refused
before the provider is asked for anything, and one with an input that cannot be read behind that.
Every other plan is handed over once, in wire order, and it balances then as it did before
(`Builds`, `unsigned_tx_conserves_value`).

What the stand-in scheme builds depends on the plan that it is handed alone, so it depends on the
private and on the pseudonymous entries of a plan and not on how they were mixed.
-/

set_option autoImplicit false

namespace RingWallet

variable {σ τ α : Type}

/-! ## The plans that a provider is handed -/

/-- A provider that also keeps the plans that it is asked to build. -/
def Provider.keepingPlans (provider : Provider σ) : Provider (σ × List TxPlan) :=
  { provider.beside (List TxPlan) with
    buildUnsigned := fun plan => ExceptT.mk fun (inner, plans) =>
      let (result, inner) := (provider.buildUnsigned plan).run.run inner
      (result, (inner, plans ++ [plan])) }

theorem outcome_keepingPlans_outputLevel (provider : Provider σ) (version : UInt32)
    (output : Bytes) (inner : σ) (plans : List TxPlan) :
    outcome (provider.keepingPlans.outputLevel version output) (inner, plans) =
      ((outcome (provider.outputLevel version output) inner).1,
        ((outcome (provider.outputLevel version output) inner).2, plans)) :=
  rfl

theorem outcome_keepingPlans_buildUnsigned (provider : Provider σ) (plan : TxPlan) (inner : σ)
    (plans : List TxPlan) :
    outcome (provider.keepingPlans.buildUnsigned plan) (inner, plans) =
      ((outcome (provider.buildUnsigned plan) inner).1,
        ((outcome (provider.buildUnsigned plan) inner).2, plans ++ [plan])) :=
  rfl

/-- Steps that are taken beside something else are taken in turn beside it. -/
theorem InTurn.beside {step : α → σ → σ → Prop} {stepBeside : α → σ × τ → σ × τ → Prop} {other : τ}
    (hstep : ∀ member before after, step member before after →
      stepBeside member (before, other) (after, other))
    {start after : σ} {list : List α} (h : InTurn step start list after) :
    InTurn stepBeside (start, other) list (after, other) := by
  induction h with
  | nil => exact .nil
  | snoc _ hlast ih => exact ih.snoc (hstep _ _ _ hlast)

/-- Reading levels hands no plan over. -/
theorem ReadsLevels.keepingPlans {provider : Provider σ} {start after : σ} {inputs : List TxInput}
    {result : Except ProviderError (List ReadInput)}
    (h : ReadsLevels provider start inputs result after) (plans : List TxPlan) :
    ReadsLevels provider.keepingPlans (start, plans) inputs result (after, plans) := by
  have hstep : ∀ entry before after, ReadsLevel provider entry before after →
      ReadsLevel provider.keepingPlans entry (before, plans) (after, plans) := by
    intro entry before after hread
    rw [ReadsLevel, outcome_keepingPlans_outputLevel, show outcome _ before = _ from hread]
  cases h with
  | all hinputs hread => exact .all hinputs (hread.beside hstep)
  | failed hinputs hfront hfails =>
    refine .failed hinputs (hfront.beside hstep) ?_
    rw [outcome_keepingPlans_outputLevel, hfails]

/-! ## From a plan to what is handed over -/

/-- The plan with its entries in wire order, its inputs by the levels that they were read with. -/
def TxPlan.inWireOrder (plan : TxPlan) (entries : List ReadInput) : TxPlan :=
  { plan with
    inputs := orderedInputs entries
    outputs := privateFirst (fun output => output.address.level.isPseudonym) plan.outputs }

/-- A plan balances in wire order as it does in any other. -/
theorem TxPlan.Balanced.inWireOrder {plan : TxPlan} (h : plan.Balanced) {provider : Provider σ}
    {start after : σ} {entries : List ReadInput}
    (hread : ReadsLevels provider start plan.inputs (.ok entries) after) :
    (plan.inWireOrder entries).Balanced :=
  h.of_perm hread.perm_orderedInputs.symm (sameGroups_privateFirst plan.outputs).symm.perm rfl

section

variable {provider : Provider σ} {plan : TxPlan} {start : σ}

theorem outcome_buildUnsigned_of_unbalanced (h : ¬ plan.Balanced) :
    ∃ e, ∀ (ρ : Type) (provider : Provider ρ) (start : ρ),
      outcome (buildUnsigned provider plan) start = (.error e, start) := by
  cases hcheck : plan.check with
  | ok => exact absurd (plan.check_eq_ok_iff.mp hcheck) h
  | error e =>
    refine ⟨e, fun ρ provider start => ?_⟩
    rw [buildUnsigned, hcheck]
    rfl

/-- Behind the checks, the inputs are sorted. -/
theorem outcome_buildUnsigned_of_sort {sorted : Except WalletError Unit} {left : List TxInput}
    {between : σ} (h : plan.Balanced)
    (hsort : (sortInputs provider plan.inputs).run start = ((sorted, left), between)) :
    outcome (buildUnsigned provider plan) start =
      outcome (liftM sorted >>= fun _ => consult (provider.buildUnsigned
        { plan with inputs := left, outputs := sortOutputs plan.outputs })) between := by
  have hsorted : outcome (liftM (sortInputs provider plan.inputs) :
      WalletM σ (Except WalletError Unit × List TxInput)) start =
        (.ok (sorted, left), between) := by
    rw [outcome_liftState, hsort]
  have hcheck : outcome (liftM plan.check : WalletM σ Unit) start = (.ok (), start) := by
    rw [plan.check_eq_ok_iff.mpr h]
    rfl
  rw [buildUnsigned, outcome_bind_of_ok hcheck, outcome_bind_of_ok hsorted]

theorem outcome_buildUnsigned_of_error {after : σ} {cause : ProviderError} (h : plan.Balanced)
    (hread : ReadsLevels provider start plan.inputs (.error cause) after) :
    outcome (buildUnsigned provider plan) start = (.error (.provider cause), after) :=
  outcome_buildUnsigned_of_sort h hread.sortInputs_of_error

theorem outcome_buildUnsigned_of_ok {between : σ} {entries : List ReadInput} (h : plan.Balanced)
    (hread : ReadsLevels provider start plan.inputs (.ok entries) between) :
    outcome (buildUnsigned provider plan) start =
      outcome (consult (provider.buildUnsigned (plan.inWireOrder entries))) between := by
  rw [outcome_buildUnsigned_of_sort h hread.sortInputs_of_ok, sortOutputs, wireOrder_eq]
  rfl

end

/-- What comes of building a plan, with the plans that the provider's builder is handed. -/
inductive Builds (provider : Provider σ) (plan : TxPlan) (start : σ) :
    Except WalletError UnsignedTx → σ → List TxPlan → Prop
  /-- A plan that does not balance fails, and the provider is not asked for anything. -/
  | unbalanced {e : WalletError} (hplan : ¬ plan.Balanced) :
      Builds provider plan start (.error e) start []
  /-- A plan with an input that the provider cannot read fails there. -/
  | unreadable {cause : ProviderError} {after : σ} (hplan : plan.Balanced)
      (hread : ReadsLevels provider start plan.inputs (.error cause) after) :
      Builds provider plan start (.error (.provider cause)) after []
  /-- Every other plan is handed over in wire order, and the builder's result is the result. -/
  | handed {entries : List ReadInput} {handed : TxPlan} {between after : σ}
      {result : Except ProviderError UnsignedTx}
      (hread : ReadsLevels provider start plan.inputs (.ok entries) between)
      (hordered : handed = plan.inWireOrder entries) (hbalanced : handed.Balanced)
      (hbuilt : outcome (provider.buildUnsigned handed) between = (result, after)) :
      Builds provider plan start (result.mapError .provider) after [handed]

/-! ## Mixing private and pseudonymous entries -/

/-- The plans differ only in how private and pseudonymous entries are mixed. -/
structure TxPlan.Remixed (isPseudonym : TxInput → Bool) (plan other : TxPlan) : Prop where
  inputs : SameGroups isPseudonym plan.inputs other.inputs
  outputs : SameGroups (fun output => output.address.level.isPseudonym) plan.outputs other.outputs
  fee_eq : plan.fee = other.fee
  memo_eq : plan.memo = other.memo
  ringBlocks_eq : plan.ringBlocks = other.ringBlocks

namespace HashScheme

variable (supply : RandSupply)

/-- The scheme reads an input always or never. -/
theorem outputLevel_answers_of_read {start after : Tally} {inputs : List TxInput}
    {entries : List ReadInput}
    (h : ReadsLevels (provider supply) start inputs (.ok entries) after) :
    ∀ input ∈ inputs,
      Answers ((provider supply).outputLevel input.txVersion input.output) (levelOf input) := by
  cases h with
  | all hinputs hread =>
    intro input hmem
    rw [hinputs] at hmem
    obtain ⟨entry, hentry, rfl⟩ := List.mem_map.mp hmem
    obtain ⟨before, behind, hasked⟩ := hread.exists_step hentry
    obtain ⟨output, hparse, -⟩ := map_eq_ok_iff.mp (eq_ok_of_returns (.of_outcome hasked))
    exact outputLevel_answers supply hparse

variable {plan other : TxPlan}

/-- The plan that the scheme is handed. -/
def handedPlan (plan : TxPlan) : TxPlan :=
  plan.inWireOrder (plan.inputs.map fun input => ⟨levelOf input, input⟩)

theorem handedPlan_eq_of_remixed
    (h : plan.Remixed (fun input => (levelOf input).isPseudonym) other) :
    handedPlan plan = handedPlan other := by
  rw [handedPlan, handedPlan, TxPlan.inWireOrder, TxPlan.inWireOrder, orderedInputs_map,
    orderedInputs_map, h.inputs.privateFirst_eq, h.outputs.privateFirst_eq, h.fee_eq, h.memo_eq,
    h.ringBlocks_eq]

theorem buildUnsigned_answers (hplan : plan.Balanced)
    (hread : ∀ input ∈ plan.inputs,
      Answers ((provider supply).outputLevel input.txVersion input.output) (levelOf input)) :
    Answers (RingWallet.buildUnsigned (provider supply) plan)
      (buildUnsigned (handedPlan plan)) := by
  intro start
  obtain ⟨between, hlevels⟩ := readsLevels_of_answers hread start
  rw [outcome_buildUnsigned_of_ok hplan hlevels]
  exact consult_answers rfl between

/-- Only a plan that balances and can be read is built. -/
theorem of_returns_buildUnsigned {unsigned : UnsignedTx}
    (h : Returns (RingWallet.buildUnsigned (provider supply) plan) unsigned) :
    plan.Balanced ∧ ∀ input ∈ plan.inputs,
      Answers ((provider supply).outputLevel input.txVersion input.output) (levelOf input) := by
  obtain ⟨start, after, hbuilt⟩ := h
  by_cases hplan : plan.Balanced
  · obtain ⟨result, between, hread⟩ := exists_readsLevels (provider supply) start plan.inputs
    cases result with
    | error cause =>
      rw [outcome_buildUnsigned_of_error hplan hread] at hbuilt
      cases hbuilt
    | ok entries => exact ⟨hplan, outputLevel_answers_of_read supply hread⟩
  · obtain ⟨e, hrefused⟩ := outcome_buildUnsigned_of_unbalanced hplan
    rw [hrefused] at hbuilt
    cases hbuilt

/-- Remixing the entries of a plan leaves what the scheme builds from it. -/
theorem buildUnsigned_remixed (h : plan.Remixed (fun input => (levelOf input).isPseudonym) other)
    {unsigned : UnsignedTx}
    (hbuilt : Returns (RingWallet.buildUnsigned (provider supply) plan) unsigned) :
    Answers (RingWallet.buildUnsigned (provider supply) other) unsigned := by
  obtain ⟨hplan, hread⟩ := of_returns_buildUnsigned supply hbuilt
  have hother : other.Balanced := hplan.of_perm h.inputs.perm h.outputs.perm h.fee_eq
  have hotherRead : ∀ input ∈ other.inputs,
      Answers ((provider supply).outputLevel input.txVersion input.output) (levelOf input) :=
    fun input hmem => hread input (h.inputs.perm.mem_iff.mpr hmem)
  rw [(buildUnsigned_answers supply hplan hread).eq_of_returns hbuilt, handedPlan_eq_of_remixed h]
  exact buildUnsigned_answers supply hother hotherRead

end HashScheme

/-- No unsigned transaction makes or destroys money.

Whatever the provider and its state, its builder is handed one plan at most. That plan has inputs
and outputs, its inputs make up for its outputs and the fee as natural numbers, in a sum that fits a
word, and it is the given plan with the entries in wire order, the inputs by the levels that the
provider has just answered. The result is the builder's then; otherwise it is a failure. A plan is
not handed over exactly if it does not balance or an input of it cannot be read.

The stand-in scheme builds the same bytes from plans that differ only in how private and
pseudonymous entries are mixed. -/
theorem unsigned_tx_conserves_value (provider : Provider σ) (plan : TxPlan) :
    (∀ start, ∃ result after handed,
      outcome (buildUnsigned provider.keepingPlans plan) (start, []) = (result, after, handed) ∧
      outcome (buildUnsigned provider plan) start = (result, after) ∧
      Builds provider plan start result after handed) ∧
    ∀ (supply : HashScheme.RandSupply) (other : TxPlan),
      plan.Remixed (fun input => (HashScheme.levelOf input).isPseudonym) other → ∀ unsigned,
        Returns (buildUnsigned (HashScheme.provider supply) plan) unsigned →
          Answers (buildUnsigned (HashScheme.provider supply) other) unsigned := by
  constructor
  · intro start
    by_cases hplan : plan.Balanced
    · obtain ⟨result, between, hread⟩ := exists_readsLevels provider start plan.inputs
      cases result with
      | error cause =>
        exact ⟨_, _, _, outcome_buildUnsigned_of_error hplan (hread.keepingPlans []),
          outcome_buildUnsigned_of_error hplan hread, .unreadable hplan hread⟩
      | ok entries =>
        have hkept := outcome_buildUnsigned_of_ok hplan (hread.keepingPlans [])
        have hbuilt := outcome_buildUnsigned_of_ok hplan hread
        rw [outcome_consult, outcome_keepingPlans_buildUnsigned] at hkept
        rw [outcome_consult] at hbuilt
        exact ⟨_, _, _, hkept, hbuilt, .handed hread rfl (hplan.inWireOrder hread) rfl⟩
    · obtain ⟨e, hrefused⟩ := outcome_buildUnsigned_of_unbalanced hplan
      exact ⟨_, _, _, hrefused _ _ _, hrefused _ _ _, .unbalanced hplan⟩
  · intro supply other hremixed unsigned hbuilt
    exact HashScheme.buildUnsigned_remixed supply hremixed hbuilt

namespace HashScheme

theorem levelOf_inputOf (place : UInt8) (level : PrivacyLevel) :
    levelOf (inputOf place level) = level := by
  rw [levelOf, parse_inputOf]

/-- A plan with a fee of one and no memo. -/
def feeOnePlan (inputs : List TxInput) (outputs : List TxOutput) : TxPlan :=
  ⟨inputs, outputs, 1, [], .empty⟩

/-- Two inputs of ten make up for outputs of one and eighteen and the fee, and the same bytes are
built when inputs and outputs change places. -/
theorem small_plan_conserves_value :
    let pseudonymous := outputTo (.pseudonym (.replicate 64 1) (.replicate 64 2))
      (some (.replicate 64 3)) 1
    let legacy := outputTo (.legacy (.replicate 64 4) (.replicate 64 5)) none 18
    ∃ unsigned,
      Answers (RingWallet.buildUnsigned (provider countingSupply)
        (feeOnePlan [inputOf 1 .pseudonym, inputOf 2 .ringCt] [pseudonymous, legacy])) unsigned ∧
      Answers (RingWallet.buildUnsigned (provider countingSupply)
        (feeOnePlan [inputOf 2 .ringCt, inputOf 1 .pseudonym] [legacy, pseudonymous]))
        unsigned := by
  intro pseudonymous legacy
  let plan := feeOnePlan [inputOf 1 .pseudonym, inputOf 2 .ringCt] [pseudonymous, legacy]
  let other := feeOnePlan [inputOf 2 .ringCt, inputOf 1 .pseudonym] [legacy, pseudonymous]
  have hplan : plan.Balanced :=
    ⟨by simp [plan, feeOnePlan], by simp [plan, feeOnePlan], rfl, by decide⟩
  have hread : ∀ input ∈ plan.inputs,
      Answers ((provider countingSupply).outputLevel input.txVersion input.output)
        (levelOf input) := by
    simp only [plan, feeOnePlan, List.forall_mem_cons]
    exact ⟨outputLevel_answers _ (parse_inputOf 1 .pseudonym),
      outputLevel_answers _ (parse_inputOf 2 .ringCt), by simp⟩
  have hinputs :
      SameGroups (fun input => (levelOf input).isPseudonym) plan.inputs other.inputs := by
    constructor <;> simp [plan, other, feeOnePlan, levelOf_inputOf, PrivacyLevel.isPseudonym]
  have hremixed : plan.Remixed (fun input => (levelOf input).isPseudonym) other :=
    ⟨hinputs, ⟨rfl, rfl⟩, rfl, rfl, rfl⟩
  have hbuilt := buildUnsigned_answers countingSupply hplan hread
  have hconserves := unsigned_tx_conserves_value (provider countingSupply) plan
  exact ⟨_, hbuilt, hconserves.2 countingSupply other hremixed _ (hbuilt.returns .start)⟩

end HashScheme

end RingWallet
