import RingWallet.Proofs.HashScheme.Addresses
import RingWallet.Proofs.Transaction.WireOrder

/-!
# Sorting inputs and outputs

To sort inputs, a provider is asked for the privacy level of one after the other. It answers for all
of them, or it fails at one of them and has answered for those in front (`ReadsLevels`). Its answers
may depend on when it is asked.

Inputs that were all read are left in wire order, as outputs are, and the order depends only on the
private and on the pseudonymous ones among them (`wire_order_stable_partition`). A failure leaves no
input, so exactly the inputs that can all be read survive a sort (`failed_sort_keeps_nothing`).
-/

set_option autoImplicit false

namespace RingWallet

variable {σ : Type}

/-- An input with the level that its output was read with. -/
structure ReadInput where
  level : PrivacyLevel
  input : TxInput
  deriving DecidableEq

/-- Whether the output was read as pseudonymous. -/
def ReadInput.isPseudonym (entry : ReadInput) : Bool := entry.level.isPseudonym

/-- Asked for the level of an input's output, the provider answers it. -/
def ReadsLevel (provider : Provider σ) (entry : ReadInput) (before after : σ) : Prop :=
  outcome (provider.outputLevel entry.input.txVersion entry.input.output) before =
    (.ok entry.level, after)

/-- What comes of asking for the levels of inputs. -/
inductive ReadsLevels (provider : Provider σ) (start : σ) (inputs : List TxInput) :
    Except ProviderError (List ReadInput) → σ → Prop
  /-- The provider answers for every input. -/
  | all {entries : List ReadInput} {after : σ} (hinputs : inputs = entries.map (·.input))
      (hread : InTurn (ReadsLevel provider) start entries after) :
      ReadsLevels provider start inputs (.ok entries) after
  /-- The provider fails at an input and has answered for those in front of it. -/
  | failed {front : List ReadInput} {input : TxInput} {behind : List TxInput}
      {cause : ProviderError} {between after : σ}
      (hinputs : inputs = front.map (·.input) ++ input :: behind)
      (hfront : InTurn (ReadsLevel provider) start front between)
      (hfails : outcome (provider.outputLevel input.txVersion input.output) between =
        (.error cause, after)) :
      ReadsLevels provider start inputs (.error cause) after

/-- The inputs in wire order, by the levels that they were read with. -/
def orderedInputs (entries : List ReadInput) : List TxInput :=
  (privateFirst ReadInput.isPseudonym entries).map (·.input)

section

variable (provider : Provider σ)

/-- Asking goes on behind inputs that were answered for. -/
theorem exists_readsLevels_of_split {start between : σ} {front : List ReadInput}
    (hfront : InTurn (ReadsLevel provider) start front between) (rest : List TxInput) :
    ∃ result after, ReadsLevels provider start (front.map (·.input) ++ rest) result after := by
  -- The induction is on the inputs that are still to be asked for.
  induction rest generalizing front between with
  | nil => exact ⟨_, _, .all (List.append_nil _) hfront⟩
  | cons input rest ih =>
    rcases hasked : outcome (provider.outputLevel input.txVersion input.output) between with
      ⟨cause | level, after⟩
    · exact ⟨_, _, .failed rfl hfront hasked⟩
    · have hread : ReadsLevel provider ⟨level, input⟩ between after := hasked
      obtain ⟨result, last, h⟩ := ih (hfront.snoc hread)
      rw [List.map_append, List.append_assoc] at h
      exact ⟨result, last, h⟩

theorem exists_readsLevels (start : σ) (inputs : List TxInput) :
    ∃ result after, ReadsLevels provider start inputs result after :=
  exists_readsLevels_of_split provider .nil inputs

variable {provider}

/-- Nothing is asked for no inputs. -/
theorem ReadsLevels.ne_nil_of_error {start after : σ} {inputs : List TxInput}
    {cause : ProviderError} (h : ReadsLevels provider start inputs (.error cause) after) :
    inputs ≠ [] := by
  cases h with
  | failed hinputs => simp [hinputs]

/-! ## What sorting leaves -/

/-- Behind inputs that were answered for, reading goes on from where they left the provider. -/
theorem outcome_readPseudonymity_append {start between : σ} {front : List ReadInput}
    (hfront : InTurn (ReadsLevel provider) start front between) (rest : List TxInput) :
    outcome (readPseudonymity provider (front.map (·.input) ++ rest)) start =
      outcome (readPseudonymity provider rest >>= fun others =>
        pure (front.map (fun entry => (entry.isPseudonym, entry.input)) ++ others)) between := by
  induction hfront generalizing rest with
  | nil => simp
  | @snoc front last between after _ hlast ih =>
    have hread : outcome (consult (provider.outputLevel last.input.txVersion last.input.output))
        between = (.ok last.level, after) := by
      rw [outcome_consult, show outcome _ between = _ from hlast]
      rfl
    rw [List.map_append, List.append_assoc, List.map_singleton, List.singleton_append, ih,
      readPseudonymity, bind_assoc, outcome_bind_of_ok hread]
    simp [ReadInput.isPseudonym]

theorem ReadsLevels.outcome_of_ok {start after : σ} {inputs : List TxInput}
    {entries : List ReadInput} (h : ReadsLevels provider start inputs (.ok entries) after) :
    outcome (readPseudonymity provider inputs) start =
      (.ok (entries.map fun entry => (entry.isPseudonym, entry.input)), after) := by
  cases h with
  | all hinputs hread =>
    have happend := outcome_readPseudonymity_append hread []
    rw [List.append_nil, ← hinputs] at happend
    rw [happend, readPseudonymity]
    simp

theorem ReadsLevels.outcome_of_error {start after : σ} {inputs : List TxInput}
    {cause : ProviderError} (h : ReadsLevels provider start inputs (.error cause) after) :
    outcome (readPseudonymity provider inputs) start = (.error (.provider cause), after) := by
  cases h with
  | @failed front input behind _ between _ hinputs hfront hfails =>
    have hread : outcome (consult (provider.outputLevel input.txVersion input.output)) between =
        (.error (.provider cause), after) := by
      rw [outcome_consult, hfails]
      rfl
    rw [hinputs, outcome_readPseudonymity_append hfront, readPseudonymity, bind_assoc,
      outcome_bind_of_error hread]

/-- Inputs that were read are put back in wire order, and where reading fails, none is. -/
theorem sortInputs_run (inputs : List TxInput) (start : σ) :
    (sortInputs provider inputs).run start =
      match outcome (readPseudonymity provider inputs) start with
      | (.ok tagged, after) => ((.ok (), (wireOrder Prod.fst tagged).map Prod.snd), after)
      | (.error e, after) => ((.error e, []), after) := by
  -- The list is empty already when the first input is read.
  have hdrained : (sortInputs provider inputs).run start =
      let read := outcome (readPseudonymity provider inputs) start
      ((ExceptT.bindCont putBack read.1).run []).run read.2 := rfl
  rw [hdrained]
  rcases outcome (readPseudonymity provider inputs) start with ⟨e | tagged, after⟩
  · rfl
  · rfl

/-- Inputs that were all read are put in wire order by what they were read with. -/
theorem ReadsLevels.sortInputs_of_ok {start after : σ} {inputs : List TxInput}
    {entries : List ReadInput} (h : ReadsLevels provider start inputs (.ok entries) after) :
    (sortInputs provider inputs).run start = ((.ok (), orderedInputs entries), after) := by
  have hordered : (wireOrder Prod.fst
      (entries.map fun entry => (entry.isPseudonym, entry.input))).map Prod.snd =
        orderedInputs entries := by
    rw [wireOrder_eq, privateFirst_map, List.map_map]
    rfl
  rw [sortInputs_run, h.outcome_of_ok, ← hordered]

theorem ReadsLevels.perm_orderedInputs {start after : σ} {inputs : List TxInput}
    {entries : List ReadInput} (h : ReadsLevels provider start inputs (.ok entries) after) :
    (orderedInputs entries).Perm inputs := by
  cases h with
  | all hinputs =>
    rw [hinputs]
    exact (sameGroups_privateFirst entries).perm.map _

/-- Where an input cannot be read, no input is left. -/
theorem ReadsLevels.sortInputs_of_error {start after : σ} {inputs : List TxInput}
    {cause : ProviderError} (h : ReadsLevels provider start inputs (.error cause) after) :
    (sortInputs provider inputs).run start = ((.error (.provider cause), []), after) := by
  rw [sortInputs_run, h.outcome_of_error]

end

/-- A sort keeps its inputs, and loses none when it fails, exactly if all of them can be read.

Whatever the provider, a sort fails exactly if the provider fails at one of the inputs, when it has
answered for those in front of it. The error is the provider's, and the list that is left is empty,
though there was an input. -/
theorem failed_sort_keeps_nothing (provider : Provider σ) (start : σ) (inputs : List TxInput) :
    ((∀ e left after, (sortInputs provider inputs).run start = ((.error e, left), after) →
        left = inputs) ↔
      ∃ entries after, ReadsLevels provider start inputs (.ok entries) after) ∧
    ∀ e left after, (sortInputs provider inputs).run start = ((.error e, left), after) ↔
      left = [] ∧ ∃ cause, e = .provider cause ∧
        ReadsLevels provider start inputs (.error cause) after := by
  obtain ⟨result, last, hread⟩ := exists_readsLevels provider start inputs
  cases result with
  | ok entries =>
    have hsorted := hread.sortInputs_of_ok
    refine ⟨⟨fun _ => ⟨entries, last, hread⟩, fun _ e left after hfailed => ?_⟩,
      fun e left after => ⟨fun hfailed => ?_, ?_⟩⟩
    · rw [hsorted] at hfailed
      cases hfailed
    · rw [hsorted] at hfailed
      cases hfailed
    · rintro ⟨-, cause, -, hfailed⟩
      rw [hfailed.sortInputs_of_error] at hsorted
      cases hsorted
  | error cause =>
    have hsorted := hread.sortInputs_of_error
    refine ⟨⟨fun hkept => ?_, ?_⟩, fun e left after => ⟨fun hfailed => ?_, ?_⟩⟩
    · exact absurd (hkept _ _ _ hsorted).symm hread.ne_nil_of_error
    · rintro ⟨entries, after, hall⟩
      rw [hall.sortInputs_of_ok] at hsorted
      cases hsorted
    · rw [hsorted] at hfailed
      cases hfailed
      exact ⟨rfl, cause, rfl, hread⟩
    · rintro ⟨rfl, cause, rfl, hfailed⟩
      exact hfailed.sortInputs_of_error

namespace HashScheme

/-- The level that the scheme reads an input's output with; full privacy where it reads none. -/
def levelOf (input : TxInput) : PrivacyLevel :=
  match Output.parse input.output with
  | .ok output => output.level
  | .error _ => .ringCt

theorem outputLevel_answers (supply : RandSupply) {input : TxInput} {output : Output}
    (h : Output.parse input.output = .ok output) :
    Answers ((provider supply).outputLevel input.txVersion input.output) (levelOf input) := by
  apply answer_answers
  rw [levelOf, h]
  rfl

/-- An input of ten that spends an output of a level. -/
def inputOf (place : UInt8) (level : PrivacyLevel) : TxInput where
  height := 0
  blockHash := .zero .block
  txVersion := 1
  coin := ⟨⟨.replicate 32 place⟩, 0⟩
  output := (Output.mk level (List.replicate 8 place) 10).serialize
  value := 10
  serialNumber := [place]

theorem parse_inputOf (place : UInt8) (level : PrivacyLevel) :
    Output.parse (inputOf place level).output = .ok ⟨level, List.replicate 8 place, 10⟩ :=
  Output.parse_serialize (by simp [UInt32.size])

/-- A readable input, an input whose output has no bytes, and another readable one. -/
def gappedInputs : List TxInput :=
  [inputOf 1 .pseudonym, { inputOf 2 .ringCt with output := [] }, inputOf 3 .ringCt]

/-- A failed sort loses the input it has read, the one it fails at and the one behind. -/
theorem not_every_failed_sort_keeps_inputs :
    ¬ ∀ e left after, (sortInputs (provider countingSupply) gappedInputs).run .start =
      ((.error e, left), after) → left = gappedInputs := by
  intro hkept
  obtain ⟨between, hfirst⟩ :=
    outputLevel_answers countingSupply (parse_inputOf 1 .pseudonym) .start
  have hfront : InTurn (ReadsLevel (provider countingSupply)) .start
      [⟨.pseudonym, inputOf 1 .pseudonym⟩] between := InTurn.nil.snoc hfirst
  have hfails : outcome ((provider countingSupply).outputLevel 1 []) between =
      (.error Failure.malformedOutput.toProviderError,
        { between with calls := between.calls + 1 }) :=
    outcome_answer ((Output.parse []).map (·.level)) between
  have hread : ReadsLevels (provider countingSupply) .start gappedInputs _ _ :=
    .failed rfl hfront hfails
  exact absurd (hkept _ _ _ hread.sortInputs_of_error) (by simp [gappedInputs])

end HashScheme

/-! ## Levels that are always the same -/

section

variable {provider : Provider σ} {level : TxInput → PrivacyLevel} {inputs : List TxInput}

/-- Inputs whose levels the provider answers at any time are all read with these levels. -/
theorem readsLevels_of_answers
    (h : ∀ input ∈ inputs,
      Answers (provider.outputLevel input.txVersion input.output) (level input))
    (start : σ) :
    ∃ after, ReadsLevels provider start inputs
      (.ok (inputs.map fun input => ⟨level input, input⟩)) after := by
  obtain ⟨result, after, hread⟩ := exists_readsLevels provider start inputs
  cases hread with
  | @all entries _ hinputs hread =>
    -- Each level that was read is the one that is always answered.
    have hlevels : ∀ entry ∈ entries,
        (⟨level entry.input, entry.input⟩ : ReadInput) = id entry := by
      intro entry hentry
      obtain ⟨before, behind, hasked⟩ := hread.exists_step hentry
      have hmem : entry.input ∈ inputs := hinputs ▸ List.mem_map_of_mem hentry
      have hlevel : entry.level = level entry.input :=
        (h entry.input hmem).eq_of_returns (.of_outcome hasked)
      rw [← hlevel, id]
    have hentries : inputs.map (fun input => (⟨level input, input⟩ : ReadInput)) = entries := by
      rw [hinputs, List.map_map]
      exact (List.map_congr_left hlevels).trans (List.map_id entries)
    rw [hentries]
    exact ⟨after, .all hinputs hread⟩
  | @failed front input behind cause between _ hinputs hfront hfails =>
    obtain ⟨other, hanswer⟩ := h input (by simp [hinputs]) between
    rw [hfails] at hanswer
    cases hanswer

theorem orderedInputs_map (level : TxInput → PrivacyLevel) (inputs : List TxInput) :
    orderedInputs (inputs.map fun input => ⟨level input, input⟩) =
      privateFirst (fun input => (level input).isPseudonym) inputs := by
  rw [orderedInputs, privateFirst_map, List.map_map]
  exact List.map_id' _

/-- The sort succeeds from every state of the provider and leaves a list. -/
def SortsTo (provider : Provider σ) (inputs ordered : List TxInput) : Prop :=
  ∀ start, ∃ after, (sortInputs provider inputs).run start = ((.ok (), ordered), after)

theorem sortsTo_privateFirst
    (h : ∀ input ∈ inputs,
      Answers (provider.outputLevel input.txVersion input.output) (level input)) :
    SortsTo provider inputs (privateFirst (fun input => (level input).isPseudonym) inputs) := by
  intro start
  obtain ⟨after, hread⟩ := readsLevels_of_answers h start
  exact ⟨after, by rw [hread.sortInputs_of_ok, orderedInputs_map]⟩

end

/-- Sorting is a stable partition.

Inputs that the provider reads from where the sort starts, whatever it answers at other times, are
left as the ones read as private in their given order, with those read as pseudonymous in theirs
behind, and so are outputs. Both are rearrangements. Where the provider always answers the same
levels, sorting a sorted list leaves it as it is, and lists that agree on their private entries and
on their pseudonymous ones are sorted to one list. -/
theorem wire_order_stable_partition (provider : Provider σ) (inputs : List TxInput)
    (outputs : List TxOutput) :
    (∀ start entries after, ReadsLevels provider start inputs (.ok entries) after →
      (sortInputs provider inputs).run start = ((.ok (), orderedInputs entries), after) ∧
      (orderedInputs entries).Perm inputs) ∧
    (∀ level : TxInput → PrivacyLevel,
      (∀ input ∈ inputs,
        Answers (provider.outputLevel input.txVersion input.output) (level input)) →
      let isPseudonym := fun input => (level input).isPseudonym
      SortsTo provider inputs (privateFirst isPseudonym inputs) ∧
      SortsTo provider (privateFirst isPseudonym inputs) (privateFirst isPseudonym inputs) ∧
      ∀ others, SameGroups isPseudonym inputs others →
        SortsTo provider others (privateFirst isPseudonym inputs)) ∧
    let isPseudonym := fun output : TxOutput => output.address.level.isPseudonym
    sortOutputs outputs = privateFirst isPseudonym outputs ∧
    (sortOutputs outputs).Perm outputs ∧ sortOutputs (sortOutputs outputs) = sortOutputs outputs ∧
    ∀ others, SameGroups isPseudonym outputs others → sortOutputs others = sortOutputs outputs := by
  refine ⟨fun start entries after hread => ⟨hread.sortInputs_of_ok, hread.perm_orderedInputs⟩,
    fun level hread => ?inputs, wireOrder_eq outputs, perm_wireOrder outputs,
    wireOrder_idem outputs, fun others hsame => hsame.symm.wireOrder_eq⟩
  intro isPseudonym
  -- Every list with the groups of the inputs has their members, so it can be read as well.
  have hsorts : ∀ others, SameGroups isPseudonym inputs others →
      SortsTo provider others (privateFirst isPseudonym inputs) := by
    intro others hsame
    rw [hsame.privateFirst_eq]
    exact sortsTo_privateFirst fun input hmem => hread input (hsame.perm.mem_iff.mpr hmem)
  exact ⟨sortsTo_privateFirst hread, hsorts _ (sameGroups_privateFirst inputs).symm, hsorts⟩

namespace HashScheme

/-- An output of an amount to the address of key seeds. -/
def outputTo (keys : KeySeeds) (publicRand? : Option SeedField) (value : UInt64) : TxOutput :=
  ⟨⟨.main, addressOf keys publicRand?⟩, value⟩

/-- Two pseudonymous inputs in front of a private one each, and a pseudonymous output in front of a
private one. -/
theorem mixed_entries_sorted :
    let pseudonymous := outputTo (.pseudonym (.replicate 64 1) (.replicate 64 2))
      (some (.replicate 64 3)) 1
    let legacy := outputTo (.legacy (.replicate 64 4) (.replicate 64 5)) none 2
    SortsTo (provider countingSupply)
      [inputOf 1 .pseudonym, inputOf 2 .ringCt, inputOf 3 .pseudonym, inputOf 4 .ringCtPre]
      [inputOf 2 .ringCt, inputOf 4 .ringCtPre, inputOf 1 .pseudonym, inputOf 3 .pseudonym] ∧
    sortOutputs [pseudonymous, legacy] = [legacy, pseudonymous] := by
  intro pseudonymous legacy
  have hread : ∀ input ∈
      [inputOf 1 .pseudonym, inputOf 2 .ringCt, inputOf 3 .pseudonym, inputOf 4 .ringCtPre],
      Answers ((provider countingSupply).outputLevel input.txVersion input.output)
        (levelOf input) := by
    simp only [List.forall_mem_cons]
    exact ⟨outputLevel_answers _ (parse_inputOf 1 .pseudonym),
      outputLevel_answers _ (parse_inputOf 2 .ringCt),
      outputLevel_answers _ (parse_inputOf 3 .pseudonym),
      outputLevel_answers _ (parse_inputOf 4 .ringCtPre), by simp⟩
  obtain ⟨-, hinputs, houtputs, -⟩ :=
    wire_order_stable_partition (provider countingSupply) _ [pseudonymous, legacy]
  exact ⟨(hinputs levelOf hread).1, houtputs⟩

end HashScheme

end RingWallet
