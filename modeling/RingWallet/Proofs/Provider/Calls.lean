import RingWallet.Proofs.Returns
import RingWallet.Provider

/-!
# The calls that an operation makes

What an operation asks can be read on a provider that notes every call, with its arguments, behind
the calls before it (`Provider.noting`). It answers as the provider below does, so the notes of an
operation are the calls it makes there, in order (`callsOf`).

A note is never taken back, whatever follows a call. So an operation that begins with a call
(`BeginsWith`) has made it in the end, whether it comes to a result or fails. An operation that
calls nothing comes to its result by itself (`callsOf_eq_nil_iff`).
-/

set_option autoImplicit false

namespace RingWallet

variable {ε σ α β : Type}

/-! ## Providers that note their calls -/

/-- A call of a provider, with what it is asked about. -/
inductive ProviderCall
  | derive (seed : Seed)
  | deriveFromRand (root : RootSeed) (publicRand : Bytes)
  | randomize (root : RootSeed) (publicRand : Bytes)
  | publicRandOf (address : Bytes)
  | splitAddress (address : Bytes)
  | validateAddress (address : Bytes)
  | outputLevel (txVersion : UInt32) (output : Bytes)
  | outputCoinAddress (txVersion : UInt32) (output : Bytes)
  | detect (txVersion : UInt32) (output detector : Bytes)
  | valueByRoot (txVersion : UInt32) (output : Bytes) (value? : Option Bytes) (detector : Bytes)
  | valueByKeys (txVersion : UInt32) (output address viewKey : Bytes)
  | serialNumbers (coins : List CoinId) (ring : RingContext) (key : SerialNumberKey)
  | buildRings (blocks : List Bytes)
  | buildUnsigned (plan : TxPlan)
  | sign (unsigned : UnsignedTx) (signers : SignerMaterial)

/-- A state with the calls that were made so far. -/
abbrev Noted (σ : Type) := σ × List ProviderCall

/-- A call that is noted behind the calls before it, whatever comes of it. -/
def ProviderM.noted (entry : ProviderCall) (call : ProviderM σ α) : ProviderM (Noted σ) α :=
  ExceptT.mk fun (inner, calls) =>
    let (result, inner) := call.run.run inner
    (result, (inner, calls ++ [entry]))

/-- A provider that notes its calls and answers as another one. -/
def Provider.noting (provider : Provider σ) : Provider (Noted σ) where
  derive seed := (provider.derive seed).noted (.derive seed)
  deriveFromRand root rand := (provider.deriveFromRand root rand).noted (.deriveFromRand root rand)
  randomize root rand := (provider.randomize root rand).noted (.randomize root rand)
  publicRandOf address := (provider.publicRandOf address).noted (.publicRandOf address)
  splitAddress address := (provider.splitAddress address).noted (.splitAddress address)
  validateAddress address := (provider.validateAddress address).noted (.validateAddress address)
  outputLevel version output :=
    (provider.outputLevel version output).noted (.outputLevel version output)
  outputCoinAddress version output :=
    (provider.outputCoinAddress version output).noted (.outputCoinAddress version output)
  detect version output detector :=
    (provider.detect version output detector).noted (.detect version output detector)
  valueByRoot version output value? detector :=
    (provider.valueByRoot version output value? detector).noted
      (.valueByRoot version output value? detector)
  valueByKeys version output address viewKey :=
    (provider.valueByKeys version output address viewKey).noted
      (.valueByKeys version output address viewKey)
  serialNumbers coins ring key :=
    (provider.serialNumbers coins ring key).noted (.serialNumbers coins ring key)
  buildRings blocks := (provider.buildRings blocks).noted (.buildRings blocks)
  buildUnsigned plan := (provider.buildUnsigned plan).noted (.buildUnsigned plan)
  sign unsigned signers := (provider.sign unsigned signers).noted (.sign unsigned signers)

/-- The calls that an operation makes to a provider, in order. -/
def callsOf (op : (τ : Type) → Provider τ → WalletM τ α) (provider : Provider σ) (start : σ) :
    List ProviderCall :=
  (outcome (op _ provider.noting) (start, [])).2.2

/-- A noted call comes to what the call comes to, and its note is the last. -/
theorem outcome_noted (entry : ProviderCall) (call : ProviderM σ α) (inner : σ)
    (calls : List ProviderCall) :
    outcome (call.noted entry) (inner, calls) =
      ((outcome call inner).1, (outcome call inner).2, calls ++ [entry]) :=
  rfl

theorem outcome_consult_noted (entry : ProviderCall) (call : ProviderM σ α) (inner : σ)
    (calls : List ProviderCall) :
    outcome (consult (call.noted entry)) (inner, calls) =
      ((outcome call inner).1.mapError .provider, (outcome call inner).2, calls ++ [entry]) := by
  rw [outcome_consult, outcome_noted]

theorem calls_ne_nil_of_noted {entry : ProviderCall} {call : ProviderM σ α}
    {before after : Noted σ} {result : Except ProviderError α}
    (h : outcome (call.noted entry) before = (result, after)) : after.2 ≠ [] := by
  obtain ⟨inner, calls⟩ := before
  rw [outcome_noted] at h
  cases h
  exact List.append_ne_nil_of_right_ne_nil _ (List.cons_ne_nil _ _)

/-! ## What is noted first -/

/-- The operation begins with the given calls, and takes back no note. -/
def BeginsWith (first : List ProviderCall) (op : ExceptT ε (StateM (Noted σ)) α) : Prop :=
  ∀ state, state.2 ++ first <+: (outcome op state).2.2

namespace BeginsWith

/-- Without calls, the notes stay as they are. -/
theorem lift (result : Except ε α) :
    BeginsWith [] (liftM result : ExceptT ε (StateM (Noted σ)) α) :=
  fun state => (List.append_nil state.2).symm ▸ List.prefix_rfl

theorem pure (a : α) : BeginsWith [] (Pure.pure a : ExceptT ε (StateM (Noted σ)) α) :=
  .lift (.ok a)

theorem consult (entry : ProviderCall) (call : ProviderM σ α) :
    BeginsWith [entry] (RingWallet.consult (call.noted entry)) :=
  fun _ => List.prefix_rfl

/-- Whatever stands first is only added to. -/
theorem nil {first : List ProviderCall} {op : ExceptT ε (StateM (Noted σ)) α}
    (h : BeginsWith first op) : BeginsWith [] op := by
  intro state
  rw [List.append_nil]
  exact (List.prefix_append _ _).trans (h state)

theorem bind {first : List ProviderCall} {op : ExceptT ε (StateM (Noted σ)) α}
    {next : α → ExceptT ε (StateM (Noted σ)) β} (hop : BeginsWith first op)
    (hnext : ∀ a, BeginsWith [] (next a)) : BeginsWith first (op >>= next) := by
  intro state
  have hfirst := hop state
  rcases houtcome : outcome op state with ⟨e | a, between⟩
  · rw [houtcome] at hfirst
    rw [outcome_bind_of_error houtcome]
    exact hfirst
  · rw [houtcome] at hfirst
    rw [outcome_bind_of_ok houtcome]
    have hrest := hnext a between
    rw [List.append_nil] at hrest
    exact hfirst.trans hrest

/-- A check that throws calls nothing. -/
theorem check {check : Prop} [Decidable check] {e : ε} {op : ExceptT ε (StateM (Noted σ)) α}
    {next : β → ExceptT ε (StateM (Noted σ)) α} (hop : BeginsWith [] op) :
    BeginsWith [] (if check then op else throw e >>= next) := by
  split
  · exact hop
  · exact lift (.error e)

end BeginsWith

section

variable {op : (τ : Type) → Provider τ → WalletM τ α} {provider : Provider σ} {start : σ}

theorem BeginsWith.prefix_callsOf {first : List ProviderCall}
    (h : BeginsWith first (op _ provider.noting)) : first <+: callsOf op provider start :=
  h (start, [])

/-- An operation is ready for the provider if it calls it, and only then, if it comes to a result by
itself whenever it is not. -/
theorem callsOf_eq_nil_iff {ready : Prop} (hready : ready → callsOf op provider start ≠ [])
    (hrefused : ¬ ready → ∃ result, op _ provider.noting = liftM (result : Except WalletError α)) :
    callsOf op provider start = [] ↔ ¬ ready := by
  constructor
  · exact fun hcalls h => hready h hcalls
  · intro h
    obtain ⟨result, hresult⟩ := hrefused h
    rw [callsOf, hresult]
    rfl

/-- The same for an operation whose first call is known. -/
theorem callsOf_eq_nil_iff_of_first {ready : Prop}
    (hready : ready → ∃ entry, BeginsWith [entry] (op _ provider.noting))
    (hrefused : ¬ ready → ∃ result, op _ provider.noting = liftM (result : Except WalletError α)) :
    callsOf op provider start = [] ↔ ¬ ready := by
  refine callsOf_eq_nil_iff (fun h => ?_) hrefused
  obtain ⟨entry, hfirst⟩ := hready h
  exact hfirst.prefix_callsOf.ne_nil (List.cons_ne_nil _ _)

end

end RingWallet
