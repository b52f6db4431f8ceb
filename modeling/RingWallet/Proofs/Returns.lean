import RingWallet.Proofs.Outcome

/-!
# Values that operations can return

An operation can return a value if it does so from some state (`Returns`). It echoes another one if
whatever it can return, the other returns from every state (`Echoes`): it may fail where the other
does not, but where it answers, both agree. An operation that echoes itself returns the same value
from every state, or none at all.
-/

set_option autoImplicit false

namespace RingWallet

variable {ε σ α β : Type}

/-- The operation returns the value from some state. -/
def Returns (op : ExceptT ε (StateM σ) α) (a : α) : Prop :=
  ∃ state after, outcome op state = (.ok a, after)

namespace Returns

theorem of_outcome {op : ExceptT ε (StateM σ) α} {state after : σ} {a : α}
    (h : outcome op state = (.ok a, after)) : Returns op a :=
  ⟨state, after, h⟩

theorem bind {op : ExceptT ε (StateM σ) α} {next : α → ExceptT ε (StateM σ) β} {b : β}
    (h : Returns (op >>= next) b) : ∃ a, Returns op a ∧ Returns (next a) b := by
  obtain ⟨state, after, h⟩ := h
  obtain ⟨a, between, hop, hnext⟩ := outcome_bind_eq_ok h
  exact ⟨a, .of_outcome hop, .of_outcome hnext⟩

theorem eq_of_pure {a b : α} (h : Returns (pure a : ExceptT ε (StateM σ) α) b) : b = a := by
  obtain ⟨state, after, h⟩ := h
  cases h
  rfl

theorem not_throw {e : ε} {a : α} : ¬ Returns (throw e : ExceptT ε (StateM σ) α) a := by
  rintro ⟨state, after, h⟩
  cases h

/-- Behind a check that throws, the check has passed. -/
theorem of_check {check : Prop} [Decidable check] {e : ε} {op : ExceptT ε (StateM σ) α}
    {next : β → ExceptT ε (StateM σ) α} {a : α}
    (h : Returns (if check then op else throw e >>= next) a) : check ∧ Returns op a := by
  split at h
  · exact ⟨‹check›, h⟩
  · obtain ⟨_, h, -⟩ := h.bind
    exact absurd h not_throw

theorem of_adapt {ε' : Type} {f : ε → ε'} {op : ExceptT ε (StateM σ) α} {a : α}
    (h : Returns (op.adapt f) a) : Returns op a := by
  obtain ⟨state, after, h⟩ := h
  rw [outcome_adapt] at h
  obtain ⟨hresult, rfl⟩ := Prod.mk.inj h
  rcases hop : outcome op state with ⟨result, between⟩
  rw [hop] at hresult
  cases result with
  | error e => cases hresult
  | ok value =>
    cases hresult
    exact .of_outcome hop

theorem of_lift {result : Except ε α} {a : α}
    (h : Returns (liftM result : ExceptT ε (StateM σ) α) a) : result = .ok a := by
  obtain ⟨state, after, h⟩ := h
  rw [outcome_lift] at h
  exact (Prod.mk.inj h).1

end Returns

/-- What an operation outside the store returns to tracking, it returned. -/
theorem TrackM.returns_of_outside {op : WalletM σ α} {a : α} (h : Returns (TrackM.outside op) a) :
    Returns op a := by
  obtain ⟨state, after, h⟩ := h
  have hresult : (outcome op state.outside).1 = .ok a := congrArg Prod.fst h
  exact .of_outcome (Prod.ext hresult rfl)

/-- The operation fails from every state. -/
def Fails (op : ExceptT ε (StateM σ) α) : Prop :=
  ∀ state, ∃ e after, outcome op state = (.error e, after)

/-- An operation that can return nothing fails. -/
theorem Fails.of_not_returns {op : ExceptT ε (StateM σ) α} (h : ∀ a, ¬ Returns op a) : Fails op := by
  intro state
  rcases hop : outcome op state with ⟨result, after⟩
  cases result with
  | error e => exact ⟨e, after, rfl⟩
  | ok a => exact absurd (.of_outcome hop) (h a)

/-- An operation fails from every state exactly if it can return nothing. -/
theorem fails_iff {op : ExceptT ε (StateM σ) α} : Fails op ↔ ¬ ∃ a, Returns op a := by
  constructor
  · rintro hfails ⟨a, state, after, hreturned⟩
    obtain ⟨e, other, hfailed⟩ := hfails state
    rw [hfailed] at hreturned
    cases hreturned
  · intro hnone
    exact .of_not_returns fun a hreturns => hnone ⟨a, hreturns⟩

/-- An operation that answers a value returns it, as there is a state to ask it in. -/
theorem Answers.returns {op : ExceptT ε (StateM σ) α} {a : α} (h : Answers op a) (state : σ) :
    Returns op a :=
  ⟨state, h state⟩

/-- An operation that answers a value returns no other. -/
theorem Answers.eq_of_returns {op : ExceptT ε (StateM σ) α} {a b : α} (h : Answers op a)
    (hreturns : Returns op b) : b = a := by
  obtain ⟨state, after, hreturns⟩ := hreturns
  obtain ⟨other, h⟩ := h state
  rw [h] at hreturns
  cases hreturns
  rfl

/-- What the first operation can return, the second returns from every state. -/
def Echoes (op good : ExceptT ε (StateM σ) α) : Prop := ∀ a, Returns op a → Answers good a

namespace Echoes

theorem pure (a : α) :
    Echoes (Pure.pure a : ExceptT ε (StateM σ) α) (Pure.pure a) := by
  intro b h
  cases h.eq_of_pure
  exact .pure a

/-- A failure echoes anything. -/
theorem throw (e : ε) (good : ExceptT ε (StateM σ) α) : Echoes (MonadExcept.throw e) good :=
  fun _ h => absurd h Returns.not_throw

theorem bind {op good : ExceptT ε (StateM σ) α} {next goodNext : α → ExceptT ε (StateM σ) β}
    (hop : Echoes op good) (hnext : ∀ a, Echoes (next a) (goodNext a)) :
    Echoes (op >>= next) (good >>= goodNext) := by
  intro b h
  -- Whatever was returned in between is what the good operation returns there.
  obtain ⟨a, ha, hb⟩ := h.bind
  exact (hop a ha).bind (hnext a b hb)

theorem adapt {ε' : Type} {op good : ExceptT ε (StateM σ) α} (h : Echoes op good) (f : ε → ε') :
    Echoes (op.adapt f) (good.adapt f) :=
  fun a ha => (h a ha.of_adapt).adapt f

theorem consult {call good : ProviderM σ α} (h : Echoes call good) :
    Echoes (RingWallet.consult call) (RingWallet.consult good) :=
  h.adapt _

theorem lift (result : Except ε α) :
    Echoes (liftM result : ExceptT ε (StateM σ) α) (liftM result) :=
  fun _ h => .lift h.of_lift

end Echoes

/-- An operation that echoes itself answers a value if it can return one at all. -/
theorem Echoes.exists_answers_iff {op : ExceptT ε (StateM σ) α} (h : Echoes op op) (start : σ) :
    (∃ a, Answers op a) ↔ ∃ a, Returns op a := by
  constructor
  · rintro ⟨a, ha⟩
    exact ⟨a, ha.returns start⟩
  · rintro ⟨a, ha⟩
    exact ⟨a, h a ha⟩

/-- An operation that echoes itself returns one value at most. -/
theorem Echoes.returns_unique {op : ExceptT ε (StateM σ) α} (h : Echoes op op) {a b : α}
    (ha : Returns op a) (hb : Returns op b) : a = b :=
  (h b hb).eq_of_returns ha

end RingWallet
