import RingWallet.Tracker.State

/-!
# Outcomes of operations

Provider calls, wallet operations and tracking operations may all fail and leave a state behind in
either case. `outcome` gives both, with one equation for each way of building an operation. A list is
worked off element by element (`InTurn`).

An operation *answers* a value if it returns that value from every state (`Answers`). Operations
over a provider that only counts its calls are of this kind, so a chain of them can be followed
without naming the states in between.
-/

set_option autoImplicit false

namespace RingWallet

variable {ε σ α β : Type}

/-- The result of an operation and the state it leaves. -/
def outcome (op : ExceptT ε (StateM σ) α) (state : σ) : Except ε α × σ := op.run.run state

@[simp] theorem outcome_pure (a : α) (state : σ) :
    outcome (pure a : ExceptT ε (StateM σ) α) state = (.ok a, state) := rfl

@[simp] theorem outcome_throw (e : ε) (state : σ) :
    outcome (throw e : ExceptT ε (StateM σ) α) state = (.error e, state) := rfl

/-- A failure of the first operation is the outcome; otherwise the second runs behind it. -/
theorem outcome_bind (op : ExceptT ε (StateM σ) α) (next : α → ExceptT ε (StateM σ) β)
    (state : σ) :
    outcome (op >>= next) state =
      match outcome op state with
      | (.ok a, after) => outcome (next a) after
      | (.error e, after) => (.error e, after) := by
  change (ExceptT.bind op next).run.run state = _
  unfold outcome ExceptT.bind
  change (match op.run.run state with
    | (r, after) => (ExceptT.bindCont next r).run after) = _
  rcases op.run.run state with ⟨result, after⟩
  cases result <;> rfl

theorem outcome_bind_of_ok {op : ExceptT ε (StateM σ) α} {state after : σ} {a : α}
    (h : outcome op state = (.ok a, after)) (next : α → ExceptT ε (StateM σ) β) :
    outcome (op >>= next) state = outcome (next a) after := by
  rw [outcome_bind, h]

theorem outcome_bind_of_error {op : ExceptT ε (StateM σ) α} {state after : σ} {e : ε}
    (h : outcome op state = (.error e, after)) (next : α → ExceptT ε (StateM σ) β) :
    outcome (op >>= next) state = (.error e, after) := by
  rw [outcome_bind, h]

/-- What a chain of two operations returned was returned by the second behind the first. -/
theorem outcome_bind_eq_ok {op : ExceptT ε (StateM σ) α} {next : α → ExceptT ε (StateM σ) β}
    {state after : σ} {b : β} (h : outcome (op >>= next) state = (.ok b, after)) :
    ∃ a between, outcome op state = (.ok a, between) ∧
      outcome (next a) between = (.ok b, after) := by
  rw [outcome_bind] at h
  rcases hop : outcome op state with ⟨result, between⟩
  rw [hop] at h
  cases result with
  | error e => cases h
  | ok a => exact ⟨a, between, rfl, h⟩

/-- Dropping what an operation returns keeps the state behind it. -/
theorem snd_outcome_discard (op : ExceptT ε (StateM σ) α) (state : σ) :
    (outcome (op >>= fun _ => pure ()) state).2 = (outcome op state).2 := by
  rw [outcome_bind]
  rcases outcome op state with ⟨_ | _, _⟩ <;> rfl

/-- A result that was computed without the outside world. -/
theorem outcome_lift (result : Except ε α) (state : σ) :
    outcome (liftM result : ExceptT ε (StateM σ) α) state = (result, state) := rfl

/-- A step that cannot fail. -/
theorem outcome_liftState (op : StateM σ α) (state : σ) :
    outcome (liftM op : ExceptT ε (StateM σ) α) state =
      (.ok (op.run state).1, (op.run state).2) := rfl

theorem outcome_adapt {ε' : Type} (f : ε → ε') (op : ExceptT ε (StateM σ) α) (state : σ) :
    outcome (op.adapt f) state = ((outcome op state).1.mapError f, (outcome op state).2) := by
  unfold outcome ExceptT.adapt
  rfl

theorem outcome_consult (call : ProviderM σ α) (state : σ) :
    outcome (consult call) state =
      ((outcome call state).1.mapError .provider, (outcome call state).2) :=
  outcome_adapt _ call state

/-! ## One after the other -/

/-- A list is worked off from a start, one step for each of its elements in order. -/
inductive InTurn (step : α → σ → σ → Prop) (start : σ) : List α → σ → Prop
  | nil : InTurn step start [] start
  | snoc {front : List α} {last : α} {between after : σ} (hfront : InTurn step start front between)
      (hlast : step last between after) : InTurn step start (front ++ [last]) after

theorem InTurn.cons {step : α → σ → σ → Prop} {first : α} {rest : List α} {start between after : σ}
    (hfirst : step first start between) (hrest : InTurn step between rest after) :
    InTurn step start (first :: rest) after := by
  induction hrest with
  | nil => exact InTurn.nil.snoc hfirst
  | snoc _ hlast ih => exact ih.snoc hlast

/-- Every element has had its step. -/
theorem InTurn.exists_step {step : α → σ → σ → Prop} {start after : σ} {list : List α}
    (h : InTurn step start list after) {member : α} (hmem : member ∈ list) :
    ∃ before behind, step member before behind := by
  induction h with
  | nil => cases hmem
  | snoc _ hlast ih =>
    rcases List.mem_append.mp hmem with hfront | hmem
    · exact ih hfront
    · cases List.mem_singleton.mp hmem
      exact ⟨_, _, hlast⟩

/-! ## Tracking operations -/

namespace TrackM

@[simp] theorem outcome_outside (op : WalletM σ α) (state : TrackState σ) :
    outcome (TrackM.outside op) state =
      ((outcome op state.outside).1, { state with outside := (outcome op state.outside).2 }) := rfl

theorem outcome_outside_of_ok {op : WalletM σ α} {state : TrackState σ} {after : σ} {a : α}
    (h : outcome op state.outside = (.ok a, after)) :
    outcome (TrackM.outside op) state = (.ok a, { state with outside := after }) := by
  rw [outcome_outside, h]

theorem outcome_outside_of_error {op : WalletM σ α} {state : TrackState σ} {after : σ}
    {e : WalletError} (h : outcome op state.outside = (.error e, after)) :
    outcome (TrackM.outside op) state = (.error e, { state with outside := after }) := by
  rw [outcome_outside, h]

@[simp] theorem outcome_onStore (change : CoinStore → α × CoinStore) (state : TrackState σ) :
    outcome (TrackM.onStore change) state =
      (.ok (change state.store).1, { state with store := (change state.store).2 }) := rfl

@[simp] theorem outcome_readStore (look : CoinStore → α) (state : TrackState σ) :
    outcome (TrackM.readStore look) state = (.ok (look state.store), state) := rfl

theorem outcome_tryStore (change : CoinStore → Except WalletError CoinStore)
    (state : TrackState σ) :
    outcome (TrackM.tryStore change : TrackM σ Unit) state =
      match change state.store with
      | .ok store => (.ok (), { state with store })
      | .error e => (.error e, state) := by
  change (match change state.store with
    | .ok store => (Except.ok (), { state with store })
    | .error e => (.error e, state)) = _
  cases change state.store <;> rfl

end TrackM

/-! ## Operations that answer from every state -/

/-- The operation returns the value from every state. -/
def Answers (op : ExceptT ε (StateM σ) α) (a : α) : Prop :=
  ∀ state, ∃ after, outcome op state = (.ok a, after)

namespace Answers

theorem pure (a : α) : Answers (Pure.pure a : ExceptT ε (StateM σ) α) a :=
  fun state => ⟨state, rfl⟩

theorem bind {op : ExceptT ε (StateM σ) α} {next : α → ExceptT ε (StateM σ) β} {a : α} {b : β}
    (hop : Answers op a) (hnext : Answers (next a) b) : Answers (op >>= next) b := by
  intro state
  obtain ⟨between, h⟩ := hop state
  rw [outcome_bind_of_ok h]
  exact hnext between

theorem adapt {ε' : Type} {op : ExceptT ε (StateM σ) α} {a : α} (h : Answers op a) (f : ε → ε') :
    Answers (op.adapt f) a := by
  intro state
  obtain ⟨after, h⟩ := h state
  refine ⟨after, ?_⟩
  rw [outcome_adapt, h]
  rfl

theorem consult {call : ProviderM σ α} {a : α} (h : Answers call a) :
    Answers (RingWallet.consult call) a :=
  h.adapt _

theorem lift {result : Except ε α} {a : α} (h : result = .ok a) :
    Answers (liftM result : ExceptT ε (StateM σ) α) a := by
  intro state
  rw [outcome_lift, h]
  exact ⟨state, rfl⟩

end Answers

end RingWallet
