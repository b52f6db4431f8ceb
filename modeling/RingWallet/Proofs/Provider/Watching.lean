import RingWallet.LocalChain
import RingWallet.Proofs.Provider.Calls
import RingWallet.Proofs.Provider.Related

/-!
# Watching operations

An operation that asks a provider and a block source is watched by running it over a provider that
notes its calls (`Provider.watched`) and a source that keeps the heights it is asked for
(`BlockSource.watched`). Each leaves the notes of the other alone.

Watching changes nothing: a watched operation runs as the other one does in the state below its
notes (`Mirrors`). The judgment also names a part of the notes that is left as it was: an operation
that only calls the provider leaves the requests alone, and one that only requests blocks the calls.
-/

set_option autoImplicit false

namespace RingWallet

variable {ε σ τ α β γ δ : Type}

/-! ## Notes of both kinds -/

/-- A source on one half of a pair of states; the other half is left alone. -/
def BlockSource.beside (τ : Type) (source : BlockSource σ) : BlockSource (σ × τ) where
  fetch height := ExceptT.mk fun (inner, other) =>
    let (result, inner) := (source.fetch height).run.run inner
    (result, (inner, other))

/-- A state with the calls that were made so far and the heights that were asked for. -/
abbrev Watched (σ : Type) := Noted σ × List UInt64

namespace Watched

/-- The state without its notes. -/
def below (state : Watched σ) : σ := state.1.1

/-- The calls that were made to the provider, in order. -/
def calls (state : Watched σ) : List ProviderCall := state.1.2

/-- The heights that the source was asked for, in order. -/
def requests (state : Watched σ) : List UInt64 := state.2

/-- A state without notes. -/
def start (state : σ) : Watched σ := ((state, []), [])

end Watched

/-- A provider that notes its calls beside the heights that are asked for. -/
def Provider.watched (provider : Provider σ) : Provider (Watched σ) :=
  provider.noting.beside (List UInt64)

/-- A source that keeps the heights it is asked for beside the calls that are made. -/
def BlockSource.watched (source : BlockSource σ) : BlockSource (Watched σ) :=
  (source.beside (List ProviderCall)).recording

/-- A required block is noted behind the requests before it, whatever comes of it. -/
theorem BlockSource.outcome_require_watched (source : BlockSource σ) (height : UInt64) (inner : σ)
    (calls : List ProviderCall) (requests : List UInt64) :
    outcome (source.watched.require height) ((inner, calls), requests) =
      ((outcome (source.fetch height) inner).1.mapError
          fun reports => .provider (.blockUnavailable height reports),
        (((outcome (source.fetch height) inner).2, calls), requests ++ [height])) :=
  rfl

/-! ## Running as another operation does -/

/-- A watched operation runs as the other one does in the state below, and leaves what is looked at
as it was. -/
structure Mirrors (below : τ → σ) (look : τ → γ) (watched : ExceptT ε (StateM τ) α)
    (op : ExceptT ε (StateM σ) α) : Prop where
  outcome_eq : ∀ state, outcome op (below state) =
    ((outcome watched state).1, below (outcome watched state).2)
  look_eq : ∀ state, look (outcome watched state).2 = look state

namespace Mirrors

variable {below : τ → σ} {look : τ → γ}

theorem lift (result : Except ε α) :
    Mirrors below look (liftM result : ExceptT ε (StateM τ) α) (liftM result) :=
  ⟨fun _ => rfl, fun _ => rfl⟩

theorem pure (a : α) : Mirrors below look (Pure.pure a : ExceptT ε (StateM τ) α) (Pure.pure a) :=
  .lift (.ok a)

theorem throw (e : ε) : Mirrors below look (MonadExcept.throw e : ExceptT ε (StateM τ) α)
    (MonadExcept.throw e) :=
  .lift (.error e)

theorem bind {watched : ExceptT ε (StateM τ) α} {op : ExceptT ε (StateM σ) α}
    {watchedNext : α → ExceptT ε (StateM τ) β} {next : α → ExceptT ε (StateM σ) β}
    (hop : Mirrors below look watched op)
    (hnext : ∀ a, Mirrors below look (watchedNext a) (next a)) :
    Mirrors below look (watched >>= watchedNext) (op >>= next) where
  outcome_eq state := by
    have hfirst := hop.outcome_eq state
    rcases hwatched : outcome watched state with ⟨e | a, between⟩
    · rw [hwatched] at hfirst
      rw [outcome_bind_of_error hwatched, outcome_bind_of_error hfirst]
    · rw [hwatched] at hfirst
      rw [outcome_bind_of_ok hwatched, outcome_bind_of_ok hfirst]
      exact (hnext a).outcome_eq between
  look_eq state := by
    have hfirst := hop.look_eq state
    rcases hwatched : outcome watched state with ⟨e | a, between⟩
    · rw [hwatched] at hfirst
      rw [outcome_bind_of_error hwatched]
      exact hfirst
    · rw [hwatched] at hfirst
      rw [outcome_bind_of_ok hwatched, (hnext a).look_eq between]
      exact hfirst

theorem adapt {ε' : Type} {watched : ExceptT ε (StateM τ) α} {op : ExceptT ε (StateM σ) α}
    (h : Mirrors below look watched op) (f : ε → ε') :
    Mirrors below look (watched.adapt f) (op.adapt f) where
  outcome_eq state := by
    rw [outcome_adapt, outcome_adapt, h.outcome_eq]
  look_eq state := by
    rw [outcome_adapt]
    exact h.look_eq state

/-- Less can be looked at. -/
theorem map_look {watched : ExceptT ε (StateM τ) α} {op : ExceptT ε (StateM σ) α}
    (h : Mirrors below look watched op) (f : γ → δ) :
    Mirrors below (fun state => f (look state)) watched op where
  outcome_eq := h.outcome_eq
  look_eq state := congrArg f (h.look_eq state)

/-- A call that is noted requests nothing. -/
theorem consult (entry : ProviderCall) (call : ProviderM σ α) :
    Mirrors Watched.below Watched.requests
      (RingWallet.consult ((call.noted entry).beside (List UInt64))) (RingWallet.consult call) :=
  ⟨fun _ => rfl, fun _ => rfl⟩

/-- A request calls nothing. -/
theorem fetch (source : BlockSource σ) (height : UInt64) :
    Mirrors Watched.below Watched.calls (source.watched.fetch height) (source.fetch height) :=
  ⟨fun _ => rfl, fun _ => rfl⟩

end Mirrors

/-! ## Wallet operations -/

/-- Mirroring is kept by results and by sequences. -/
def OpRelation.mirrors (below : τ → σ) (look : τ → γ) : OpRelation τ σ where
  Holds := Mirrors below look
  lift := Mirrors.lift
  bind := Mirrors.bind

theorem Provider.watched_mirrors (provider : Provider σ) :
    (OpRelation.mirrors Watched.below Watched.requests).OnProvider provider.watched provider where
  outputLevel _ _ := .consult _ _
  outputCoinAddress _ _ := .consult _ _
  detect _ _ _ := .consult _ _
  valueByRoot _ _ _ _ := .consult _ _
  valueByKeys _ _ _ _ := .consult _ _
  serialNumbers _ _ _ := .consult _ _
  buildRings _ := .consult _ _

theorem BlockSource.watched_mirrors (source : BlockSource σ) :
    (OpRelation.mirrors Watched.below Watched.calls).OnSource source.watched source :=
  fun height => (Mirrors.fetch source height).adapt _

/-! ## Tracking operations -/

/-- The same store over another state. -/
def TrackState.over (f : τ → σ) (state : TrackState τ) : TrackState σ :=
  ⟨state.store, f state.outside⟩

namespace Mirrors

variable {below : τ → σ} {look : τ → γ}

theorem outside {watched : WalletM τ α} {op : WalletM σ α} (h : Mirrors below look watched op) :
    Mirrors (TrackState.over below) (fun state => look state.outside) (TrackM.outside watched)
      (TrackM.outside op) where
  outcome_eq state := by
    have hinner := h.outcome_eq state.outside
    rw [TrackM.outcome_outside, TrackM.outcome_outside]
    unfold TrackState.over
    rw [hinner]
  look_eq state := h.look_eq state.outside

/-- The store is not watched. -/
theorem onStore (look : τ → γ) (change : CoinStore → α × CoinStore) :
    Mirrors (TrackState.over below) (fun state => look state.outside) (TrackM.onStore change)
      (TrackM.onStore change) :=
  ⟨fun _ => rfl, fun _ => rfl⟩

theorem tryStore (change : CoinStore → Except WalletError CoinStore) :
    Mirrors (TrackState.over below) (fun state => look state.outside)
      (TrackM.tryStore change : TrackM τ Unit) (TrackM.tryStore change) where
  outcome_eq state := by
    rw [TrackM.outcome_tryStore, TrackM.outcome_tryStore]
    unfold TrackState.over
    cases change state.store <;> rfl
  look_eq state := by
    rw [TrackM.outcome_tryStore]
    cases change state.store <;> rfl

end Mirrors

end RingWallet
