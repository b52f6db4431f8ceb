import RingWallet.Tracker.Maturity
import RingWallet.Tracker.Scan

/-!
# Operations over two outside states

The wallet's operations are written for any provider and any source. So what relates the questions
that are asked of two providers (`OpRelation.OnProvider`) and the blocks that are requested of two
sources (`OpRelation.OnSource`) relates what is made of them: finding the owner of an output
(`recognise_related`) and learning about the coins of a window (`batchFrom_related`). All it takes
is a relation that is kept by results and by sequences (`OpRelation`).
-/

set_option autoImplicit false

namespace RingWallet

variable {σ τ α : Type}

/-- A relation between wallet operations over two outside states that is kept by results and by
sequences. -/
structure OpRelation (σ τ : Type) where
  Holds : {α : Type} → WalletM σ α → WalletM τ α → Prop
  lift : ∀ {α : Type} (result : Except WalletError α), Holds (liftM result) (liftM result)
  bind : ∀ {α β : Type} {op : WalletM σ α} {other : WalletM τ α} {next : α → WalletM σ β}
    {otherNext : α → WalletM τ β}, Holds op other → (∀ a, Holds (next a) (otherNext a)) →
    Holds (op >>= next) (other >>= otherNext)

namespace OpRelation

variable (relation : OpRelation σ τ)

theorem pure (a : α) : relation.Holds (Pure.pure a) (Pure.pure a) := relation.lift (.ok a)

theorem throw (e : WalletError) :
    relation.Holds (MonadExcept.throw e : WalletM σ α) (MonadExcept.throw e) :=
  relation.lift (.error e)

/-- The questions that tracking asks of two providers are related. -/
structure OnProvider (provider : Provider σ) (other : Provider τ) : Prop where
  outputLevel : ∀ version output, relation.Holds
    (consult (provider.outputLevel version output)) (consult (other.outputLevel version output))
  outputCoinAddress : ∀ version output, relation.Holds
    (consult (provider.outputCoinAddress version output))
    (consult (other.outputCoinAddress version output))
  detect : ∀ version output detector, relation.Holds
    (consult (provider.detect version output detector))
    (consult (other.detect version output detector))
  valueByRoot : ∀ version output value? detector, relation.Holds
    (consult (provider.valueByRoot version output value? detector))
    (consult (other.valueByRoot version output value? detector))
  valueByKeys : ∀ version output address viewKey, relation.Holds
    (consult (provider.valueByKeys version output address viewKey))
    (consult (other.valueByKeys version output address viewKey))
  serialNumbers : ∀ coins context key, relation.Holds
    (consult (provider.serialNumbers coins context key))
    (consult (other.serialNumbers coins context key))
  buildRings : ∀ blocks, relation.Holds
    (consult (provider.buildRings blocks)) (consult (other.buildRings blocks))

/-- The requests for a block of two sources are related. -/
def OnSource (source : BlockSource σ) (other : BlockSource τ) : Prop :=
  ∀ height, relation.Holds (source.require height) (other.require height)

end OpRelation

namespace OpRelation.OnProvider

variable {relation : OpRelation σ τ} {provider : Provider σ} {other : Provider τ}

/-! ## Owners -/

theorem receive_related (h : relation.OnProvider provider other) (account : ViewAccount)
    (version : UInt32) (output : Bytes) :
    relation.Holds (account.receive provider version output)
      (account.receive other version output) := by
  unfold ViewAccount.receive
  apply relation.bind (h.outputLevel version output)
  intro level
  split
  · exact relation.pure none
  · -- The two kinds of accounts ask different questions from here on.
    cases account with
    | seedBacked view =>
      apply relation.bind (h.detect version output view.detector.toList)
      intro detected
      cases detected with
      | true => exact h.valueByRoot _ _ _ _
      | false => exact relation.pure none
    | keyBacked view =>
      apply relation.bind (h.outputCoinAddress version output)
      intro coinBytes
      by_cases hsame : coinBytes = view.address.coin.bytes
      · simp only [hsame, if_true]
        exact h.valueByKeys _ _ _ _
      · simp only [hsame, if_false]
        exact relation.pure none

theorem recognise_related (h : relation.OnProvider provider other) (version : UInt32)
    (output : Bytes) (accounts : List (AccountId × ViewAccount)) :
    relation.Holds (recognise provider version output accounts)
      (recognise other version output accounts) := by
  induction accounts with
  | nil => exact relation.pure none
  | cons entry rest ih =>
    unfold recognise
    apply relation.bind (h.receive_related entry.2 version output)
    intro value?
    cases value? with
    | some value => exact relation.pure (some (entry.1, value))
    | none => exact ih

/-! ## Batches -/

theorem serialNumbers_related (h : relation.OnProvider provider other) (account : ViewAccount)
    (coins : List CoinId) (ring : RingContext) :
    relation.Holds (account.serialNumbers provider coins ring)
      (account.serialNumbers other coins ring) := by
  unfold ViewAccount.serialNumbers
  split
  · exact relation.pure []
  · apply relation.bind (h.serialNumbers _ _ _)
    exact fun numbers => relation.lift _

theorem resolution_related (h : relation.OnProvider provider other) (tracker : Tracker)
    (rings : List CoinRing) (coin : Coin) :
    relation.Holds (tracker.resolution provider rings coin)
      (tracker.resolution other rings coin) := by
  unfold Tracker.resolution
  -- Everything but the serial number is computed from the rings, so both get equally far.
  rcases lastRingOf? rings coin.id with _ | ⟨place, ring⟩
  · exact relation.throw _
  · dsimp only
    cases ring.indexOf? coin.id with
    | none => exact relation.throw _
    | some index =>
      cases tracker.accounts.get? coin.account with
      | none => exact relation.throw _
      | some account =>
        apply relation.bind (h.serialNumbers_related account _ _)
        intro numbers
        cases numbers.head?.filter (!·.isEmpty) with
        | none => exact relation.throw _
        | some number => exact relation.pure _

theorem resolutions_related (h : relation.OnProvider provider other) (tracker : Tracker)
    (rings : List CoinRing) (coins : List Coin) :
    relation.Holds (tracker.resolutions provider rings coins)
      (tracker.resolutions other rings coins) := by
  induction coins with
  | nil => exact relation.pure []
  | cons coin rest ih =>
    unfold Tracker.resolutions
    apply relation.bind (h.resolution_related tracker rings coin)
    intro first
    apply relation.bind ih
    exact fun others => relation.pure _

end OpRelation.OnProvider

/-- What is learned about coins once the blocks of their window are there. -/
def Tracker.batchFrom (tracker : Tracker) (provider : Provider σ) (coins : List Coin)
    (blocks : List Bytes) : WalletM σ ResolutionBatch := do
  let rings ← consult (provider.buildRings blocks)
  let learned ← tracker.resolutions provider rings coins
  let used := learned.map Prod.fst
  return {
    rings := (rings.zipIdx.filter fun entry => used.contains entry.2).map Prod.fst
    resolutions := learned.map Prod.snd }

theorem Tracker.resolutionBatch_eq (tracker : Tracker) (provider : Provider σ)
    (source : BlockSource σ) (height : UInt64) (coins : List Coin) :
    tracker.resolutionBatch provider source height coins =
      fetchGroup source tracker.params height >>= tracker.batchFrom provider coins :=
  rfl

theorem OpRelation.OnProvider.batchFrom_related {relation : OpRelation σ τ} {provider : Provider σ}
    {other : Provider τ} (h : relation.OnProvider provider other) (tracker : Tracker)
    (coins : List Coin) (blocks : List Bytes) :
    relation.Holds (tracker.batchFrom provider coins blocks)
      (tracker.batchFrom other coins blocks) := by
  unfold Tracker.batchFrom
  apply relation.bind (h.buildRings blocks)
  intro rings
  apply relation.bind (h.resolutions_related tracker rings coins)
  exact fun learned => relation.pure _

/-! ## Blocks -/

theorem OpRelation.OnSource.fetchAll_related {relation : OpRelation σ τ} {source : BlockSource σ}
    {other : BlockSource τ} (h : relation.OnSource source other) (heights : List UInt64) :
    relation.Holds (source.fetchAll heights) (other.fetchAll heights) := by
  induction heights with
  | nil => exact relation.pure []
  | cons height rest ih =>
    unfold BlockSource.fetchAll
    apply relation.bind (h height)
    intro block
    apply relation.bind ih
    exact fun others => relation.pure _

end RingWallet
