import RingWallet.Proofs.Provider.Related
import RingWallet.Proofs.Returns
import RingWallet.Proofs.Tracker.Run

/-!
# Providers and sources that follow others

A provider follows another if it may fail where the other does not, but answers as the other does
wherever it answers; the same for block sources. Only the questions that tracking asks count. What
the wallet asks of a provider and of a source is then echoed as a whole: finding the owner of an
output (`recognise_echoes`) and learning the batch of a window (`resolutionBatch_echoes`).

A provider that follows itself is one whose answers do not depend on when it is asked.
-/

set_option autoImplicit false

namespace RingWallet

variable {σ : Type}

/-- In every question that tracking asks, the provider answers as the good one does, or fails. -/
structure Provider.Follows (provider good : Provider σ) : Prop where
  outputLevel : ∀ version output,
    Echoes (provider.outputLevel version output) (good.outputLevel version output)
  outputCoinAddress : ∀ version output, Echoes
    (provider.outputCoinAddress version output) (good.outputCoinAddress version output)
  detect : ∀ version output detector, Echoes
    (provider.detect version output detector) (good.detect version output detector)
  valueByRoot : ∀ version output value? detector, Echoes
    (provider.valueByRoot version output value? detector)
    (good.valueByRoot version output value? detector)
  valueByKeys : ∀ version output address viewKey, Echoes
    (provider.valueByKeys version output address viewKey)
    (good.valueByKeys version output address viewKey)
  serialNumbers : ∀ coins context key, Echoes
    (provider.serialNumbers coins context key) (good.serialNumbers coins context key)
  buildRings : ∀ blocks,
    Echoes (provider.buildRings blocks) (good.buildRings blocks)

/-- The source gives the blocks that the good one gives, or fails. -/
def BlockSource.Follows (source good : BlockSource σ) : Prop :=
  ∀ height, Echoes (source.fetch height) (good.fetch height)

/-- Echoing is kept by results and by sequences. -/
def OpRelation.echoes (σ : Type) : OpRelation σ σ where
  Holds := Echoes
  lift := Echoes.lift
  bind := Echoes.bind

namespace Provider.Follows

variable {provider good : Provider σ}

theorem echoes (h : provider.Follows good) : (OpRelation.echoes σ).OnProvider provider good where
  outputLevel version output := (h.outputLevel version output).consult
  outputCoinAddress version output := (h.outputCoinAddress version output).consult
  detect version output detector := (h.detect version output detector).consult
  valueByRoot version output value? detector :=
    (h.valueByRoot version output value? detector).consult
  valueByKeys version output address viewKey :=
    (h.valueByKeys version output address viewKey).consult
  serialNumbers coins context key := (h.serialNumbers coins context key).consult
  buildRings blocks := (h.buildRings blocks).consult

/-! ## Owners -/

theorem receive_echoes (h : provider.Follows good) (account : ViewAccount) (version : UInt32)
    (output : Bytes) : Echoes (account.receive provider version output)
      (account.receive good version output) :=
  h.echoes.receive_related account version output

theorem recognise_echoes (h : provider.Follows good) (version : UInt32) (output : Bytes)
    (accounts : List (AccountId × ViewAccount)) :
    Echoes (recognise provider version output accounts)
      (recognise good version output accounts) :=
  h.echoes.recognise_related version output accounts

/-! ## Batches -/

theorem resolution_echoes (h : provider.Follows good) (tracker : Tracker) (rings : List CoinRing)
    (coin : Coin) : Echoes (tracker.resolution provider rings coin)
      (tracker.resolution good rings coin) :=
  h.echoes.resolution_related tracker rings coin

end Provider.Follows

theorem BlockSource.Follows.fetchAll_echoes {source good : BlockSource σ} (h : source.Follows good)
    (heights : List UInt64) :
    Echoes (source.fetchAll heights) (good.fetchAll heights) := by
  have hrequire : (OpRelation.echoes σ).OnSource source good := fun height => (h height).adapt _
  exact hrequire.fetchAll_related heights

theorem Provider.Follows.resolutionBatch_echoes {provider good : Provider σ} (h : provider.Follows good)
    {source goodSource : BlockSource σ} (hsource : source.Follows goodSource) (tracker : Tracker)
    (height : UInt64) (coins : List Coin) :
    Echoes (tracker.resolutionBatch provider source height coins)
      (tracker.resolutionBatch good goodSource height coins) := by
  rw [Tracker.resolutionBatch_eq, Tracker.resolutionBatch_eq]
  apply Echoes.bind (hsource.fetchAll_echoes _)
  exact h.echoes.batchFrom_related tracker coins

/-! ## The small run -/

namespace SmallRun

theorem provider_follows : provider.Follows provider where
  outputLevel _ _ := .pure _
  outputCoinAddress _ _ := .pure _
  detect _ _ _ := .pure _
  valueByRoot _ _ _ _ := .pure _
  valueByKeys _ _ _ _ := .pure _
  serialNumbers _ _ _ := .pure _
  buildRings _ := .pure _

theorem source_follows : source.Follows source := fun _ => .pure _

end SmallRun

end RingWallet
