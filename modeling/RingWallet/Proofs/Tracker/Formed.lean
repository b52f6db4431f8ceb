import RingWallet.Proofs.Tracker.Batch
import RingWallet.Proofs.Tracker.Run

/-!
# Where stored rings come from

The tracker makes no rings of its own. What an operation commits are rings that the provider it asks
has formed of fetched blocks (`Operation.formed_of_mem_rings`), so a ring of a store that a run
reaches was formed by one of the run's providers (`Wallet.formed_of_ring?`). What holds of every ring
that the providers form, whatever blocks they are given, therefore holds of every stored ring.
-/

set_option autoImplicit false

namespace RingWallet

variable {σ : Type}

/-- The provider can answer the ring, among others, to some blocks. -/
def Provider.Forms (provider : Provider σ) (ring : CoinRing) : Prop :=
  ∃ blocks rings, Returns (provider.buildRings blocks) rings ∧ ring ∈ rings

/-- Rings that are committed behind an operation are committed behind what it returned. -/
theorem TrackM.exists_of_mem_ringsAfter {α : Type} {op : TrackM σ α}
    {rings : α → TrackState σ → List CoinRing} {state : TrackState σ} {ring : CoinRing}
    (h : ring ∈ op.ringsAfter rings state) : ∃ a after, ring ∈ rings a after := by
  unfold ringsAfter at h
  split at h
  · exact ⟨_, _, h⟩
  · cases h

namespace Tracker

variable {tracker : Tracker} {provider : Provider σ} {source : BlockSource σ} {height : UInt64}
  {state : TrackState σ} {ring : CoinRing}

/-- The rings of an accepted batch were formed of the blocks of its window. -/
theorem formed_of_mem_ringsOfGroup (h : ring ∈ tracker.ringsOfGroup provider source height state) :
    ∃ blocks rings, Returns (fetchGroup source tracker.params height) blocks ∧
      Returns (provider.buildRings blocks) rings ∧ ring ∈ rings := by
  cases resolveGroup_step tracker provider source height state with
  | idle _ _ hrings | unanswered _ _ hrings | refused _ _ _ hrings =>
    rw [hrings] at h
    cases h
  | accepted hbatch _ _ hrings =>
    rw [hrings] at h
    obtain ⟨rings, hlearns⟩ := resolutionBatch_learns tracker provider source (.of_outcome hbatch)
    obtain ⟨blocks, hblocks, hformed⟩ := hlearns.formed
    exact ⟨blocks, rings, hblocks, hformed, hlearns.mem_rings ring h⟩

theorem forms_of_mem_ringsOfGroup (h : ring ∈ tracker.ringsOfGroup provider source height state) :
    provider.Forms ring := by
  obtain ⟨blocks, rings, -, hformed, hring⟩ := formed_of_mem_ringsOfGroup h
  exact ⟨blocks, rings, hformed, hring⟩

theorem forms_of_mem_ringsOfMaturity
    (h : ring ∈ tracker.ringsOfMaturity provider source height state) : provider.Forms ring := by
  unfold ringsOfMaturity at h
  split at h
  · exact forms_of_mem_ringsOfGroup h
  · cases h

theorem forms_of_mem_ringsOfBlock {block : ChainBlock}
    (h : ring ∈ tracker.ringsOfBlock provider source block state) : provider.Forms ring := by
  -- Rings are committed at the block's height only, once all of its transactions were processed.
  obtain ⟨_, _, h⟩ := TrackM.exists_of_mem_ringsAfter h
  obtain ⟨_, _, h⟩ := TrackM.exists_of_mem_ringsAfter h
  exact forms_of_mem_ringsOfMaturity h

end Tracker

namespace Operation

/-- The operation asks the provider. -/
def Asks (provider : Provider σ) : Operation σ → Prop
  | scan own .. | handleMaturity own .. | resolveGroup own .. | processBlock own .. =>
    own = provider
  | _ => False

/-- What an operation commits was formed by a provider that it asks. -/
theorem formed_of_mem_rings {tracker : Tracker} {op : Operation σ} {state : TrackState σ}
    {ring : CoinRing} (h : ring ∈ op.rings tracker state) :
    ∃ provider, op.Asks provider ∧ provider.Forms ring := by
  cases op with
  | register | unregister | scan | trackSpends | markSpent | recordSubmitted | trackPending =>
    cases h
  | handleMaturity provider source height =>
    exact ⟨provider, rfl, Tracker.forms_of_mem_ringsOfMaturity h⟩
  | resolveGroup provider source height =>
    exact ⟨provider, rfl, Tracker.forms_of_mem_ringsOfGroup h⟩
  | processBlock provider source block =>
    exact ⟨provider, rfl, Tracker.forms_of_mem_ringsOfBlock h⟩

end Operation

namespace Wallet

/-- What operations commit was formed by the providers that they ask. -/
theorem formed_of_committed {wallet : Wallet σ} {ops : List (Operation σ)} {ring : CoinRing}
    (h : ring ∈ wallet.committed ops) :
    ∃ op ∈ ops, ∃ provider, op.Asks provider ∧ provider.Forms ring := by
  induction ops generalizing wallet with
  | nil => cases h
  | cons op rest ih =>
    rcases List.mem_append.mp h with hfirst | hrest
    · exact ⟨op, List.mem_cons_self, Operation.formed_of_mem_rings hfirst⟩
    · obtain ⟨other, hmem, hformed⟩ := ih hrest
      exact ⟨other, List.mem_cons_of_mem _ hmem, hformed⟩

/-- Every ring in the store of a run was formed by a provider that the run asks. -/
theorem formed_of_ring? {params : ChainParams} {outside : σ} {ops : List (Operation σ)}
    {id : RingId} {ring : CoinRing}
    (h : ((start params outside).run ops).store.ring? id = some ring) :
    ∃ op ∈ ops, ∃ provider, op.Asks provider ∧ provider.Forms ring :=
  formed_of_committed ((run_sound params outside ops).of_ring h).1

end Wallet

end RingWallet
