import Mathlib.Data.List.Perm.Basic
import RingWallet.Transaction.Assembly

/-!
# The wire order

Putting entries in wire order rearranges them and leaves no private entry behind a pseudonymous one.
As the sort is stable, the private entries stay in their order, and so do the pseudonymous ones
(`sameGroups_wireOrder`). Only one list is like that, the private entries with the pseudonymous ones
behind (`wireOrder_eq`, `privateFirst`), so the wire order depends on nothing but these two groups
(`SameGroups.wireOrder_eq`), and an ordered list stays as it is (`wireOrder_idem`).
-/

set_option autoImplicit false

namespace RingWallet

variable {α β : Type} {isPseudonym : α → Bool}

/-- The lists have the same private entries in the same order, and the same pseudonymous ones. -/
structure SameGroups (isPseudonym : α → Bool) (entries others : List α) : Prop where
  private_eq : entries.filter (fun entry => !isPseudonym entry) =
    others.filter fun entry => !isPseudonym entry
  pseudonym_eq : entries.filter isPseudonym = others.filter isPseudonym

namespace SameGroups

variable {entries others : List α}

theorem symm (h : SameGroups isPseudonym entries others) : SameGroups isPseudonym others entries :=
  ⟨h.private_eq.symm, h.pseudonym_eq.symm⟩

theorem perm (h : SameGroups isPseudonym entries others) : entries.Perm others := by
  have hentries := List.filter_append_perm isPseudonym entries
  rw [h.private_eq, h.pseudonym_eq] at hentries
  exact hentries.symm.trans (List.filter_append_perm isPseudonym others)

end SameGroups

/-! ## What the sort does -/

theorem mayPrecede_trans (a b c : α) (hab : mayPrecede isPseudonym a b = true)
    (hbc : mayPrecede isPseudonym b c = true) : mayPrecede isPseudonym a c = true := by
  simp only [mayPrecede, Bool.or_eq_true, Bool.not_eq_true'] at *
  rcases hab with ha | hb
  · exact .inl ha
  · exact .inr (hbc.resolve_left (by simp [hb]))

theorem mayPrecede_total (a b : α) :
    (mayPrecede isPseudonym a b || mayPrecede isPseudonym b a) = true := by
  unfold mayPrecede
  cases isPseudonym a <;> simp

theorem perm_wireOrder (entries : List α) : (wireOrder isPseudonym entries).Perm entries :=
  List.mergeSort_perm entries _

/-- No pseudonymous entry stands in front of a private one. -/
theorem pairwise_wireOrder (entries : List α) :
    (wireOrder isPseudonym entries).Pairwise (mayPrecede isPseudonym · · = true) :=
  List.pairwise_mergeSort mayPrecede_trans mayPrecede_total entries

/-- Entries that stand in wire order already keep their order. -/
theorem sublist_wireOrder {group entries : List α} (hgroup : group.Sublist entries)
    (hordered : group.Pairwise (mayPrecede isPseudonym · · = true)) :
    group.Sublist (wireOrder isPseudonym entries) :=
  List.sublist_mergeSort mayPrecede_trans mayPrecede_total hordered hgroup

/-- Entries of a kind that stand in wire order already are the same list behind the sort: they are a
sublist of it, and there are as many. -/
theorem filter_wireOrder {isMember : α → Bool} {entries : List α}
    (hordered : (entries.filter isMember).Pairwise (mayPrecede isPseudonym · · = true)) :
    (wireOrder isPseudonym entries).filter isMember = entries.filter isMember := by
  have hsub := (sublist_wireOrder List.filter_sublist hordered).filter isMember
  have hperm : (wireOrder isPseudonym entries).Perm entries := perm_wireOrder entries
  have htwice : (entries.filter isMember).filter isMember = entries.filter isMember := by simp
  rw [htwice] at hsub
  have hlength := (hperm.filter isMember).length_eq
  exact (hsub.eq_of_length hlength.symm).symm

theorem sameGroups_wireOrder (entries : List α) :
    SameGroups isPseudonym (wireOrder isPseudonym entries) entries where
  private_eq := by
    apply filter_wireOrder
    apply List.pairwise_of_forall_mem_list
    intro a ha b _
    rw [mayPrecede, (List.mem_filter.mp ha).2, Bool.true_or]
  pseudonym_eq := by
    apply filter_wireOrder
    apply List.pairwise_of_forall_mem_list
    intro a _ b hb
    rw [mayPrecede, (List.mem_filter.mp hb).2, Bool.or_true]

/-! ## The wire order as a list -/

/-- The private entries in their given order, and behind them the pseudonymous ones in theirs. -/
def privateFirst (isPseudonym : α → Bool) (entries : List α) : List α :=
  entries.filter (fun entry => !isPseudonym entry) ++ entries.filter isPseudonym

/-- Where no pseudonymous entry stands in front of a private one, the private entries are first. -/
theorem eq_privateFirst_of_pairwise {entries : List α}
    (h : entries.Pairwise (mayPrecede isPseudonym · · = true)) :
    entries = privateFirst isPseudonym entries := by
  induction entries with
  | nil => rfl
  | cons entry rest ih =>
    obtain ⟨hfirst, hrest⟩ := List.pairwise_cons.mp h
    cases hentry : isPseudonym entry with
    | false =>
      rw [privateFirst, List.filter_cons_of_pos (by simp [hentry]),
        List.filter_cons_of_neg (by simp [hentry]), List.cons_append]
      exact congrArg (entry :: ·) (ih hrest)
    | true =>
      -- Everything behind the entry is pseudonymous.
      have hbehind : ∀ other ∈ rest, isPseudonym other = true := by
        intro other hother
        have hprecedes := hfirst other hother
        rwa [mayPrecede, hentry] at hprecedes
      have hall : ∀ other ∈ entry :: rest, isPseudonym other = true :=
        List.forall_mem_cons.mpr ⟨hentry, hbehind⟩
      have hnone : (entry :: rest).filter (fun entry => !isPseudonym entry) = [] := by
        apply List.filter_eq_nil_iff.mpr
        intro other hother
        simp [hall other hother]
      rw [privateFirst, hnone, List.filter_eq_self.mpr hall, List.nil_append]

/-- The wire order is a stable partition. -/
theorem wireOrder_eq (entries : List α) :
    wireOrder isPseudonym entries = privateFirst isPseudonym entries := by
  have hgroups : SameGroups isPseudonym (wireOrder isPseudonym entries) entries :=
    sameGroups_wireOrder entries
  rw [eq_privateFirst_of_pairwise (pairwise_wireOrder entries), privateFirst, hgroups.private_eq,
    hgroups.pseudonym_eq, privateFirst]

/-- Lists with the same groups are partitioned into one list. -/
theorem SameGroups.privateFirst_eq {entries others : List α}
    (h : SameGroups isPseudonym entries others) :
    privateFirst isPseudonym entries = privateFirst isPseudonym others := by
  rw [privateFirst, h.private_eq, h.pseudonym_eq, privateFirst]

/-- Lists with the same groups have one wire order. -/
theorem SameGroups.wireOrder_eq {entries others : List α}
    (h : SameGroups isPseudonym entries others) :
    wireOrder isPseudonym entries = wireOrder isPseudonym others := by
  rw [RingWallet.wireOrder_eq, RingWallet.wireOrder_eq, h.privateFirst_eq]

theorem wireOrder_idem (entries : List α) :
    wireOrder isPseudonym (wireOrder isPseudonym entries) = wireOrder isPseudonym entries :=
  (sameGroups_wireOrder entries).wireOrder_eq

theorem sameGroups_privateFirst (entries : List α) :
    SameGroups isPseudonym (privateFirst isPseudonym entries) entries := by
  rw [← wireOrder_eq]
  exact sameGroups_wireOrder entries

/-- Members that are carried along do not matter for the order. -/
theorem privateFirst_map (f : α → β) (isPseudonym : β → Bool) (entries : List α) :
    privateFirst isPseudonym (entries.map f) =
      (privateFirst (fun entry => isPseudonym (f entry)) entries).map f := by
  rw [privateFirst, privateFirst, List.map_append, List.filter_map, List.filter_map]
  rfl

end RingWallet
