import Mathlib.Data.List.Nodup

/-!
# Lists whose entries have different keys

An entry of such a list is the only one with its key, so it is the one that is found by the key.
-/

set_option autoImplicit false

namespace RingWallet

variable {α κ : Type}

/-- Among entries with different keys, one entry is found once by its key. -/
theorem filter_key_eq_singleton [DecidableEq κ] (keyOf : α → κ) {entries : List α}
    {entry : α} (hnodup : (entries.map keyOf).Nodup) (hmem : entry ∈ entries) :
    entries.filter (fun other => decide (keyOf other = keyOf entry)) = [entry] := by
  induction entries with
  | nil => cases hmem
  | cons first rest ih =>
    obtain ⟨hnotMem, hrest⟩ := List.nodup_cons.mp (List.map_cons ▸ hnodup)
    rcases List.mem_cons.mp hmem with rfl | hmem
    · have hnone : rest.filter (fun other => decide (keyOf other = keyOf entry)) = [] := by
        rw [List.filter_eq_nil_iff]
        intro other hother heq
        exact hnotMem (of_decide_eq_true heq ▸ List.mem_map_of_mem hother)
      rw [List.filter_cons_of_pos (by simp), hnone]
    · have hne : keyOf first ≠ keyOf entry := fun heq =>
        hnotMem (heq ▸ List.mem_map_of_mem hmem)
      rw [List.filter_cons_of_neg (by simp [hne]), ih hrest hmem]

/-- Among entries with different keys, an entry is the first with its key. -/
theorem find?_key_eq_some [BEq κ] [LawfulBEq κ] (keyOf : α → κ) {entries : List α} {entry : α}
    (hnodup : (entries.map keyOf).Nodup) (hmem : entry ∈ entries) :
    entries.find? (keyOf · == keyOf entry) = some entry := by
  induction entries with
  | nil => cases hmem
  | cons first rest ih =>
    obtain ⟨hnotMem, hrest⟩ := List.nodup_cons.mp (List.map_cons ▸ hnodup)
    rcases List.mem_cons.mp hmem with rfl | hmem
    · exact List.find?_cons_of_pos (beq_self_eq_true _)
    · have hne : keyOf first ≠ keyOf entry := fun heq =>
        hnotMem (heq ▸ List.mem_map_of_mem hmem)
      rw [List.find?_cons_of_neg (by simpa using hne)]
      exact ih hrest hmem

/-- No entry of another list is found by a key that the list does not have. -/
theorem find?_key_eq_none [BEq κ] [LawfulBEq κ] (keyOf : α → κ) {entries : List α} {key : κ}
    (h : key ∉ entries.map keyOf) : entries.find? (keyOf · == key) = none := by
  rw [List.find?_eq_none]
  intro other hother heq
  exact h (eq_of_beq heq ▸ List.mem_map_of_mem hother)

/-- What a search finds depends only on which entries there are, if at most one of them is sought. -/
theorem find?_eq_of_mem_iff {sought : α → Bool} {entries others : List α}
    (hmem : ∀ entry, entry ∈ entries ↔ entry ∈ others)
    (hunique : ∀ a ∈ entries, ∀ b ∈ entries, sought a = true → sought b = true → a = b) :
    entries.find? sought = others.find? sought := by
  cases hfound : others.find? sought with
  | none =>
    rw [List.find?_eq_none] at hfound ⊢
    exact fun entry hentry => hfound entry ((hmem entry).mp hentry)
  | some other =>
    have hother := (hmem other).mpr (List.mem_of_find?_eq_some hfound)
    have hsought := List.find?_some hfound
    have hsome : (entries.find? sought).isSome = true :=
      List.find?_isSome.mpr ⟨other, hother, hsought⟩
    obtain ⟨entry, hentry⟩ := Option.isSome_iff_exists.mp hsome
    rw [hentry, hunique entry (List.mem_of_find?_eq_some hentry) other hother
      (List.find?_some hentry) hsought]

end RingWallet
