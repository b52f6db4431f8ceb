import RingWallet.OrderedMap

/-!
# Further equations of ordered maps

The view `get?` of each operation at any key, in one equation each, and the listings `values` and
`keys` read through the view. Entries of different keys are different, so a listing of values that
know their own keys is in key order and has no repetitions (`map_values_eq_keys`,
`nodup_map_values`). In front of an entry stand those with smaller keys (`filter_before_eq`). A part
of a map that is picked by a condition on the values lists the picked values in their order
(`values_eq_filter`).
-/

set_option autoImplicit false

namespace RingWallet.OrderedMap

variable {κ α β : Type} [OrderKey κ] [DecidableEq κ]

theorem get?_insert (map : OrderedMap κ α) (k k' : κ) (v : α) :
    (map.insert k v).get? k' = if k = k' then some v else map.get? k' := by
  split
  · rename_i h
    subst h
    exact get?_insert_self map k v
  · rename_i h
    exact get?_insert_of_ne map h v

theorem get?_adjust (map : OrderedMap κ α) (k k' : κ) (f : α → α) :
    (map.adjust k f).get? k' = if k = k' then (map.get? k').map f else map.get? k' := by
  split
  · rename_i h
    subst h
    exact get?_adjust_self map k f
  · rename_i h
    exact get?_adjust_of_ne map h f

omit [DecidableEq κ] in
theorem contains_iff (map : OrderedMap κ α) (k : κ) :
    map.contains k = true ↔ ∃ v, map.get? k = some v :=
  Option.isSome_iff_exists

/-- A value that is put at a new key only is seen there only if the key had none. -/
theorem get?_insertNew (map : OrderedMap κ α) (k k' : κ) (v : α) :
    (map.insertNew k v).get? k' = if k = k' then some ((map.get? k).getD v) else map.get? k' := by
  unfold insertNew
  cases h : map.get? k with
  | none =>
    have hnot : map.contains k = false := by simp [contains, h]
    rw [hnot]
    simpa using get?_insert map k k' v
  | some found =>
    have hin : map.contains k = true := by simp [contains, h]
    rw [if_pos hin]
    split
    · rename_i heq
      subst heq
      simpa using h
    · rfl

/-! ## Listings -/

omit [DecidableEq κ] in
theorem mem_values_iff (map : OrderedMap κ α) (v : α) :
    v ∈ map.values ↔ ∃ k, map.get? k = some v := by
  constructor
  · intro h
    obtain ⟨entry, hmem, rfl⟩ := List.mem_map.mp h
    exact ⟨entry.1, (mem_toList_iff map entry.1 entry.2).mp hmem⟩
  · rintro ⟨k, h⟩
    exact List.mem_map.mpr ⟨(k, v), (mem_toList_iff map k v).mpr h, rfl⟩

omit [DecidableEq κ] in
/-- Keys are listed in strictly increasing order. -/
theorem sorted_keys (map : OrderedMap κ α) :
    map.keys.Pairwise fun a b => OrderKey.before a b :=
  List.pairwise_map.mpr map.sorted

omit [DecidableEq κ] in
/-- What is listed in strictly increasing order is listed once. -/
theorem nodup_of_sorted {ks : List κ} (h : ks.Pairwise fun a b => OrderKey.before a b) :
    ks.Nodup := by
  unfold List.Nodup
  refine h.imp fun {a b} hbefore heq => ?_
  exact OrderKey.not_before_of_key_eq (congrArg key heq) hbefore

omit [DecidableEq κ] in
/-- Keys are listed once. -/
theorem nodup_keys (map : OrderedMap κ α) : map.keys.Nodup := nodup_of_sorted (sorted_keys map)

omit [DecidableEq κ] in
/-- If every value tells its own key, the keys told by the values are the keys. -/
theorem map_values_eq_keys (map : OrderedMap κ α) (keyOf : α → κ)
    (h : ∀ k v, map.get? k = some v → keyOf v = k) : map.values.map keyOf = map.keys := by
  unfold values keys
  rw [List.map_map]
  apply List.map_congr_left
  intro entry hmem
  exact h entry.1 entry.2 ((mem_toList_iff map entry.1 entry.2).mp hmem)

omit [DecidableEq κ] in
/-- If every value tells its own key, the keys told by the values are listed once. -/
theorem nodup_map_values (map : OrderedMap κ α) (keyOf : α → κ)
    (h : ∀ k v, map.get? k = some v → keyOf v = k) : (map.values.map keyOf).Nodup := by
  rw [map_values_eq_keys map keyOf h]
  exact nodup_keys map

omit [DecidableEq κ] in
/-- The entries in front of one entry are those with smaller keys. -/
theorem filter_before_eq {map : OrderedMap κ α} {front back : List (κ × α)} {entry : κ × α}
    (h : map.toList = front ++ entry :: back) :
    map.toList.filter (fun other => OrderKey.before other.1 entry.1) = front := by
  have hsorted := map.sorted
  rw [h, List.pairwise_append, List.pairwise_cons] at hsorted
  obtain ⟨-, ⟨hback, -⟩, hfront⟩ := hsorted
  have hkept : front.filter (fun other => OrderKey.before other.1 entry.1) = front :=
    List.filter_eq_self.mpr fun other hmem => hfront other hmem entry List.mem_cons_self
  have hdropped : (entry :: back).filter (fun other => OrderKey.before other.1 entry.1) = [] := by
    refine List.filter_eq_nil_iff.mpr fun other hmem hbefore => ?_
    rcases List.mem_cons.mp hmem with rfl | hmem
    · exact OrderKey.not_before_of_key_eq rfl hbefore
    · -- An entry behind would stand in front of itself.
      exact OrderKey.not_before_of_key_eq rfl (OrderKey.before_trans hbefore (hback other hmem))
  rw [h, List.filter_append, hkept, hdropped, List.append_nil]

/-! ## Parts of a map -/

omit [DecidableEq κ] in
/-- If a map shows exactly the values of another that satisfy a condition, it lists exactly these,
in the same order. -/
theorem values_eq_filter {part whole : OrderedMap κ α} {cond : α → Bool}
    (h : ∀ k, part.get? k = (whole.get? k).filter cond) : part.values = whole.values.filter cond := by
  let kept : OrderedMap κ α := ⟨whole.toList.filter fun entry => cond entry.2, whole.sorted.filter _⟩
  have hkept : part = kept := by
    apply ext_get?
    intro k
    rw [h]
    apply Option.ext
    intro v
    rw [← mem_toList_iff kept k v, List.mem_filter, mem_toList_iff, Option.filter_eq_some_iff]
  rw [hkept]
  change (whole.toList.filter fun entry => cond entry.2).map Prod.snd =
    (whole.toList.map Prod.snd).filter cond
  rw [List.filter_map]
  rfl

end RingWallet.OrderedMap
