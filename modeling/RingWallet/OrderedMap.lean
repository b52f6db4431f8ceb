/-!
# Finite maps in key order

An `OrderedMap` holds its entries sorted by key, one entry a key. Keys are compared by a list of
numbers that determines them (`OrderKey`), so identifiers of bytes, pairs and account numbers all
have the same order: the first number that differs decides.

The view of a map is `get?`. Every operation has one equation for it (`get?_insert`, `get?_erase`,
`get?_adjust`), and two maps with the same view are the same map (`ext_get?`).
-/

set_option autoImplicit false

namespace RingWallet

/-- A type whose values are compared by a list of numbers. -/
class OrderKey (κ : Type) where
  key : κ → List Nat
  key_injective : ∀ a b, key a = key b → a = b

export OrderKey (key)

namespace OrderKey

variable {κ : Type} [OrderKey κ]

instance : OrderKey (List UInt8) where
  key bytes := bytes.map UInt8.toNat
  key_injective _ _ h := (List.map_inj_right fun _ _ => UInt8.toNat.inj).mp h

instance : OrderKey UInt64 where
  key n := [n.toNat]
  key_injective _ _ h := UInt64.toNat.inj (List.cons.inj h).1

/-! ## The order of keys -/

/-- Whether a list of numbers comes before another: the first number that differs decides, and a
list comes before its extensions. -/
def precedes : List Nat → List Nat → Bool
  | _, [] => false
  | [], _ :: _ => true
  | a :: as, b :: bs => decide (a < b) || (decide (a = b) && precedes as bs)

theorem precedes_irrefl (a : List Nat) : precedes a a = false := by
  induction a with
  | nil => rfl
  | cons a as ih => simp [precedes, ih]

theorem precedes_trans {a b c : List Nat} (hab : precedes a b) (hbc : precedes b c) :
    precedes a c := by
  induction b generalizing a c with
  | nil => simp [precedes] at hab
  | cons b bs ih =>
    cases c with
    | nil => simp [precedes] at hbc
    | cons c cs =>
      cases a with
      | nil => rfl
      | cons a as =>
        simp only [precedes, Bool.or_eq_true, Bool.and_eq_true, decide_eq_true_eq] at hab hbc ⊢
        rcases hab with hab | ⟨rfl, hab⟩
        · rcases hbc with hbc | ⟨rfl, _⟩
          · exact .inl (Nat.lt_trans hab hbc)
          · exact .inl hab
        · rcases hbc with hbc | ⟨rfl, hbc⟩
          · exact .inl hbc
          · exact .inr ⟨rfl, ih hab hbc⟩

theorem precedes_of_not {a b : List Nat} (hlt : ¬ precedes a b) (hne : ¬ a = b) :
    precedes b a := by
  induction a generalizing b with
  | nil =>
    cases b with
    | nil => exact absurd rfl hne
    | cons b bs => exact absurd rfl hlt
  | cons a as ih =>
    cases b with
    | nil => rfl
    | cons b bs =>
      simp only [precedes, Bool.or_eq_true, Bool.and_eq_true, decide_eq_true_eq, not_or,
        not_and] at hlt ⊢
      obtain ⟨hhead, htail⟩ := hlt
      by_cases heq : a = b
      · subst heq
        exact .inr ⟨rfl, ih (htail rfl) fun h => hne (h ▸ rfl)⟩
      · exact .inl (by omega)

/-- Whether a key comes before another. -/
def before (a b : κ) : Bool := precedes (key a) (key b)

theorem before_trans {a b c : κ} (hab : before a b) (hbc : before b c) : before a c :=
  precedes_trans hab hbc

theorem not_before_of_key_eq {a b : κ} (h : key a = key b) : ¬ before a b := by
  rw [before, h, precedes_irrefl]
  exact Bool.false_ne_true

theorem before_of_not {a b : κ} (hlt : ¬ before a b) (hne : ¬ key a = key b) : before b a :=
  precedes_of_not hlt hne

end OrderKey

open OrderKey (before before_trans before_of_not not_before_of_key_eq)

/-- A finite map whose entries are in strictly increasing key order. -/
structure OrderedMap (κ α : Type) [OrderKey κ] where
  toList : List (κ × α)
  sorted : toList.Pairwise fun a b => before a.1 b.1

namespace OrderedMap

variable {κ α β : Type} [OrderKey κ]

/-! ## Entries -/

/-- The value in a sorted list of entries at a key. -/
def lookup (k : κ) : List (κ × α) → Option α
  | [] => none
  | entry :: rest => if key entry.1 = key k then some entry.2 else lookup k rest

/-- Puts a value at a key, in front of the first larger key or in place of the same key. -/
def insertEntry (k : κ) (v : α) : List (κ × α) → List (κ × α)
  | [] => [(k, v)]
  | entry :: rest =>
    if before k entry.1 then (k, v) :: entry :: rest
    else if key k = key entry.1 then (k, v) :: rest
    else entry :: insertEntry k v rest

theorem mem_insertEntry {k : κ} {v : α} {entry : κ × α} {entries : List (κ × α)}
    (h : entry ∈ insertEntry k v entries) : entry = (k, v) ∨ entry ∈ entries := by
  induction entries with
  | nil => simpa [insertEntry] using h
  | cons head rest ih =>
    unfold insertEntry at h
    split at h
    · simpa using h
    · split at h
      · rcases List.mem_cons.mp h with h | h
        · exact .inl h
        · exact .inr (List.mem_cons_of_mem _ h)
      · rcases List.mem_cons.mp h with h | h
        · exact .inr (h ▸ List.mem_cons_self)
        · exact (ih h).imp_right (List.mem_cons_of_mem _)

theorem sorted_insertEntry (k : κ) (v : α) {entries : List (κ × α)}
    (h : entries.Pairwise fun a b => before a.1 b.1) :
    (insertEntry k v entries).Pairwise fun a b => before a.1 b.1 := by
  induction entries with
  | nil => simp [insertEntry]
  | cons head rest ih =>
    have hrest := (List.pairwise_cons.mp h).2
    have hhead := (List.pairwise_cons.mp h).1
    unfold insertEntry
    split
    · rename_i hlt
      refine List.pairwise_cons.mpr ⟨fun entry hmem => ?_, h⟩
      rcases List.mem_cons.mp hmem with rfl | hmem
      · exact hlt
      · exact before_trans hlt (hhead entry hmem)
    · split
      · rename_i heq
        exact List.pairwise_cons.mpr ⟨fun entry hmem => by
          rw [OrderKey.key_injective _ _ heq]
          exact hhead entry hmem, hrest⟩
      · rename_i hnlt hne
        refine List.pairwise_cons.mpr ⟨fun entry hmem => ?_, ih hrest⟩
        rcases mem_insertEntry hmem with rfl | hmem
        · exact before_of_not hnlt hne
        · exact hhead entry hmem

/-! ## Operations -/

/-- The empty map. -/
def empty : OrderedMap κ α := ⟨[], .nil⟩

instance : Inhabited (OrderedMap κ α) := ⟨empty⟩

/-- The value at a key. -/
def get? (map : OrderedMap κ α) (k : κ) : Option α := lookup k map.toList

/-- Whether a key has a value. -/
def contains (map : OrderedMap κ α) (k : κ) : Bool := (map.get? k).isSome

/-- Puts a value at a key, in place of one that is there. -/
def insert (map : OrderedMap κ α) (k : κ) (v : α) : OrderedMap κ α :=
  ⟨insertEntry k v map.toList, sorted_insertEntry k v map.sorted⟩

/-- Puts a value at a key that has none. -/
def insertNew (map : OrderedMap κ α) (k : κ) (v : α) : OrderedMap κ α :=
  if map.contains k then map else map.insert k v

/-- Drops a key and its value. -/
def erase (map : OrderedMap κ α) (k : κ) : OrderedMap κ α :=
  ⟨map.toList.filter fun entry => key entry.1 ≠ key k, map.sorted.filter _⟩

/-- Changes the value at a key, if there is one. -/
def adjust (map : OrderedMap κ α) (k : κ) (f : α → α) : OrderedMap κ α :=
  ⟨map.toList.map fun entry => if key entry.1 = key k then (entry.1, f entry.2) else entry,
    map.sorted.map _ fun a b h => by split <;> split <;> exact h⟩

/-- The keys in order. -/
def keys (map : OrderedMap κ α) : List κ := map.toList.map Prod.fst

/-- The values in the order of their keys. -/
def values (map : OrderedMap κ α) : List α := map.toList.map Prod.snd

/-- The number of entries. -/
def size (map : OrderedMap κ α) : Nat := map.toList.length

/-! ## The view of each operation -/

theorem lookup_insertEntry_self (k : κ) (v : α) (entries : List (κ × α)) :
    lookup k (insertEntry k v entries) = some v := by
  induction entries with
  | nil => simp [insertEntry, lookup]
  | cons head rest ih =>
    unfold insertEntry
    split
    · simp [lookup]
    · split
      · simp [lookup]
      · rename_i hne
        simp [lookup, Ne.symm hne, ih]

theorem lookup_insertEntry_of_ne {k k' : κ} (h : k ≠ k') (v : α) (entries : List (κ × α)) :
    lookup k' (insertEntry k v entries) = lookup k' entries := by
  have hkey : key k ≠ key k' := fun heq => h (OrderKey.key_injective _ _ heq)
  induction entries with
  | nil => simp [insertEntry, lookup, hkey]
  | cons head rest ih =>
    unfold insertEntry
    split
    · simp [lookup, hkey]
    · split
      · rename_i heq
        simp [lookup, hkey, ← heq]
      · simp [lookup, ih]

@[simp] theorem get?_empty (k : κ) : (empty : OrderedMap κ α).get? k = none := rfl

@[simp] theorem get?_insert_self (map : OrderedMap κ α) (k : κ) (v : α) :
    (map.insert k v).get? k = some v :=
  lookup_insertEntry_self k v map.toList

theorem get?_insert_of_ne (map : OrderedMap κ α) {k k' : κ} (h : k ≠ k') (v : α) :
    (map.insert k v).get? k' = map.get? k' :=
  lookup_insertEntry_of_ne h v map.toList

theorem get?_erase_self (map : OrderedMap κ α) (k : κ) : (map.erase k).get? k = none := by
  change lookup k (map.toList.filter fun entry => key entry.1 ≠ key k) = none
  induction map.toList with
  | nil => rfl
  | cons head rest ih =>
    by_cases h : key head.1 = key k <;> simp_all [lookup]

theorem get?_erase_of_ne (map : OrderedMap κ α) {k k' : κ} (h : k ≠ k') :
    (map.erase k).get? k' = map.get? k' := by
  have hkey : key k ≠ key k' := fun heq => h (OrderKey.key_injective _ _ heq)
  change lookup k' (map.toList.filter fun entry => key entry.1 ≠ key k) = lookup k' map.toList
  induction map.toList with
  | nil => rfl
  | cons head rest ih =>
    by_cases h : key head.1 = key k <;> simp_all [lookup]

theorem get?_adjust_self (map : OrderedMap κ α) (k : κ) (f : α → α) :
    (map.adjust k f).get? k = (map.get? k).map f := by
  change lookup k (map.toList.map fun entry =>
    if key entry.1 = key k then (entry.1, f entry.2) else entry) = (lookup k map.toList).map f
  induction map.toList with
  | nil => rfl
  | cons head rest ih =>
    by_cases h : key head.1 = key k <;> simp_all [lookup]

theorem get?_adjust_of_ne (map : OrderedMap κ α) {k k' : κ} (h : k ≠ k') (f : α → α) :
    (map.adjust k f).get? k' = map.get? k' := by
  have hkey : key k ≠ key k' := fun heq => h (OrderKey.key_injective _ _ heq)
  change lookup k' (map.toList.map fun entry =>
    if key entry.1 = key k then (entry.1, f entry.2) else entry) = lookup k' map.toList
  induction map.toList with
  | nil => rfl
  | cons head rest ih =>
    by_cases h : key head.1 = key k <;> simp_all [lookup]

/-! ## Two maps with one view are one map -/

theorem lookup_eq_none_of_lt {k : κ} {entries : List (κ × α)}
    (h : ∀ entry ∈ entries, before k entry.1) : lookup k entries = none := by
  induction entries with
  | nil => rfl
  | cons head rest ih =>
    have hne : ¬ key head.1 = key k := fun heq =>
      not_before_of_key_eq heq.symm (h head List.mem_cons_self)
    rw [lookup, if_neg hne]
    exact ih fun entry hmem => h entry (List.mem_cons_of_mem _ hmem)

theorem eq_of_lookup_eq {xs ys : List (κ × α)}
    (hx : xs.Pairwise fun a b => before a.1 b.1) (hy : ys.Pairwise fun a b => before a.1 b.1)
    (h : ∀ k, lookup k xs = lookup k ys) : xs = ys := by
  induction xs generalizing ys with
  | nil =>
    cases ys with
    | nil => rfl
    | cons y ys => simpa [lookup] using h y.1
  | cons x xs ih =>
    cases ys with
    | nil => simpa [lookup] using h x.1
    | cons y ys =>
      obtain ⟨hx₁, hx₂⟩ := List.pairwise_cons.mp hx
      obtain ⟨hy₁, hy₂⟩ := List.pairwise_cons.mp hy
      have hkeys : key x.1 = key y.1 := by
        by_cases hlt : before x.1 y.1
        · have hnone : lookup x.1 (y :: ys) = none := lookup_eq_none_of_lt fun entry hmem => by
            rcases List.mem_cons.mp hmem with rfl | hmem
            · exact hlt
            · exact before_trans hlt (hy₁ entry hmem)
          rw [← h x.1] at hnone
          simp [lookup] at hnone
        · by_cases heq : key x.1 = key y.1
          · exact heq
          · have hgt := before_of_not hlt heq
            have hnone : lookup y.1 (x :: xs) = none := lookup_eq_none_of_lt fun entry hmem => by
              rcases List.mem_cons.mp hmem with rfl | hmem
              · exact hgt
              · exact before_trans hgt (hx₁ entry hmem)
            rw [h y.1] at hnone
            simp [lookup] at hnone
      have hfst : x.1 = y.1 := OrderKey.key_injective _ _ hkeys
      have hsnd : x.2 = y.2 := by simpa [lookup, hkeys] using h x.1
      have hhead : x = y := Prod.ext hfst hsnd
      subst hhead
      refine congrArg _ (ih hx₂ hy₂ fun k => ?_)
      by_cases hk : key x.1 = key k
      · have hkx : x.1 = k := OrderKey.key_injective _ _ hk
        subst hkx
        rw [lookup_eq_none_of_lt hx₁, lookup_eq_none_of_lt hy₁]
      · simpa [lookup, hk] using h k

@[ext] theorem ext_get? {a b : OrderedMap κ α} (h : ∀ k, a.get? k = b.get? k) : a = b := by
  have hlist := eq_of_lookup_eq a.sorted b.sorted h
  cases a; cases b; cases hlist; rfl

theorem mem_toList_iff (map : OrderedMap κ α) (k : κ) (v : α) :
    (k, v) ∈ map.toList ↔ map.get? k = some v := by
  obtain ⟨entries, hsorted⟩ := map
  change (k, v) ∈ entries ↔ lookup k entries = some v
  induction entries with
  | nil => simp [lookup]
  | cons head rest ih =>
    obtain ⟨h₁, h₂⟩ := List.pairwise_cons.mp hsorted
    by_cases hk : key head.1 = key k
    · have hhead : head.1 = k := OrderKey.key_injective _ _ hk
      subst hhead
      have hnot : (head.1, v) ∉ rest := fun hmem =>
        not_before_of_key_eq rfl (h₁ (head.1, v) hmem)
      simp only [lookup, List.mem_cons, hnot, or_false, if_true, Option.some.injEq]
      exact ⟨fun h => (congrArg Prod.snd h).symm, fun h => Prod.ext rfl h.symm⟩
    · have hne : (k, v) ≠ head := fun h => hk (h ▸ rfl)
      simp [lookup, hk, hne, ih h₂]

end OrderedMap

end RingWallet
