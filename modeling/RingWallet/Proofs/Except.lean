import Mathlib.Data.List.Forall2

/-!
# Computations that may fail

What is known of a computation once it has succeeded: every step of it has (`bind_eq_ok_iff`), and so
has the step for every member of a list (`mapM_eq_ok_iff`). The steps over a list depend only on
what is done with its members (`mapM_congr_mem`).
-/

set_option autoImplicit false

namespace RingWallet

variable {ε ε' α β γ : Type}

theorem isOk_iff {result : Except ε α} : result.isOk = true ↔ ∃ a, result = .ok a := by
  cases result with
  | error e => simp [Except.isOk, Except.toBool]
  | ok a => simp [Except.isOk, Except.toBool]

/-- A chain succeeds if both of its steps do. -/
theorem bind_eq_ok_iff {first : Except ε α} {next : α → Except ε β} {b : β} :
    first >>= next = .ok b ↔ ∃ a, first = .ok a ∧ next a = .ok b := by
  cases first with
  | error e => simp [bind, Except.bind]
  | ok a => simp [bind, Except.bind]

/-- A chain whose second step can succeed behind any result or behind none succeeds if both can. -/
theorem exists_bind_eq_ok_iff {first : Except ε α} {next : α → Except ε β} {good : Prop}
    (hnext : ∀ a, (∃ b, next a = .ok b) ↔ good) :
    (∃ b, first >>= next = .ok b) ↔ (∃ a, first = .ok a) ∧ good := by
  simp only [bind_eq_ok_iff]
  constructor
  · rintro ⟨b, a, hfirst, hb⟩
    exact ⟨⟨a, hfirst⟩, (hnext a).mp ⟨b, hb⟩⟩
  · rintro ⟨⟨a, hfirst⟩, hgood⟩
    obtain ⟨b, hb⟩ := (hnext a).mpr hgood
    exact ⟨b, a, hfirst, hb⟩

/-- The end of a chain never fails. -/
theorem exists_pure_eq_ok_iff {a : α} : (∃ b, (pure a : Except ε α) = .ok b) ↔ True :=
  iff_of_true ⟨a, rfl⟩ trivial

theorem map_eq_ok_iff {result : Except ε α} {f : α → β} {b : β} :
    result.map f = .ok b ↔ ∃ a, result = .ok a ∧ f a = b := by
  cases result with
  | error e => simp [Except.map]
  | ok a => simp [Except.map]

/-- Rewording a failure leaves results alone. -/
theorem mapError_eq_ok_iff {result : Except ε α} {reword : ε → ε'} {a : α} :
    result.mapError reword = .ok a ↔ result = .ok a := by
  cases result with
  | error e =>
    constructor
    · intro h
      cases h
    · intro h
      cases h
  | ok value =>
    constructor
    · intro h
      cases h
      rfl
    · intro h
      cases h
      rfl

/-- If every step succeeds with a result that belongs to its element, so does the whole list. -/
theorem exists_mapM_eq_ok {f : α → Except ε β} (view : β → γ) (target : α → γ) {xs : List α}
    (h : ∀ x ∈ xs, ∃ y, f x = .ok y ∧ view y = target x) :
    ∃ ys, xs.mapM f = .ok ys ∧ ys.map view = xs.map target := by
  induction xs with
  | nil => exact ⟨[], rfl, rfl⟩
  | cons x rest ih =>
    obtain ⟨y, hy, hview⟩ := h x List.mem_cons_self
    obtain ⟨ys, hys, hviews⟩ := ih fun x hmem => h x (List.mem_cons_of_mem _ hmem)
    refine ⟨y :: ys, ?_, by rw [List.map_cons, List.map_cons, hview, hviews]⟩
    rw [List.mapM_cons, hy, hys]
    rfl

/-- A list is treated with given results exactly if every element is, with its own one. -/
theorem mapM_eq_ok_iff {f : α → Except ε β} {xs : List α} {ys : List β} :
    xs.mapM f = .ok ys ↔ List.Forall₂ (fun x y => f x = .ok y) xs ys := by
  induction xs generalizing ys with
  | nil =>
    rw [List.forall₂_nil_left_iff]
    constructor
    · intro h
      cases h
      rfl
    · rintro rfl
      rfl
  | cons x rest ih =>
    rw [List.mapM_cons, bind_eq_ok_iff, List.forall₂_cons_left_iff]
    constructor
    · rintro ⟨y, hy, h⟩
      obtain ⟨tail, htail, h⟩ := bind_eq_ok_iff.mp h
      cases h
      exact ⟨y, tail, hy, ih.mp htail, rfl⟩
    · rintro ⟨y, tail, hy, htail, rfl⟩
      exact ⟨y, hy, bind_eq_ok_iff.mpr ⟨tail, ih.mpr htail, rfl⟩⟩

/-- In related lists, every element of the second has a partner in the first. -/
theorem exists_of_mem_right {related : α → β → Prop} {xs : List α} {ys : List β}
    (h : List.Forall₂ related xs ys) {y : β} (hy : y ∈ ys) : ∃ x ∈ xs, related x y := by
  induction h with
  | nil => cases hy
  | cons hfirst _ ih =>
    rcases List.mem_cons.mp hy with rfl | hrest
    · exact ⟨_, List.mem_cons_self, hfirst⟩
    · obtain ⟨x, hx, hrelated⟩ := ih hrest
      exact ⟨x, List.mem_cons_of_mem _ hx, hrelated⟩

/-- If every result belongs to its element, the results of a list belong to the list. -/
theorem map_of_mapM_eq_ok {f : α → Except ε β} {view : β → γ} {target : α → γ}
    (h : ∀ x y, f x = .ok y → view y = target x) {xs : List α} {ys : List β}
    (hys : xs.mapM f = .ok ys) : ys.map view = xs.map target := by
  have hpairs := mapM_eq_ok_iff.mp hys
  clear hys
  induction hpairs with
  | nil => rfl
  | cons hxy _ ih => rw [List.map_cons, List.map_cons, h _ _ hxy, ih]

/-- The steps over a list succeed exactly if the step for every member does. -/
theorem exists_mapM_eq_ok_iff {f : α → Except ε β} {xs : List α} :
    (∃ ys, xs.mapM f = .ok ys) ↔ ∀ x ∈ xs, ∃ y, f x = .ok y := by
  constructor
  · rintro ⟨ys, hys⟩ x hx
    obtain ⟨y, -, hxy⟩ := exists_of_mem_right (mapM_eq_ok_iff.mp hys).flip hx
    exact ⟨y, hxy⟩
  · intro h
    -- Nothing is asked of the results but that they are there.
    obtain ⟨ys, hys, -⟩ := exists_mapM_eq_ok (fun _ => ()) (fun _ => ()) fun x hx => by
      obtain ⟨y, hy⟩ := h x hx
      exact ⟨y, hy, rfl⟩
    exact ⟨ys, hys⟩

/-- Two ways to treat a list agree, failures included, if they agree on its members. -/
theorem mapM_congr_mem {f g : α → Except ε β} {xs : List α} (h : ∀ x ∈ xs, f x = g x) :
    xs.mapM f = xs.mapM g := by
  induction xs with
  | nil => rfl
  | cons x rest ih =>
    rw [List.mapM_cons, List.mapM_cons, h x List.mem_cons_self,
      ih fun y hy => h y (List.mem_cons_of_mem _ hy)]

end RingWallet
