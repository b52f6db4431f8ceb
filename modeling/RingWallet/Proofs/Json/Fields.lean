import RingWallet.Json.Record
import RingWallet.Proofs.Keyed

/-!
# Fields of a written record

An object with different names has each of its fields under its name, so a record that is written
with all its fields is read from them, whatever it says of missing ones
(`JsonRecord.ofTree?_object`, `JsonRecord.find?_written`).
-/

set_option autoImplicit false

namespace RingWallet

namespace JsonRecord

/-- What is written for the fields of an object. -/
def written (fields : List (String × Json)) : JsonRecord :=
  ⟨fields.map fun field => (field.1, field.2.toTree), false⟩

theorem select_fieldTrees {names : List String} {fields : List (String × Json)}
    (hnodup : (fields.map Prod.fst).Nodup) (hnames : fields.map Prod.fst ⊆ names) :
    select names (Json.fieldTrees fields) = some (written fields).values := by
  induction fields with
  | nil => rfl
  | cons field rest ih =>
    obtain ⟨name, value⟩ := field
    obtain ⟨hnotMem, hrest⟩ := List.nodup_cons.mp (List.map_cons ▸ hnodup)
    obtain ⟨hname, hsubset⟩ := List.cons_subset.mp (List.map_cons ▸ hnames)
    have hunique : (written rest).values.any (·.1 == name) = false := by
      rw [List.any_eq_false]
      intro other hother heq
      obtain ⟨field, hmem, rfl⟩ := List.mem_map.mp hother
      exact hnotMem (List.mem_map.mpr ⟨field, hmem, eq_of_beq heq⟩)
    have hcontains : names.contains name = true := List.contains_iff_mem.mpr hname
    rw [Json.fieldTrees, select, ih hrest hsubset]
    simp only [Option.bind_eq_bind, Option.bind_some, hcontains, hunique]
    rfl

/-- An object with the names of a record is read as the record. -/
theorem ofTree?_object {names : List String} {fields : List (String × Json)}
    (hnodup : names.Nodup) (hnames : fields.map Prod.fst = names) :
    ofTree? names (Json.object fields).toTree = some (written fields) := by
  subst hnames
  rw [Json.toTree, ofTree?, select_fieldTrees hnodup (List.Subset.refl _)]
  rfl

section Written

variable {α : Type} {fields : List (String × Json)} {name : String} {value : Json}
  {decode : JsonDecoder α} {a : α}

theorem find?_written (hnodup : (fields.map Prod.fst).Nodup) (hmem : (name, value) ∈ fields) :
    (written fields).find? name = some value.toTree := by
  have hfound := find?_key_eq_some Prod.fst hnodup hmem
  unfold find? written
  rw [List.find?_map]
  change (Option.map _ (fields.find? (Prod.fst · == name))).map Prod.snd = _
  rw [hfound]
  rfl

theorem required_written (hnodup : (fields.map Prod.fst).Nodup) (hmem : (name, value) ∈ fields)
    (hdecode : decode value.toTree = some a) : (written fields).required name decode = some a := by
  rw [required, find?_written hnodup hmem]
  exact hdecode

/-- A field that is there does not mean what it would if it were missing. -/
theorem withDefault_written {default : α} (hnodup : (fields.map Prod.fst).Nodup)
    (hmem : (name, value) ∈ fields) (hdecode : decode value.toTree = some a) :
    (written fields).withDefault name default decode = some a := by
  rw [withDefault, find?_written hnodup hmem]
  exact hdecode

/-- A value or null is read as what it is, if no value is written as null. -/
theorem optional_written {encode : α → Json} {value? : Option α}
    (hnodup : (fields.map Prod.fst).Nodup) (hmem : (name, .ofOption encode value?) ∈ fields)
    (hdecode : ∀ a, decode (encode a).toTree = some a) (hnull : ∀ a, (encode a).toTree ≠ .null) :
    (written fields).optional name decode = some value? := by
  rw [optional, find?_written hnodup hmem]
  cases value? with
  | none => rfl
  | some a =>
    dsimp only [Json.ofOption]
    split
    · rename_i heq
      exact absurd (Option.some.inj heq) (hnull a)
    · rename_i heq
      rw [← Option.some.inj heq, hdecode]
      rfl
    · rename_i heq
      cases heq

end Written

end JsonRecord

namespace JsonDecoder

/-! ## Whole numbers -/

theorem uint64_ofUInt64 (n : UInt64) : uint64 (Json.ofUInt64 n).toTree = some n := rfl

theorem uint8_ofUInt8 (n : UInt8) : uint8 (Json.ofUInt8 n).toTree = some n := by
  have hlt : n.toUInt64.toNat < UInt8.size := by
    rw [UInt8.toNat_toUInt64]
    exact n.toNat_lt
  change ((if n.toUInt64.toNat < UInt8.size then some n.toUInt64.toNat else none).map
    UInt8.ofNat) = some n
  rw [if_pos hlt, Option.map_some, UInt8.toNat_toUInt64, UInt8.ofNat_toNat]

end JsonDecoder

end RingWallet
