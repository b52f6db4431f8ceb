import RingWallet.Bytes.Cursor
import RingWallet.Proofs.Except

/-!
# What a reader has read

A reader *consumes* what a writer writes if, whenever it gives a value, the bytes between the two
places of the cursor are those that the writer writes for this value (`ByteReader.Consumes`). With
such a reader nothing but written forms can be read, so no value has two of them.

A reader that is a chain of smaller ones is taken apart step by step (`bind_eq_ok`). Where the
bytes do not matter, `ByteReader.Gives` states a property of all values that a reader gives.
-/

set_option autoImplicit false

namespace RingWallet.ByteReader

variable {ε α β : Type}

/-- Whatever the reader gives, it has moved over the value's written form. -/
def Consumes (reader : ByteReader ε α) (write : α → Bytes) : Prop :=
  ∀ ⦃cursor next : Cursor⦄ ⦃a : α⦄, reader cursor = .ok (a, next) →
    cursor.rest = write a ++ next.rest

/-- A chain of readers gave its value behind the value of its first one. -/
theorem bind_eq_ok {reader : ByteReader ε α} {next : α → ByteReader ε β} {cursor last : Cursor}
    {b : β} (h : (reader >>= next) cursor = .ok (b, last)) :
    ∃ a between, reader cursor = .ok (a, between) ∧ next a between = .ok (b, last) := by
  obtain ⟨⟨a, between⟩, hreader, hnext⟩ := bind_eq_ok_iff.mp h
  exact ⟨a, between, hreader, hnext⟩

/-- The last reader of a chain only makes a value of what was read. -/
theorem Consumes.bind_pure {reader : ByteReader ε α} {write : α → Bytes}
    (h : reader.Consumes write) {f : α → β} {writeMade : β → Bytes}
    (hwrite : ∀ a, writeMade (f a) = write a) :
    Consumes (reader >>= fun a => pure (f a)) writeMade := by
  intro cursor last b hread
  obtain ⟨a, between, ha, hb⟩ := bind_eq_ok hread
  cases hb
  rw [hwrite]
  exact h ha

/-! ## Counted readings -/

theorem length_of_replicate {reader : ByteReader ε α} {count : Nat} {cursor last : Cursor}
    {items : List α} (h : replicate count reader cursor = .ok (items, last)) :
    items.length = count := by
  induction count generalizing cursor items with
  | zero =>
    cases h
    rfl
  | succ count ih =>
    obtain ⟨first, behindFirst, -, h⟩ := bind_eq_ok h
    obtain ⟨others, behindOthers, hothers, h⟩ := bind_eq_ok h
    cases h
    rw [List.length_cons, ih hothers]

/-- A counted reading moves over the written forms of its values, one behind the other. -/
theorem Consumes.replicate {reader : ByteReader ε α} {write : α → Bytes}
    (h : reader.Consumes write) (count : Nat) :
    Consumes (ByteReader.replicate count reader) (List.flatMap write) := by
  induction count with
  | zero =>
    intro cursor last items hread
    cases hread
    rfl
  | succ count ih =>
    intro cursor last items hread
    obtain ⟨first, behindFirst, hfirst, hread⟩ := bind_eq_ok hread
    obtain ⟨others, behindOthers, hothers, hread⟩ := bind_eq_ok hread
    cases hread
    rw [h hfirst, ih hothers, List.flatMap_cons, List.append_assoc]

/-! ## What is given -/

/-- Whatever the reader gives has a property. -/
def Gives (reader : ByteReader ε α) (property : α → Prop) : Prop :=
  ∀ ⦃cursor next : Cursor⦄ ⦃a : α⦄, reader cursor = .ok (a, next) → property a

theorem Gives.replicate {reader : ByteReader ε α} {property : α → Prop} (h : reader.Gives property)
    (count : Nat) :
    Gives (ByteReader.replicate count reader) fun items => ∀ item ∈ items, property item := by
  induction count with
  | zero =>
    intro cursor last items hread item hitem
    cases hread
    cases hitem
  | succ count ih =>
    intro cursor last items hread item hitem
    obtain ⟨first, behindFirst, hfirst, hread⟩ := bind_eq_ok hread
    obtain ⟨others, behindOthers, hothers, hread⟩ := bind_eq_ok hread
    cases hread
    rcases List.mem_cons.mp hitem with rfl | hitem
    · exact h hfirst
    · exact ih hothers item hitem

/-! ## Single pieces -/

variable [Truncation ε]

theorem consumes_fixed (n : Nat) :
    Consumes (fixed n : ByteReader ε (FixedBytes n)) FixedBytes.toList :=
  fun _ _ _ h => (fixed_eq_ok h).1

theorem take_eq_ok {n : Nat} {cursor next : Cursor} {piece : Bytes}
    (h : (take n : ByteReader ε Bytes) cursor = .ok (piece, next)) :
    piece.length = n ∧ cursor.rest = piece ++ next.rest := by
  obtain ⟨fixedPiece, between, hfixed, h⟩ := bind_eq_ok h
  cases h
  exact ⟨fixedPiece.length_eq, consumes_fixed n hfixed⟩

theorem consumes_byte : Consumes (byte : ByteReader ε UInt8) fun b => [b] := by
  rintro ⟨position, rest⟩ next b h
  cases rest with
  | nil => cases h
  | cons first rest =>
    cases h
    rfl

/-- A number fits its width, and the bytes are its digits. -/
theorem natLE_eq_ok {width : Nat} {cursor next : Cursor} {n : Nat}
    (h : (natLE width : ByteReader ε Nat) cursor = .ok (n, next)) :
    n < Bytes.count width ∧ cursor.rest = Bytes.ofNatLE width n ++ next.rest := by
  obtain ⟨digits, between, hdigits, h⟩ := bind_eq_ok h
  cases h
  obtain ⟨rfl, hrest⟩ := take_eq_ok hdigits
  exact ⟨Bytes.toNatLE_lt digits, by rw [Bytes.ofNatLE_toNatLE, hrest]⟩

theorem consumes_uint32 : Consumes (uint32 : ByteReader ε UInt32) Bytes.ofUInt32 := by
  intro cursor next v h
  obtain ⟨n, between, hn, h⟩ := bind_eq_ok h
  cases h
  obtain ⟨hlt, hrest⟩ := natLE_eq_ok hn
  rw [Bytes.ofUInt32, UInt32.toNat_ofNat_of_lt' hlt, hrest]

theorem consumes_uint64 : Consumes (uint64 : ByteReader ε UInt64) Bytes.ofUInt64 := by
  intro cursor next v h
  obtain ⟨n, between, hn, h⟩ := bind_eq_ok h
  cases h
  obtain ⟨hlt, hrest⟩ := natLE_eq_ok hn
  rw [Bytes.ofUInt64, UInt64.toNat_ofNat_of_lt' hlt, hrest]

end RingWallet.ByteReader
