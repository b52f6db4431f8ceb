import RingWallet.Bytes.Cursor

/-!
# What a reader reads

A reader *reads* a piece of bytes as a value if it gives the value wherever the piece stands in
front, and stops right behind it (`ByteReader.Reads`). Pieces of readers that follow each other are
put one behind the other (`Reads.bind`), so a reader built from smaller ones reads what the
corresponding writer writes.
-/

set_option autoImplicit false

namespace RingWallet.ByteReader

variable {ε α β : Type}

/-- In front of any bytes, the reader takes the piece as the value. -/
def Reads (reader : ByteReader ε α) (piece : Bytes) (a : α) : Prop :=
  ∀ position rest, reader ⟨position, piece ++ rest⟩ = .ok (a, ⟨position + piece.length, rest⟩)

namespace Reads

theorem pure (a : α) : Reads (Pure.pure a : ByteReader ε α) [] a :=
  fun _ _ => rfl

/-- A chain of readers goes on behind the first piece. -/
theorem bind_apply {reader : ByteReader ε α} {piece : Bytes} {a : α} (h : reader.Reads piece a)
    (next : α → ByteReader ε β) (position : Nat) (rest : Bytes) :
    (reader >>= next) ⟨position, piece ++ rest⟩ = next a ⟨position + piece.length, rest⟩ := by
  change (reader ⟨position, piece ++ rest⟩ >>= fun result => next result.1 result.2) = _
  rw [h]
  rfl

theorem bind {reader : ByteReader ε α} {next : α → ByteReader ε β} {piece behind : Bytes} {a : α}
    {b : β} (hreader : reader.Reads piece a) (hnext : (next a).Reads behind b) :
    Reads (reader >>= next) (piece ++ behind) b := by
  intro position rest
  rw [List.append_assoc, hreader.bind_apply, hnext, List.length_append, Nat.add_assoc]

/-- The last reader of a chain only makes a value of what was read. -/
theorem bind_pure {reader : ByteReader ε α} {piece : Bytes} {a : α} (h : reader.Reads piece a)
    (f : α → β) : Reads (reader >>= fun a => Pure.pure (f a)) piece (f a) := by
  have hboth : Reads (reader >>= fun a => Pure.pure (f a)) (piece ++ []) (f a) := h.bind (.pure _)
  rw [List.append_nil] at hboth
  exact hboth

/-- What a reader reads from the start of a byte string. -/
theorem runFrom {reader : ByteReader ε α} {piece : Bytes} {a : α} (h : reader.Reads piece a)
    (rest : Bytes) : reader.runFrom (piece ++ rest) = .ok (a, ⟨piece.length, rest⟩) := by
  have hfront := h 0 rest
  rw [Nat.zero_add] at hfront
  exact hfront

variable [Truncation ε]

theorem fixed {n : Nat} (piece : FixedBytes n) :
    Reads (ByteReader.fixed n : ByteReader ε (FixedBytes n)) piece.toList piece := by
  intro position rest
  rw [fixed_append, FixedBytes.length_toList]

theorem take (piece : Bytes) :
    Reads (ByteReader.take piece.length : ByteReader ε Bytes) piece piece := by
  have hfixed := fixed (ε := ε) (⟨piece, rfl⟩ : FixedBytes piece.length)
  exact hfixed.bind_pure FixedBytes.toList

theorem byte (b : UInt8) : Reads (ByteReader.byte : ByteReader ε UInt8) [b] b :=
  fun _ _ => rfl

/-- A number that fits its width is read as written. -/
theorem natLE {width n : Nat} (h : n < Bytes.count width) :
    Reads (ByteReader.natLE width : ByteReader ε Nat) (Bytes.ofNatLE width n) n := by
  have htake := take (ε := ε) (Bytes.ofNatLE width n)
  rw [Bytes.length_ofNatLE] at htake
  have hread := htake.bind_pure Bytes.toNatLE
  rw [Bytes.toNatLE_ofNatLE width n h] at hread
  exact hread

theorem uint32 (v : UInt32) :
    Reads (ByteReader.uint32 : ByteReader ε UInt32) (Bytes.ofUInt32 v) v := by
  have hfits : v.toNat < Bytes.count 4 := v.toNat_lt
  have hread := (natLE (ε := ε) hfits).bind_pure UInt32.ofNat
  rw [UInt32.ofNat_toNat] at hread
  exact hread

theorem uint64 (v : UInt64) :
    Reads (ByteReader.uint64 : ByteReader ε UInt64) (Bytes.ofUInt64 v) v := by
  have hfits : v.toNat < Bytes.count 8 := v.toNat_lt
  have hread := (natLE (ε := ε) hfits).bind_pure UInt64.ofNat
  rw [UInt64.ofNat_toNat] at hread
  exact hread

omit [Truncation ε] in
/-- As many readings as there are values, one piece for each. -/
theorem replicate {reader : ByteReader ε α} {γ : Type} (write : γ → Bytes) (value : γ → α)
    {items : List γ} (h : ∀ item ∈ items, reader.Reads (write item) (value item)) :
    Reads (ByteReader.replicate items.length reader) (items.flatMap write)
      (items.map value) := by
  induction items with
  | nil => exact .pure []
  | cons first rest ih =>
    have hfirst := h first List.mem_cons_self
    have hrest := ih fun item hmem => h item (List.mem_cons_of_mem _ hmem)
    rw [List.flatMap_cons]
    exact hfirst.bind (hrest.bind_pure (value first :: ·))

omit [Truncation ε] in
/-- Further readings go on behind those that are known. -/
theorem replicate_append {reader : ByteReader ε α} {γ : Type} (write : γ → Bytes) (value : γ → α)
    {items : List γ} (h : ∀ item ∈ items, reader.Reads (write item) (value item)) (count : Nat)
    (position : Nat) (rest : Bytes) :
    ByteReader.replicate (items.length + count) reader ⟨position, items.flatMap write ++ rest⟩ =
      (ByteReader.replicate count reader
        ⟨position + (items.flatMap write).length, rest⟩).map fun result =>
          (items.map value ++ result.1, result.2) := by
  induction items generalizing position with
  | nil =>
    rw [List.length_nil, Nat.zero_add]
    change ByteReader.replicate count reader ⟨position, rest⟩ =
      (ByteReader.replicate count reader ⟨position, rest⟩).map id
    cases ByteReader.replicate count reader ⟨position, rest⟩ <;> rfl
  | cons first others ih =>
    have hfirst := h first List.mem_cons_self
    have hothers := ih (fun item hmem => h item (List.mem_cons_of_mem _ hmem))
      (position + (write first).length)
    rw [List.length_cons, Nat.add_right_comm, List.flatMap_cons, List.append_assoc,
      List.length_append, ← Nat.add_assoc]
    rw [ByteReader.replicate, hfirst.bind_apply]
    change (ByteReader.replicate (others.length + count) reader _ >>= fun result =>
      Except.ok (value first :: result.1, result.2)) = _
    rw [hothers]
    cases ByteReader.replicate count reader _ <;> rfl

end Reads

end RingWallet.ByteReader
