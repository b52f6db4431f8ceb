import Mathlib.Data.List.Induction
import RingWallet.Names
import RingWallet.Proofs.Except

/-!
# What a hexadecimal text spells

A text spells bytes if it is the text that is written for them, up to the case of its letters
(`Hex.Spells`). Reading gives exactly the bytes that a text spells (`Hex.decode_eq_ok_iff`), and a
text spells a number of bytes exactly if it has two digits for each of them (`Hex.IsDigits`).

Reading looks at UTF-8 bytes. A digit is one byte, and any other character already fails with its
first (`Hex.CharCase`). So texts that differ in the case of digits are read alike, also where reading
fails (`Hex.SameUpToCase.decode_eq`).
-/

set_option autoImplicit false

namespace RingWallet

open Text (hexDigit)

namespace Hex

/-- A text is the text of given bytes, up to the case of its letters. -/
def Spells (text : String) (bytes : Bytes) : Prop :=
  text.toList.map Char.toLower = encodeChars bytes

/-- The digits of either case. -/
def digits : List Char := "0123456789abcdefABCDEF".toList

/-- A text of digits, two for each of a number of bytes. -/
structure IsDigits (count : Nat) (text : String) : Prop where
  length_eq : text.toList.length = 2 * count
  mem_digits : ∀ char ∈ text.toList, char ∈ digits

/-! ## Digits -/

theorem hexDigit_injective {n m : Nat} (hn : n < 16) (hm : m < 16) (h : hexDigit n = hexDigit m) :
    n = m := by
  have hall : ∀ n m : Fin 16, hexDigit n = hexDigit m → n = m := by decide
  exact congrArg Fin.val (hall ⟨n, hn⟩ ⟨m, hm⟩ h)

theorem val_hexDigit_lt {n : Nat} (hn : n < 16) : (hexDigit n).val.toNat < 128 := by
  have hall : ∀ n : Fin 16, (hexDigit n).val.toNat < 128 := by decide
  exact hall ⟨n, hn⟩

/-- A character behind ASCII has no other case. -/
theorem toLower_of_ge {char : Char} (h : 128 ≤ char.val.toNat) : char.toLower = char := by
  unfold Char.toLower
  rw [dif_neg]
  rintro ⟨-, hle⟩
  have hle : char.val.toNat ≤ 90 := hle
  omega

/-- The UTF-8 bytes of a character: a single one with the value of a digit, or a first one that is
no digit. -/
inductive CharCase (char : Char) : Prop
  | digit {byte : UInt8} {n : Nat} (hn : n < 16) (hbytes : String.utf8EncodeChar char = [byte])
      (hvalue : digitValue? byte = some (UInt8.ofNat n)) (hlower : char.toLower = hexDigit n)
  | other {first : UInt8} {more : Bytes} (hbytes : String.utf8EncodeChar char = first :: more)
      (hvalue : digitValue? first = none) (hlower : ∀ n < 16, char.toLower ≠ hexDigit n)

/-- What holds of the characters of ASCII, one by one. -/
theorem of_ascii {holds : Char → Prop} (h : ∀ v : Fin 128, holds (Char.ofNat v)) :
    ∀ char : Char, char.val.toNat < 128 → holds char := by
  intro char hascii
  have hchar : Char.ofNat char.val.toNat = char := Char.ofNat_toNat char
  rw [← hchar]
  exact h ⟨char.val.toNat, hascii⟩

theorem charCase_of_ascii {char : Char} (hascii : char.val.toNat < 128) : CharCase char := by
  -- The table of digits and the change of case agree on each of the 128 characters.
  have hall : ∀ char : Char, char.val.toNat < 128 →
      (∃ n : Fin 16, digitValue? (UInt8.ofNat char.val.toNat) = some (UInt8.ofNat n) ∧
        char.toLower = hexDigit n) ∨
      (digitValue? (UInt8.ofNat char.val.toNat) = none ∧
        ∀ n : Fin 16, char.toLower ≠ hexDigit n) :=
    of_ascii (by decide +kernel)
  have hbytes : String.utf8EncodeChar char = [UInt8.ofNat char.val.toNat] := by
    unfold String.utf8EncodeChar
    exact if_pos (by omega)
  rcases hall char hascii with ⟨n, hvalue, hlower⟩ | ⟨hvalue, hlower⟩
  · exact .digit n.isLt hbytes hvalue hlower
  · exact .other hbytes hvalue fun n hn => hlower ⟨n, hn⟩

/-- Only ASCII bytes are digits. -/
theorem digitValue?_of_ge {byte : UInt8} (h : 128 ≤ byte.toNat) : digitValue? byte = none := by
  have hgt : ∀ last : UInt8, last.toNat < 128 → ¬ byte ≤ last := by
    intro last hlast hle
    have hle : byte.toNat ≤ last.toNat := hle
    omega
  unfold digitValue?
  rw [decide_eq_false (hgt 57 (by decide)), decide_eq_false (hgt 102 (by decide)),
    decide_eq_false (hgt 70 (by decide))]
  simp only [Bool.and_false, Bool.false_eq_true, if_false]

/-- A character behind ASCII begins with a byte behind ASCII. -/
theorem exists_utf8EncodeChar_of_ge {char : Char} (h : 128 ≤ char.val.toNat) :
    ∃ first more, String.utf8EncodeChar char = first :: more ∧ 128 ≤ first.toNat := by
  unfold String.utf8EncodeChar
  dsimp only
  rw [if_neg (by omega)]
  -- Two, three or four bytes: the mark in front of the first says how many, and lies behind ASCII.
  split
  · refine ⟨_, _, rfl, ?_⟩
    rw [UInt8.toNat_ofNat']
    omega
  · split
    · refine ⟨_, _, rfl, ?_⟩
      rw [UInt8.toNat_ofNat']
      omega
    · refine ⟨_, _, rfl, ?_⟩
      rw [UInt8.toNat_ofNat']
      omega

theorem charCase (char : Char) : CharCase char := by
  by_cases h : char.val.toNat < 128
  · exact charCase_of_ascii h
  · have hge : 128 ≤ char.val.toNat := Nat.le_of_not_lt h
    obtain ⟨first, more, hbytes, hfirst⟩ := exists_utf8EncodeChar_of_ge hge
    refine .other hbytes (digitValue?_of_ge hfirst) fun n hn heq => h ?_
    rw [toLower_of_ge hge] at heq
    rw [heq]
    exact val_hexDigit_lt hn

/-- The digits are the characters whose lower case is a written digit. -/
theorem mem_digits_iff (char : Char) :
    char ∈ digits ↔ ∃ n < 16, char.toLower = hexDigit n := by
  constructor
  · intro hmem
    have hall : (digits.all fun char => ((List.range 16).map hexDigit).contains char.toLower) =
        true := by decide
    have hlower := List.contains_iff_mem.mp (List.all_eq_true.mp hall char hmem)
    obtain ⟨n, hn, hlower⟩ := List.mem_map.mp hlower
    exact ⟨n, List.mem_range.mp hn, hlower.symm⟩
  · rintro ⟨n, hn, hlower⟩
    by_cases h : char.val.toNat < 128
    · have hall : ∀ char : Char, char.val.toNat < 128 →
          ∀ n : Fin 16, char.toLower = hexDigit n → char ∈ digits :=
        of_ascii (by decide +kernel)
      exact hall char h ⟨n, hn⟩ hlower
    · -- A character behind ASCII is its own lower case, and every written digit is ASCII.
      rw [toLower_of_ge (Nat.le_of_not_lt h)] at hlower
      rw [hlower] at h
      exact absurd (val_hexDigit_lt hn) h

/-! ## Pairs of digits -/

theorem toNat_join {high low : Nat} (hhigh : high < 16) (hlow : low < 16) :
    (UInt8.ofNat high * 16 + UInt8.ofNat low).toNat = high * 16 + low := by
  rw [UInt8.toNat_add, UInt8.toNat_mul, UInt8.toNat_ofNat', UInt8.toNat_ofNat']
  change (high % 256 * 16 % 256 + low % 256) % 256 = high * 16 + low
  omega

theorem length_encodeChars (bytes : Bytes) : (encodeChars bytes).length = 2 * bytes.length := by
  induction bytes with
  | nil => rfl
  | cons byte rest ih =>
    change (encodeChars rest).length + 2 = 2 * (rest.length + 1)
    omega

/-- Only digits are written. -/
theorem exists_of_mem_encodeChars {char : Char} {bytes : Bytes} (h : char ∈ encodeChars bytes) :
    ∃ n < 16, char = hexDigit n := by
  obtain ⟨byte, -, hmem⟩ := List.mem_flatMap.mp h
  have hlt := byte.toNat_lt
  rcases List.mem_cons.mp hmem with rfl | hmem
  · exact ⟨_, by omega, rfl⟩
  · cases List.mem_singleton.mp hmem
    exact ⟨_, Nat.mod_lt _ (by decide), rfl⟩

/-- Only digits are read. -/
theorem exists_of_mem_of_lower {chars : List Char} {bytes : Bytes}
    (h : chars.map Char.toLower = encodeChars bytes) {char : Char} (hmem : char ∈ chars) :
    ∃ n < 16, char.toLower = hexDigit n :=
  exists_of_mem_encodeChars (h ▸ List.mem_map_of_mem hmem)

/-- The first two digits are those of the first byte. -/
theorem cons_cons_eq_encodeChars_iff {high low : Nat} (hhigh : high < 16) (hlow : low < 16)
    {chars : List Char} {bytes : Bytes} :
    hexDigit high :: hexDigit low :: chars = encodeChars bytes ↔
      ∃ rest, bytes = (UInt8.ofNat high * 16 + UInt8.ofNat low) :: rest ∧
        chars = encodeChars rest := by
  constructor
  · intro h
    cases bytes with
    | nil => cases h
    | cons byte rest =>
      obtain ⟨hfirst, h⟩ := List.cons.inj h
      obtain ⟨hsecond, hrest⟩ := List.cons.inj h
      have hlt := byte.toNat_lt
      cases hexDigit_injective hhigh (by omega) hfirst
      cases hexDigit_injective hlow (Nat.mod_lt _ (by decide)) hsecond
      exact ⟨rest, by rw [digits_join], hrest⟩
  · rintro ⟨rest, rfl, rfl⟩
    -- The byte is written with the digits that it is joined from.
    change _ = digitsOf _ ++ encodeChars rest
    rw [digitsOf, toNat_join hhigh hlow, show (high * 16 + low) / 16 = high by omega,
      show (high * 16 + low) % 16 = low by omega]
    rfl

/-- A first byte that is no digit is refused. -/
theorem decodePairs_ne_ok_of_first {first : UInt8} (hfirst : digitValue? first = none)
    (position : Nat) (more bytes : Bytes) : decodePairs position (first :: more) ≠ .ok bytes := by
  intro h
  cases more with
  | nil => cases h
  | cons second rest =>
    rw [decodePairs, hfirst] at h
    cases h

/-- A second byte that is no digit is refused. -/
theorem decodePairs_ne_ok_of_second {second : UInt8} (hsecond : digitValue? second = none)
    (position : Nat) (first : UInt8) (more bytes : Bytes) :
    decodePairs position (first :: second :: more) ≠ .ok bytes := by
  intro h
  rw [decodePairs, hsecond] at h
  cases hfirst : digitValue? first with
  | none =>
    rw [hfirst] at h
    cases h
  | some value =>
    rw [hfirst] at h
    cases h

theorem decodePairs_cons_cons_iff {first second high low : UInt8}
    (hhigh : digitValue? first = some high) (hlow : digitValue? second = some low)
    {position : Nat} {rest bytes : Bytes} :
    decodePairs position (first :: second :: rest) = .ok bytes ↔
      ∃ others, bytes = (high * 16 + low) :: others ∧
        decodePairs (position + 2) rest = .ok others := by
  rw [decodePairs, hhigh, hlow]
  dsimp only
  cases decodePairs (position + 2) rest with
  | error e => simp
  | ok others => simp [eq_comm]

/-- The UTF-8 bytes of characters are read as the bytes whose text they are. -/
theorem decodePairs_utf8_iff (position : Nat) (bytes : Bytes) (chars : List Char) :
    decodePairs position (chars.flatMap String.utf8EncodeChar) = .ok bytes ↔
      chars.map Char.toLower = encodeChars bytes := by
  -- The induction is on two characters at a time, the ones that make a byte if they are digits.
  induction chars using List.twoStepInduction generalizing position bytes with
  | nil =>
    cases bytes with
    | nil => simp [decodePairs, encodeChars]
    | cons byte rest => simp [decodePairs, encodeChars, digitsOf]
  | singleton char =>
    refine iff_of_false ?_ ?_
    · rw [List.flatMap_singleton]
      cases charCase char with
      | digit _ hbytes _ _ =>
        rw [hbytes]
        intro h
        cases h
      | other hbytes hvalue _ =>
        rw [hbytes]
        exact decodePairs_ne_ok_of_first hvalue _ _ _
    · intro h
      have hlength := congrArg List.length h
      rw [length_encodeChars, List.length_map, List.length_singleton] at hlength
      omega
  | cons_cons first second rest ih _ =>
    rw [List.flatMap_cons, List.flatMap_cons]
    cases charCase first with
    | other hbytes hvalue hlower =>
      rw [hbytes]
      refine iff_of_false (decodePairs_ne_ok_of_first hvalue _ _ _) ?_
      intro h
      obtain ⟨n, hn, heq⟩ := exists_of_mem_of_lower h List.mem_cons_self
      exact hlower n hn heq
    | @digit _ high hhigh hfirst hhighValue hhighLower =>
      rw [hfirst]
      cases charCase second with
      | other hbytes hvalue hlower =>
        rw [hbytes]
        refine iff_of_false (decodePairs_ne_ok_of_second hvalue _ _ _ _) ?_
        intro h
        obtain ⟨n, hn, heq⟩ := exists_of_mem_of_lower h
          (List.mem_cons_of_mem _ List.mem_cons_self)
        exact hlower n hn heq
      | @digit _ low hlow hsecond hlowValue hlowLower =>
        rw [hsecond, List.map_cons, List.map_cons, hhighLower, hlowLower,
          cons_cons_eq_encodeChars_iff hhigh hlow]
        refine (decodePairs_cons_cons_iff hhighValue hlowValue).trans ?_
        exact exists_congr fun others => and_congr_right fun _ => ih (position + 2) others

theorem length_of_decodePairs {position : Nat} {bytes data : Bytes}
    (h : decodePairs position data = .ok bytes) : data.length = 2 * bytes.length := by
  induction data using List.twoStepInduction generalizing position bytes with
  | nil =>
    cases h
    rfl
  | singleton byte => cases h
  | cons_cons first second rest ih _ =>
    cases hfirst : digitValue? first with
    | none => exact absurd h (decodePairs_ne_ok_of_first hfirst _ _ _)
    | some high =>
      cases hsecond : digitValue? second with
      | none => exact absurd h (decodePairs_ne_ok_of_second hsecond _ _ _ _)
      | some low =>
        obtain ⟨others, rfl, hrest⟩ := (decodePairs_cons_cons_iff hfirst hsecond).mp h
        have hlength := ih hrest
        rw [List.length_cons, List.length_cons, List.length_cons]
        omega

/-! ## Texts -/

/-- Reading a text gives the bytes that it spells. -/
theorem decode_eq_ok_iff {text : String} {bytes : Bytes} :
    decode text = .ok bytes ↔ Spells text bytes := by
  have hpairs := decodePairs_utf8_iff 0 bytes text.toList
  unfold decode decodeUtf8
  split
  · rename_i hodd
    refine iff_of_false nofun fun hspells => ?_
    have hlength := length_of_decodePairs (hpairs.mpr hspells)
    change (Text.utf8 text).length = _ at hlength
    omega
  · exact hpairs

/-- Pairs of digits are written for some bytes. -/
theorem exists_encodeChars_eq (count : Nat) (chars : List Char) (hlength : chars.length = 2 * count)
    (hdigits : ∀ char ∈ chars, ∃ n < 16, char = hexDigit n) :
    ∃ bytes, chars = encodeChars bytes ∧ bytes.length = count := by
  induction count generalizing chars with
  | zero => exact ⟨[], List.eq_nil_of_length_eq_zero hlength, rfl⟩
  | succ count ih =>
    obtain ⟨first, chars, rfl⟩ := List.exists_cons_of_length_pos (by omega : 0 < chars.length)
    rw [List.length_cons] at hlength
    obtain ⟨second, rest, rfl⟩ := List.exists_cons_of_length_pos (by omega : 0 < chars.length)
    rw [List.length_cons] at hlength
    obtain ⟨high, hhigh, rfl⟩ := hdigits first List.mem_cons_self
    obtain ⟨low, hlow, rfl⟩ := hdigits second (List.mem_cons_of_mem _ List.mem_cons_self)
    obtain ⟨others, hrest, hcount⟩ := ih rest (by omega) fun char hmem =>
      hdigits char (List.mem_cons_of_mem _ (List.mem_cons_of_mem _ hmem))
    refine ⟨_ :: others, (cons_cons_eq_encodeChars_iff hhigh hlow).mpr ⟨others, rfl, hrest⟩, ?_⟩
    rw [List.length_cons, hcount]

/-- A number of bytes are spelled by a text exactly if it has two digits for each of them. -/
theorem exists_spells_iff {count : Nat} {text : String} :
    (∃ bytes, Spells text bytes ∧ bytes.length = count) ↔ IsDigits count text := by
  constructor
  · rintro ⟨bytes, hspells, rfl⟩
    refine ⟨?_, fun char hmem => (mem_digits_iff char).mpr (exists_of_mem_of_lower hspells hmem)⟩
    rw [← length_encodeChars, ← hspells, List.length_map]
  · intro h
    refine exists_encodeChars_eq count _ (by rw [List.length_map, h.length_eq]) fun char hmem => ?_
    obtain ⟨original, horiginal, rfl⟩ := List.mem_map.mp hmem
    exact (mem_digits_iff original).mp (h.mem_digits original horiginal)

/-- A text can be read exactly if it has two digits for each of some number of bytes. -/
theorem exists_decode_eq_ok_iff {text : String} :
    (∃ bytes, decode text = .ok bytes) ↔ ∃ count, IsDigits count text := by
  simp only [decode_eq_ok_iff, ← exists_spells_iff]
  constructor
  · rintro ⟨bytes, hspells⟩
    exact ⟨_, bytes, hspells, rfl⟩
  · rintro ⟨_, bytes, hspells, -⟩
    exact ⟨bytes, hspells⟩

/-! ## The case of digits -/

/-- The same characters in the same places, up to the case of hexadecimal digits. -/
def SameUpToCase (text variant : String) : Prop :=
  List.Forall₂ (fun char other => char = other ∨ char ∈ digits ∧ other.toLower = char.toLower)
    text.toList variant.toList

/-- Reading makes the same of two bytes: they are the same, or digits of one value. -/
def ReadAlike (byte other : UInt8) : Prop :=
  byte = other ∨ ∃ value, digitValue? byte = some value ∧ digitValue? other = some value

/-- A digit in either case is one byte of its value. -/
theorem exists_byte_of_toLower {char : Char} {n : Nat} (hn : n < 16)
    (hlower : char.toLower = hexDigit n) :
    ∃ byte, String.utf8EncodeChar char = [byte] ∧ digitValue? byte = some (UInt8.ofNat n) := by
  cases charCase char with
  | digit hdigit hbytes hvalue hsame =>
    cases hexDigit_injective hn hdigit (hlower.symm.trans hsame)
    exact ⟨_, hbytes, hvalue⟩
  | other _ _ hother => exact absurd hlower (hother n hn)

theorem SameUpToCase.utf8 {text variant : String} (h : SameUpToCase text variant) :
    List.Forall₂ ReadAlike (Text.utf8 text) (Text.utf8 variant) := by
  apply List.rel_flatMap h
  rintro char other (rfl | ⟨hdigit, hcase⟩)
  · exact List.forall₂_same.mpr fun _ _ => .inl rfl
  · obtain ⟨n, hn, hlower⟩ := (mem_digits_iff char).mp hdigit
    obtain ⟨byte, hbyte, hvalue⟩ := exists_byte_of_toLower hn hlower
    obtain ⟨otherByte, hotherByte, hotherValue⟩ :=
      exists_byte_of_toLower hn (hcase.trans hlower)
    rw [hbyte, hotherByte]
    exact .cons (.inr ⟨_, hvalue, hotherValue⟩) .nil

/-- Bytes that are read alike fail alike: a byte that is no digit is named in the failure, but such
a byte is the same on both sides. -/
theorem decodePairs_congr {data other : Bytes} (h : List.Forall₂ ReadAlike data other)
    (position : Nat) : decodePairs position data = decodePairs position other := by
  induction data using List.twoStepInduction generalizing other position with
  | nil =>
    cases h
    rfl
  | singleton byte =>
    rcases h with _ | ⟨-, hrest⟩
    cases hrest
    rfl
  | cons_cons first second rest ih _ =>
    rcases h with _ | ⟨hfirst, h⟩
    rcases h with _ | ⟨hsecond, hrest⟩
    rw [decodePairs, decodePairs, ih hrest]
    rcases hfirst with rfl | ⟨high, hhigh, hotherHigh⟩
    · rcases hsecond with rfl | ⟨low, hlow, hotherLow⟩
      · rfl
      · rw [hlow, hotherLow]
    · rw [hhigh, hotherHigh]
      rcases hsecond with rfl | ⟨low, hlow, hotherLow⟩
      · rfl
      · rw [hlow, hotherLow]

/-- The case of digits makes no difference to what is read, be it bytes or a failure. -/
theorem SameUpToCase.decode_eq {text variant : String} (h : SameUpToCase text variant) :
    decode text = decode variant := by
  unfold decode decodeUtf8
  rw [h.utf8.length_eq, decodePairs_congr h.utf8]

/-- What a text spells is written as the text in lower case. -/
theorem Spells.encode_eq_toLower {text : String} {bytes : Bytes} (h : Spells text bytes) :
    encode bytes = text.toLower := by
  apply String.toList_injective
  rw [encode, String.toList_ofList, ← h]
  exact String.toList_map.symm

end Hex

namespace HashId

variable {kind : IdKind}

theorem ofBytes_eq_ok_iff {data : Bytes} {id : HashId kind} :
    ofBytes kind data = .ok id ↔ data = id.bytes := by
  constructor
  · intro h
    unfold ofBytes ofBytes? at h
    cases hdata : FixedBytes.ofList? 32 data with
    | none =>
      rw [hdata] at h
      cases h
    | some digest =>
      rw [hdata] at h
      cases h
      exact FixedBytes.ofList?_eq_some_iff.mp hdata
  · rintro rfl
    unfold ofBytes
    rw [ofBytes?_bytes]

/-- Reading an identifier gives the one whose bytes the text spells. -/
theorem ofHex_eq_ok_iff {text : String} {id : HashId kind} :
    ofHex kind text = .ok id ↔ Hex.Spells text id.bytes := by
  unfold ofHex readHex
  simp only [bind_eq_ok_iff, mapError_eq_ok_iff, Hex.decode_eq_ok_iff, ofBytes_eq_ok_iff,
    exists_eq_right]

/-- An identifier can be read exactly from 64 digits. -/
theorem exists_ofHex_eq_ok_iff {text : String} :
    (∃ id, ofHex kind text = .ok id) ↔ Hex.IsDigits 32 text := by
  simp only [ofHex_eq_ok_iff, ← Hex.exists_spells_iff]
  constructor
  · rintro ⟨id, hspells⟩
    exact ⟨_, hspells, id.length_bytes⟩
  · rintro ⟨bytes, hspells, hlength⟩
    exact ⟨⟨⟨bytes, hlength⟩⟩, hspells⟩

end HashId

end RingWallet
