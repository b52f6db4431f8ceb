import RingWallet.Json.Printer

/-!
# Words of written JSON text

A text is cut into words from its front, so what a piece of text contributes can be told without
looking at what stands behind it (`JsonToken.Spells`). Only a number goes on for as long as it can,
so it must not be followed by a digit, a point or an exponent (`JsonToken.EndsNumber`).

A written string is a word whatever characters it has: each is read as one piece, which stands for
it whatever pieces come behind (`JsonToken.escapeOf_escapeChar`, `JsonToken.spells_quote`). So is a
whole number, up to the largest of 64 bits (`JsonToken.spells_natural`).
-/

set_option autoImplicit false

namespace RingWallet

open Text (Symbol)

namespace JsonToken

/-! ## All words of a text -/

theorem allUpTo_nil (steps : Nat) : allUpTo steps [] = some [] := by
  cases steps <;> rfl

/-- Further steps change nothing. -/
theorem allUpTo_of_le {steps more : Nat} {text : List Symbol} {tokens : List JsonToken}
    (h : allUpTo steps text = some tokens) (hle : steps ≤ more) :
    allUpTo more text = some tokens := by
  induction steps generalizing more text tokens with
  | zero =>
    cases text with
    | nil => exact (allUpTo_nil more).trans h
    | cons symbol rest => cases h
  | succ steps ih =>
    obtain ⟨more, rfl⟩ := Nat.exists_eq_add_of_le' hle
    cases text with
    | nil => exact h
    | cons symbol rest =>
      rw [← Nat.add_assoc]
      unfold allUpTo at h ⊢
      split at h
      · rename_i hblank
        rw [if_pos hblank]
        exact ih h (by omega)
      · rename_i hblank
        rw [if_neg hblank]
        obtain ⟨⟨token, left⟩, hnext, h⟩ := Option.bind_eq_some_iff.mp h
        obtain ⟨others, hothers, h⟩ := Option.bind_eq_some_iff.mp h
        refine Option.bind_eq_some_iff.mpr ⟨(token, left), hnext, ?_⟩
        exact Option.bind_eq_some_iff.mpr ⟨others, ih hothers (by omega), h⟩

/-- A blank in front is passed over. -/
theorem all_of_isBlank {symbol : Symbol} (hblank : isBlank symbol = true) (rest : List Symbol) :
    all (symbol :: rest) = all rest := by
  unfold all
  rw [List.length_cons, allUpTo, if_pos hblank]

/-- The words of a text are the word in front and those behind it. -/
theorem all_of_next {symbol : Symbol} {rest left : List Symbol} {token : JsonToken}
    {tokens : List JsonToken} (hblank : isBlank symbol = false)
    (hnext : next (symbol :: rest) = some (token, left)) (hle : left.length ≤ rest.length)
    (hleft : all left = some tokens) : all (symbol :: rest) = some (token :: tokens) := by
  unfold all
  rw [List.length_cons, allUpTo, if_neg (by simp [hblank])]
  refine Option.bind_eq_some_iff.mpr ⟨(token, left), hnext, ?_⟩
  exact Option.bind_eq_some_iff.mpr ⟨tokens, allUpTo_of_le hleft hle, rfl⟩

/-! ## Words in front of a text -/

/-- A number ends in front of the text. -/
def EndsNumber (text : List Symbol) : Prop :=
  ∀ symbol ∈ text.head?, digit? symbol = none ∧ symbol ≠ some '.' ∧ symbol ≠ some 'e' ∧
    symbol ≠ some 'E'

/-- In front of every text that ends a number, the characters stand for the words. -/
def Spells (chars : List Char) (tokens : List JsonToken) : Prop :=
  ∀ rest more, EndsNumber rest → all rest = some more →
    all (chars.map some ++ rest) = some (tokens ++ more)

/-- Characters that spell words and nothing behind them are these words. -/
theorem Spells.all_eq {chars : List Char} {tokens : List JsonToken} (h : Spells chars tokens) :
    all (chars.map some) = some tokens := by
  have hall := h [] [] (fun symbol hmem => nomatch hmem) rfl
  rwa [List.append_nil, List.append_nil] at hall

namespace Spells

variable {c : Char} {chars behind : List Char} {token : JsonToken} {tokens more : List JsonToken}

theorem nil : Spells [] [] := fun _ _ _ h => h

/-- A blank does not count. -/
theorem blank (hblank : isBlank (some c) = true) (h : Spells chars tokens) :
    Spells (c :: chars) tokens := by
  intro rest others hends hrest
  rw [List.map_cons, List.cons_append, all_of_isBlank hblank]
  exact h rest others hends hrest

/-- Characters that are a word whatever stands behind them. -/
theorem word (hblank : isBlank (some c) = false)
    (hnext : ∀ rest, next (some c :: (chars.map some ++ rest)) = some (token, rest)) :
    Spells (c :: chars) [token] := by
  intro rest others _ hrest
  rw [List.map_cons, List.cons_append]
  exact all_of_next hblank (hnext rest) (List.suffix_append _ _).length_le hrest

/-- A mark is a word of one character. -/
theorem mark (hblank : isBlank (some c) = false)
    (hnext : ∀ rest, next (some c :: rest) = some (token, rest)) (h : Spells chars tokens) :
    Spells (c :: chars) (token :: tokens) := by
  intro rest others hends hrest
  exact all_of_next hblank (hnext _) (Nat.le_refl _) (h rest others hends hrest)

/-- Words stand behind words, if what is behind does not go on with a number. -/
theorem append (h : Spells chars tokens) (hbehind : Spells behind more)
    (hends : ∀ rest, EndsNumber rest → EndsNumber (behind.map some ++ rest)) :
    Spells (chars ++ behind) (tokens ++ more) := by
  intro rest others hrest hall
  rw [List.map_append, List.append_assoc, List.append_assoc]
  exact h _ _ (hends rest hrest) (hbehind rest others hrest hall)

/-- Indentation does not count. -/
theorem newLine (level : Nat) (h : Spells chars tokens) :
    Spells (Json.newLine level ++ chars) tokens := by
  unfold Json.newLine
  refine .blank rfl ?_
  induction 2 * level with
  | zero => exact h
  | succ count ih =>
    rw [List.replicate_succ]
    exact .blank rfl ih

end Spells

/-! ## Strings -/

/-- A piece stands for a character, whatever pieces stand behind it. -/
def Piece.StandsFor (piece : Piece) (c : Char) : Prop :=
  ∀ behind, resolvePieces (piece :: behind) = some c :: resolvePieces behind

theorem Piece.standsFor_symbol (c : Char) : (Piece.symbol (some c)).StandsFor c := fun _ => rfl

/-- The number of a control character is no half of a surrogate pair. -/
theorem Piece.standsFor_unit {c : Char} (hc : c.toNat < 32) : (Piece.unit c.toNat).StandsFor c := by
  have hhigh : isHighSurrogate c.toNat = false := by
    rw [isHighSurrogate, decide_eq_false (by omega), Bool.false_and]
  have hlow : isLowSurrogate c.toNat = false := by
    rw [isLowSurrogate, decide_eq_false (by omega), Bool.false_and]
  rintro (_ | ⟨_ | _, behind⟩) <;> simp [resolvePieces, hhigh, hlow]

theorem hexDigit?_hexDigit {n : Nat} (hn : n < 16) :
    hexDigit? (some (Text.hexDigit n)) = some n := by
  have hall : ∀ n : Fin 16, hexDigit? (some (Text.hexDigit n)) = some n.val := by decide
  exact hall ⟨n, hn⟩

/-- The number that a control character is escaped with. -/
theorem hexUnit?_hexDigit {n : Nat} (hn : n < 256) :
    hexUnit? (some '0') (some '0') (some (Text.hexDigit (n / 16))) (some (Text.hexDigit (n % 16)))
      = some n := by
  unfold hexUnit?
  rw [hexDigit?_hexDigit (by omega), hexDigit?_hexDigit (by omega)]
  have hzero : hexDigit? (some '0') = some 0 := by decide
  simp only [hzero, Option.bind_eq_bind, Option.bind_some, Option.pure_def, Option.some.injEq]
  omega

/-- The characters are read as one piece, which stands for a character. -/
def EscapeOf (c : Char) (escape : List Char) : Prop :=
  ∃ piece : Piece, piece.StandsFor c ∧ ∀ rest found left, pieces rest = some (found, left) →
    pieces (escape.map some ++ rest) = some (piece :: found, left)

theorem escapeOf_short {c letter : Char} (hletter : letter ≠ 'u')
    (hescape : shortEscape? (some letter) = some c) : EscapeOf c ['\\', letter] := by
  refine ⟨.symbol (some c), Piece.standsFor_symbol c, fun rest found left hrest => ?_⟩
  have hno : ∀ a b c d behind, some letter = some 'u' → rest = a :: b :: c :: d :: behind → False :=
    fun _ _ _ _ _ heq _ => hletter (Option.some.inj heq)
  change pieces (some '\\' :: some letter :: rest) = _
  rw [pieces.eq_4 _ _ hno, hescape, hrest]
  rfl

theorem escapeOf_unit {c : Char} (hc : c.toNat < 32) :
    EscapeOf c
      ['\\', 'u', '0', '0', Text.hexDigit (c.toNat / 16), Text.hexDigit (c.toNat % 16)] := by
  refine ⟨.unit c.toNat, Piece.standsFor_unit hc, fun rest found left hrest => ?_⟩
  change pieces (some '\\' :: some 'u' :: some '0' :: some '0' :: some _ :: some _ :: rest) = _
  rw [pieces, hexUnit?_hexDigit (by omega), hrest]
  rfl

theorem escapeOf_self {c : Char} (hquote : c ≠ '"') (hslash : c ≠ '\\') (hc : ¬ c.toNat < 32) :
    EscapeOf c [c] := by
  refine ⟨.symbol (some c), Piece.standsFor_symbol c, fun rest found left hrest => ?_⟩
  change pieces (some c :: rest) = _
  have hno : some c ≠ some '\\' := fun heq => hslash (Option.some.inj heq)
  rw [pieces.eq_5 _ _ (fun heq => hquote (Option.some.inj heq)) (fun _ _ _ _ _ heq _ => hno heq)
    (fun _ _ heq _ => hno heq), if_neg (by simpa [isControl] using hc), hrest]
  rfl

/-- Every character is written as an escape of it. -/
theorem escapeOf_escapeChar (c : Char) : EscapeOf c (Json.escapeChar c) := by
  unfold Json.escapeChar
  split
  · subst c; exact escapeOf_short (by decide) rfl
  split
  · subst c; exact escapeOf_short (by decide) rfl
  split
  · subst c; exact escapeOf_short (by decide) rfl
  split
  · subst c; exact escapeOf_short (by decide) rfl
  split
  · subst c; exact escapeOf_short (by decide) rfl
  split
  · subst c; exact escapeOf_short (by decide) rfl
  split
  · subst c; exact escapeOf_short (by decide) rfl
  split
  · rename_i hc
    exact escapeOf_unit hc
  · rename_i hquote hslash _ _ _ _ _ hc
    exact escapeOf_self hquote hslash hc

/-- A written text is read up to its closing quote, and stands for its characters. -/
theorem exists_pieces (cs : List Char) (rest : List Symbol) :
    ∃ found,
      pieces ((cs.flatMap Json.escapeChar).map some ++ some '"' :: rest) = some (found, rest) ∧
      resolvePieces found = cs.map some := by
  induction cs with
  | nil => exact ⟨[], rfl, rfl⟩
  | cons c cs ih =>
    obtain ⟨found, hfound, hresolve⟩ := ih
    obtain ⟨piece, hpiece, hescape⟩ := escapeOf_escapeChar c
    refine ⟨piece :: found, ?_, ?_⟩
    · rw [List.flatMap_cons, List.map_append, List.append_assoc]
      exact hescape _ found rest hfound
    · rw [hpiece, hresolve, List.map_cons]

/-- A text between quotes is a word. -/
theorem spells_quote (text : String) : Spells (Json.quote text) [.string (some text)] := by
  refine .word rfl fun rest => ?_
  obtain ⟨found, hfound, hresolve⟩ := exists_pieces text.toList rest
  rw [List.map_append, List.append_assoc, next]
  change (pieces (_ ++ some '"' :: rest) >>= _) = _
  rw [hfound]
  change some (JsonToken.string (Text.spell? (resolvePieces found)), rest) = _
  rw [hresolve]
  exact congrArg (fun text? => some (JsonToken.string text?, rest)) (Text.spell?_symbolsOf text)

/-! ## Whole numbers -/

theorem digit?_digitChar {d : Nat} (hd : d < 10) : digit? (some (Nat.digitChar d)) = some d := by
  have hall : ∀ d : Fin 10, digit? (some (Nat.digitChar d)) = some d.val := by decide
  exact hall ⟨d, hd⟩

/-- The digits that a number is written with: not none, and no needless zero in front. -/
structure IsDecimal (n : Nat) (found : List Nat) : Prop where
  toDigits_eq : Nat.toDigits 10 n = found.map Nat.digitChar
  lt_ten : ∀ d ∈ found, d < 10
  ofDigits_eq : ofDigits found = n
  ne_nil : found ≠ []
  eq_nil_of_zero : ∀ behind, found = 0 :: behind → behind = []

theorem exists_isDecimal (n : Nat) : ∃ found, IsDecimal n found := by
  induction n using Nat.base_induction 10 (by decide) with
  | single n hn =>
    refine ⟨[n], Nat.toDigits_of_lt_base hn, by simpa, ?_, List.cons_ne_nil _ _, ?_⟩
    · simp [ofDigits]
    · intro behind heq
      exact (List.cons.inj heq).2.symm
  | digit n d hd hn ih =>
    obtain ⟨found, hfound⟩ := ih
    refine ⟨found ++ [d], ?_, ?_, ?_, by simp, ?_⟩
    · rw [← Nat.toDigits_append_toDigits (by decide) hn hd, hfound.toDigits_eq,
        Nat.toDigits_of_lt_base hd, List.map_append, List.map_singleton]
    · intro digit hmem
      rcases List.mem_append.mp hmem with hmem | hmem
      · exact hfound.lt_ten digit hmem
      · rwa [List.mem_singleton.mp hmem]
    · have hvalue := hfound.ofDigits_eq
      unfold ofDigits at hvalue ⊢
      rw [List.foldl_append, hvalue, List.foldl_cons, List.foldl_nil]
      omega
    · -- A zero in front is the whole number that was there before, which is not zero.
      intro behind heq
      obtain ⟨digit, more, rfl⟩ := List.exists_cons_of_ne_nil hfound.ne_nil
      obtain ⟨rfl, -⟩ := List.cons.inj heq
      obtain rfl := hfound.eq_nil_of_zero more rfl
      have hzero : ofDigits [0] = n := hfound.ofDigits_eq
      simp [ofDigits] at hzero
      omega

/-- The digits in front of a text are found if no digit stands behind them. -/
theorem digits_append {found : List Nat} (hfound : ∀ d ∈ found, d < 10) {rest : List Symbol}
    (hends : EndsNumber rest) :
    digits ((found.map Nat.digitChar).map some ++ rest) = (found, rest) := by
  induction found with
  | nil =>
    cases rest with
    | nil => rfl
    | cons symbol rest =>
      change digits (symbol :: rest) = _
      rw [digits, (hends symbol rfl).1]
  | cons d found ih =>
    rw [List.map_cons, List.map_cons, List.cons_append, digits,
      digit?_digitChar (hfound d List.mem_cons_self)]
    simp only [ih fun digit hmem => hfound digit (List.mem_cons_of_mem d hmem)]

theorem fraction_of_endsNumber {rest : List Symbol} (hends : EndsNumber rest) :
    fraction rest = some (none, rest) := by
  rw [fraction.eq_2]
  rintro behind rfl
  exact (hends (some '.') rfl).2.1 rfl

theorem exponent_of_endsNumber {rest : List Symbol} (hends : EndsNumber rest) :
    exponent rest = some (none, rest) := by
  rw [exponent.eq_3]
  · rintro behind rfl
    exact (hends (some 'e') rfl).2.2.1 rfl
  · rintro behind rfl
    exact (hends (some 'E') rfl).2.2.2 rfl

/-- The digits of a number are read back. -/
theorem unsignedNumber_append {n : Nat} {found : List Nat} (hfound : IsDecimal n found)
    {rest : List Symbol} (hends : EndsNumber rest) :
    unsignedNumber false ((found.map Nat.digitChar).map some ++ rest)
      = some (⟨false, found, none, none⟩, rest) := by
  unfold unsignedNumber
  rw [digits_append hfound.lt_ten hends]
  dsimp only
  split
  · exact absurd rfl hfound.ne_nil
  · exact absurd (hfound.eq_nil_of_zero _ rfl) (List.cons_ne_nil _ _)
  · rw [fraction_of_endsNumber hends]
    dsimp only [Option.bind_eq_bind, Option.bind_some]
    rw [exponent_of_endsNumber hends]
    rfl

/-- The number in front of digits is no larger than the number they make. -/
theorem le_foldl_digits (n : Nat) (found : List Nat) :
    n ≤ found.foldl (fun n d => n * 10 + d) n := by
  induction found generalizing n with
  | nil => exact Nat.le_refl n
  | cons d found ih =>
    calc n ≤ n * 10 + d := by omega
      _ ≤ _ := ih (n * 10 + d)

/-- No digit is left over if the number fits. -/
theorem absorb_eq {n : Nat} {found : List Nat}
    (hlt : found.foldl (fun n d => n * 10 + d) n < UInt64.size) :
    NumberText.absorb n found = (found.foldl (fun n d => n * 10 + d) n, []) := by
  induction found generalizing n with
  | nil => rfl
  | cons d found ih =>
    rw [List.foldl_cons] at hlt ⊢
    rw [NumberText.absorb, if_pos (Nat.lt_of_le_of_lt (le_foldl_digits _ found) hlt), ih hlt]

theorem value?_of_isDecimal {n : UInt64} {found : List Nat} (hfound : IsDecimal n.toNat found) :
    NumberText.value? ⟨false, found, none, none⟩ = some (.natural n) := by
  have habsorb : NumberText.absorb 0 found = (n.toNat, []) := by
    have hvalue := hfound.ofDigits_eq
    unfold ofDigits at hvalue
    rw [absorb_eq (by rw [hvalue]; exact n.toNat_lt), hvalue]
  simp [NumberText.value?, habsorb]

/-- A text that starts with a digit starts with a number. -/
theorem next_of_digit {symbol : Symbol} {d : Nat} (hdigit : digit? symbol = some d)
    (rest : List Symbol) :
    next (symbol :: rest) = (unsignedNumber false (symbol :: rest)).map fun (text, left) =>
      (.number text.value?, left) := by
  have hne : ∀ c behind, digit? (some c) = none → symbol :: rest = some c :: behind → False := by
    intro c behind hnone heq
    rw [(List.cons.inj heq).1, hnone] at hdigit
    cases hdigit
  rw [next.eq_12 _ (fun _ => hne _ _ rfl) (fun _ => hne _ _ rfl) (fun _ => hne _ _ rfl)
    (fun _ => hne _ _ rfl) (fun _ => hne _ _ rfl) (fun _ => hne _ _ rfl) (fun _ => hne _ _ rfl)
    (fun _ => hne _ _ rfl) (fun _ => hne _ _ rfl) (fun _ => hne _ _ rfl) (fun _ => hne _ _ rfl),
    Option.map_eq_bind]
  rfl

theorem isBlank_of_digit {symbol : Symbol} {d : Nat} (hdigit : digit? symbol = some d) :
    isBlank symbol = false := by
  unfold isBlank
  split <;> first | rfl | cases hdigit

/-- A whole number is a word, however large it is. -/
theorem spells_natural (n : UInt64) :
    Spells (Json.numberChars (.natural n)) [.number (some (.natural n))] := by
  intro rest more hends hall
  obtain ⟨found, hfound⟩ := exists_isDecimal n.toNat
  have hchars : Json.numberChars (.natural n) = found.map Nat.digitChar := by
    rw [Json.numberChars, Nat.toString_eq_repr, Nat.toList_repr, hfound.toDigits_eq]
  have hnumber := unsignedNumber_append hfound hends
  rw [hchars]
  obtain ⟨d, others, rfl⟩ := List.exists_cons_of_ne_nil hfound.ne_nil
  have hdigit := digit?_digitChar (hfound.lt_ten d List.mem_cons_self)
  rw [List.map_cons, List.map_cons, List.cons_append] at hnumber ⊢
  refine all_of_next (isBlank_of_digit hdigit) ?_ ?_ hall
  · rw [next_of_digit hdigit, hnumber, ← value?_of_isDecimal hfound]
    rfl
  · exact (List.suffix_append _ _).length_le

end JsonToken

end RingWallet
