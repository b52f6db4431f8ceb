import RingWallet.Proofs.Json.Words

/-!
# Written values read back

The pretty form of a value has the words of the value at every level of indentation
(`Json.spells_prettyChars`), and the words of a value are read as its shape, with one step for each
of them (`Json.isRead`). So what is written is what is read (`Json.read_pretty`), as long as numbers
are whole and not negative (`Json.OfNaturals`): floating-point numbers have no printed form.
-/

set_option autoImplicit false

namespace RingWallet

namespace Json

/-- Values are reached from the values inside them. -/
@[elab_as_elim, induction_eliminator]
theorem induct {motive : Json → Prop} (null : motive .null) (bool : ∀ value, motive (.bool value))
    (number : ∀ value, motive (.number value)) (string : ∀ text, motive (.string text))
    (array : ∀ items, (∀ item ∈ items, motive item) → motive (.array items))
    (object : ∀ fields, (∀ field ∈ fields, motive field.2) → motive (.object fields)) :
    ∀ value, motive value
  | .null => null
  | .bool value => bool value
  | .number value => number value
  | .string text => string text
  | .array items =>
    array items fun item _ => induct null bool number string array object item
  | .object fields =>
    object fields fun (name, value) hmem =>
      have : sizeOf value < sizeOf fields := by
        have hlt := List.sizeOf_lt_of_mem hmem
        rw [Prod.mk.sizeOf_spec] at hlt
        omega
      induct null bool number string array object value

/-! ## Words of a value -/

mutual

/-- The words of a value. -/
def tokens : Json → List JsonToken
  | null => [.null]
  | bool value => [.bool value]
  | number value => [.number (some value)]
  | string text => [.string (some text)]
  | array [] => [.openArray, .closeArray]
  | array (item :: rest) => .openArray :: (tokens item ++ itemTokens rest)
  | object [] => [.openObject, .closeObject]
  | object ((name, value) :: rest) =>
    .openObject :: .string (some name) :: .colon :: (tokens value ++ fieldTokens rest)

/-- The words of the items behind the first, with the closing bracket. -/
def itemTokens : List Json → List JsonToken
  | [] => [.closeArray]
  | item :: rest => .comma :: (tokens item ++ itemTokens rest)

/-- The words of the fields behind the first, with the closing brace. -/
def fieldTokens : List (String × Json) → List JsonToken
  | [] => [.closeObject]
  | (name, value) :: rest =>
    .comma :: .string (some name) :: .colon :: (tokens value ++ fieldTokens rest)

end

/-- The numbers in a value are whole and not negative. -/
inductive OfNaturals : Json → Prop
  | null : OfNaturals null
  | bool (value : Bool) : OfNaturals (bool value)
  | natural (n : UInt64) : OfNaturals (number (.natural n))
  | string (text : String) : OfNaturals (string text)
  | array {items : List Json} (h : ∀ item ∈ items, OfNaturals item) : OfNaturals (array items)
  | object {fields : List (String × Json)} (h : ∀ field ∈ fields, OfNaturals field.2) :
    OfNaturals (object fields)

theorem OfNaturals.noFields : OfNaturals (.object []) := .object fun _ hmem => nomatch hmem

/-- A field more. -/
theorem OfNaturals.field {name : String} {value : Json} {rest : List (String × Json)}
    (hvalue : OfNaturals value) (hrest : OfNaturals (.object rest)) :
    OfNaturals (.object ((name, value) :: rest)) := by
  cases hrest with
  | object hrest => exact .object (List.forall_mem_cons.mpr ⟨hvalue, hrest⟩)

/-- A value or null. -/
theorem OfNaturals.ofOption {α : Type} {encode : α → Json} (h : ∀ a, OfNaturals (encode a))
    (value? : Option α) : OfNaturals (Json.ofOption encode value?) := by
  cases value? with
  | none => exact .null
  | some a => exact h a

/-! ## Words of the written form -/

section Spelling

open JsonToken (Spells EndsNumber spells_quote spells_natural)

variable {level : Nat}

/-- A list of items goes on with a comma or a new line. -/
theorem endsNumber_prettyItems (items : List Json) (rest : List Text.Symbol) :
    EndsNumber ((prettyItems (level + 1) items ++ (newLine level ++ [']'])).map some ++ rest) := by
  cases items <;> rintro symbol ⟨⟩ <;> decide

/-- A list of fields goes on with a comma or a new line. -/
theorem endsNumber_prettyFields (fields : List (String × Json)) (rest : List Text.Symbol) :
    EndsNumber
      ((prettyFields (level + 1) fields ++ (newLine level ++ ['}'])).map some ++ rest) := by
  cases fields <;> rintro symbol ⟨⟩ <;> decide

/-- An item is in front of the others. -/
theorem spells_item {item : Json} {items : List Json}
    (hitem : Spells (prettyChars (level + 1) item) item.tokens)
    (hitems : Spells (prettyItems (level + 1) items ++ (newLine level ++ [']']))
      (itemTokens items)) :
    Spells (prettyChars (level + 1) item ++
        (prettyItems (level + 1) items ++ (newLine level ++ [']'])))
      (item.tokens ++ itemTokens items) :=
  -- An item may end with a number, but no number goes on behind it.
  hitem.append hitems fun behind _ => endsNumber_prettyItems items behind

theorem spells_prettyItems {items : List Json}
    (h : ∀ item ∈ items, Spells (prettyChars (level + 1) item) item.tokens) :
    Spells (prettyItems (level + 1) items ++ (newLine level ++ [']'])) (itemTokens items) := by
  induction items with
  | nil => exact .newLine level (.mark rfl (fun _ => rfl) .nil)
  | cons item rest ih =>
    have hitem := h item List.mem_cons_self
    have hrest := ih fun other hmem => h other (List.mem_cons_of_mem item hmem)
    rw [prettyItems, itemTokens, List.cons_append, List.append_assoc, List.append_assoc]
    exact .mark rfl (fun _ => rfl) (.newLine (level + 1) (spells_item hitem hrest))

/-- A field is its name, a colon and its value. -/
theorem spells_field (name : String) {value : Json} {fields : List (String × Json)}
    (hvalue : Spells (prettyChars (level + 1) value) value.tokens)
    (hfields : Spells (prettyFields (level + 1) fields ++ (newLine level ++ ['}']))
      (fieldTokens fields)) :
    Spells (quote name ++ ([':', ' '] ++ (prettyChars (level + 1) value
        ++ (prettyFields (level + 1) fields ++ (newLine level ++ ['}'])))))
      (.string (some name) :: .colon :: (value.tokens ++ fieldTokens fields)) := by
  have hbehind := hvalue.append hfields fun behind _ => endsNumber_prettyFields fields behind
  refine (spells_quote name).append (.mark rfl (fun _ => rfl) (.blank rfl hbehind)) ?_
  rintro behind _ symbol ⟨⟩
  decide

theorem spells_prettyFields {fields : List (String × Json)}
    (h : ∀ field ∈ fields, Spells (prettyChars (level + 1) field.2) field.2.tokens) :
    Spells (prettyFields (level + 1) fields ++ (newLine level ++ ['}'])) (fieldTokens fields) := by
  induction fields with
  | nil => exact .newLine level (.mark rfl (fun _ => rfl) .nil)
  | cons field rest ih =>
    obtain ⟨name, value⟩ := field
    have hvalue := h (name, value) List.mem_cons_self
    have hrest := ih fun other hmem => h other (List.mem_cons_of_mem _ hmem)
    rw [prettyFields, fieldTokens]
    simp only [List.cons_append, List.append_assoc]
    exact .mark rfl (fun _ => rfl) (.newLine (level + 1) (spells_field name hvalue hrest))

/-- The pretty form of a value has its words, at every level. -/
theorem spells_prettyChars {value : Json} (h : value.OfNaturals) (level : Nat) :
    Spells (prettyChars level value) value.tokens := by
  induction h generalizing level with
  | null => exact .word rfl fun _ => rfl
  | bool value => cases value <;> exact .word rfl fun _ => rfl
  | natural n => exact spells_natural n
  | string text => exact spells_quote text
  | @array items _ ih =>
    cases items with
    | nil => exact .mark rfl (fun _ => rfl) (.mark rfl (fun _ => rfl) .nil)
    | cons item rest =>
      have hitem := ih item List.mem_cons_self (level + 1)
      have hrest := spells_prettyItems fun other hmem =>
        ih other (List.mem_cons_of_mem item hmem) (level + 1)
      rw [prettyChars, tokens]
      simp only [List.append_assoc]
      exact .mark rfl (fun _ => rfl) (.newLine (level + 1) (spells_item hitem hrest))
  | @object fields _ ih =>
    cases fields with
    | nil => exact .mark rfl (fun _ => rfl) (.mark rfl (fun _ => rfl) .nil)
    | cons field rest =>
      obtain ⟨name, value⟩ := field
      have hvalue := ih (name, value) List.mem_cons_self (level + 1)
      have hrest := spells_prettyFields fun other hmem =>
        ih other (List.mem_cons_of_mem _ hmem) (level + 1)
      rw [prettyChars, tokens]
      simp only [List.append_assoc]
      exact .mark rfl (fun _ => rfl) (.newLine (level + 1) (spells_field name hvalue hrest))

end Spelling

/-! ## The shape of words -/

section Shape

open JsonTree (readValue readItems readFields)

/-- The words of a value are read as its shape, with one step for each of them. -/
def IsRead (value : Json) : Prop :=
  ∀ steps rest, value.tokens.length ≤ steps →
    readValue steps (value.tokens ++ rest) = some (value.toTree, rest)

/-- A value has a word, so there is a step. -/
theorem IsRead.of_succ {value : Json}
    (h : ∀ steps rest, value.tokens.length ≤ steps + 1 →
      readValue (steps + 1) (value.tokens ++ rest) = some (value.toTree, rest)) :
    value.IsRead := by
  have hpos : 0 < value.tokens.length := by
    cases value with
    | null | bool | number | string => exact Nat.one_pos
    | array items => cases items <;> exact Nat.succ_pos _
    | object fields => cases fields <;> exact Nat.succ_pos _
  intro steps rest hsteps
  cases steps with
  | zero => exact absurd hsteps (Nat.not_le.mpr hpos)
  | succ steps => exact h steps rest hsteps

/-- The first word of a value closes no array. -/
theorem tokens_ne_closeArray (value : Json) (rest left : List JsonToken) :
    value.tokens ++ rest ≠ .closeArray :: left := by
  cases value with
  | null | bool | number | string => simp [tokens]
  | array items => cases items <;> simp [tokens]
  | object fields => cases fields <;> simp [tokens]

/-- An array is read if its items are. -/
theorem readItems_tokens {item : Json} {items : List Json} {steps : Nat} (hitem : item.IsRead)
    (hitems : ∀ other ∈ items, other.IsRead)
    (hsteps : (item.tokens ++ itemTokens items).length ≤ steps) (rest : List JsonToken) :
    readItems steps (item.tokens ++ (itemTokens items ++ rest))
      = some (itemTrees (item :: items), rest) := by
  -- The step for the array's own bracket or comma pays for the call that reads the items.
  induction items generalizing item steps with
  | nil =>
    rw [List.length_append, itemTokens, List.length_singleton] at hsteps
    obtain ⟨steps, rfl⟩ := Nat.exists_eq_add_one_of_ne_zero (show steps ≠ 0 by omega)
    rw [readItems, hitem _ _ (by omega)]
    rfl
  | cons next items ih =>
    rw [itemTokens, List.length_append, List.length_cons] at hsteps
    obtain ⟨steps, rfl⟩ := Nat.exists_eq_add_one_of_ne_zero (show steps ≠ 0 by omega)
    have hnext : readItems steps (next.tokens ++ (itemTokens items ++ rest))
        = some (itemTrees (next :: items), rest) :=
      ih (hitems next List.mem_cons_self)
        (fun other hmem => hitems other (List.mem_cons_of_mem next hmem)) (by omega)
    rw [readItems, hitem _ _ (by omega), itemTokens, List.cons_append, List.append_assoc]
    dsimp only [Option.bind_eq_bind, Option.bind_some]
    rw [hnext]
    rfl

/-- An object is read if its values are. -/
theorem readFields_tokens (name : String) {value : Json} {fields : List (String × Json)}
    {steps : Nat} (hvalue : value.IsRead) (hfields : ∀ field ∈ fields, field.2.IsRead)
    (hsteps : (value.tokens ++ fieldTokens fields).length ≤ steps) (rest : List JsonToken) :
    readFields steps
        (.string (some name) :: .colon :: (value.tokens ++ (fieldTokens fields ++ rest)))
      = some (fieldTrees ((name, value) :: fields), rest) := by
  induction fields generalizing name value steps with
  | nil =>
    rw [List.length_append, fieldTokens, List.length_singleton] at hsteps
    obtain ⟨steps, rfl⟩ := Nat.exists_eq_add_one_of_ne_zero (show steps ≠ 0 by omega)
    rw [readFields, hvalue _ _ (by omega)]
    rfl
  | cons next fields ih =>
    obtain ⟨nextName, nextValue⟩ := next
    simp only [fieldTokens, List.length_append, List.length_cons] at hsteps
    obtain ⟨steps, rfl⟩ := Nat.exists_eq_add_one_of_ne_zero (show steps ≠ 0 by omega)
    have hnext : readFields steps (.string (some nextName) :: .colon ::
          (nextValue.tokens ++ (fieldTokens fields ++ rest)))
        = some (fieldTrees ((nextName, nextValue) :: fields), rest) :=
      ih nextName (hfields (nextName, nextValue) List.mem_cons_self)
        (fun other hmem => hfields other (List.mem_cons_of_mem _ hmem))
        (by rw [List.length_append]; omega)
    rw [readFields, hvalue _ _ (by omega), fieldTokens, List.cons_append, List.cons_append,
      List.cons_append, List.append_assoc]
    dsimp only [Option.bind_eq_bind, Option.bind_some]
    rw [hnext]
    rfl

/-- Every value is read from its words. -/
theorem isRead (value : Json) : value.IsRead := by
  induction value with
  | null | bool | number | string => exact .of_succ fun _ _ _ => rfl
  | array items ih =>
    refine .of_succ fun steps rest hsteps => ?_
    cases items with
    | nil => rfl
    | cons item items =>
      rw [tokens, List.length_cons, Nat.add_le_add_iff_right] at hsteps
      have hitems := readItems_tokens (ih item List.mem_cons_self)
        (fun other hmem => ih other (List.mem_cons_of_mem item hmem)) hsteps rest
      rw [tokens, List.cons_append, List.append_assoc, readValue, hitems]
      · rfl
      · exact fun left => tokens_ne_closeArray item _ left
  | object fields ih =>
    refine .of_succ fun steps rest hsteps => ?_
    cases fields with
    | nil => rfl
    | cons field fields =>
      obtain ⟨name, value⟩ := field
      rw [tokens, List.length_cons, List.length_cons, List.length_cons] at hsteps
      have hvalue : value.IsRead := ih (name, value) List.mem_cons_self
      have hfields := readFields_tokens name hvalue
        (fun other hmem => ih other (List.mem_cons_of_mem _ hmem)) (by omega : _ ≤ steps) rest
      rw [tokens, List.cons_append, List.cons_append, List.cons_append, List.append_assoc,
        readValue, hfields]
      · rfl
      · rintro left ⟨⟩

end Shape

/-- What is written is what is read. -/
theorem read_pretty {value : Json} (h : value.OfNaturals) :
    JsonTree.read (Text.symbolsOf value.pretty) = some value.toTree := by
  have hsymbols : Text.symbolsOf value.pretty = (prettyChars 0 value).map some := by
    rw [Text.symbolsOf, pretty, String.toList_ofList]
  have htree := value.isRead (2 * value.tokens.length + 1) [] (by omega)
  rw [List.append_nil] at htree
  rw [JsonTree.read, hsymbols, (spells_prettyChars h 0).all_eq]
  dsimp only [Option.bind_eq_bind, Option.bind_some]
  rw [htree]
  rfl

end Json

end RingWallet
