/-!
# Pieces of a text

A text is cut at every separator; the pieces with separators between them are the text again
(`joinPieces_pieces`).
-/

set_option autoImplicit false

namespace RingWallet.Text

/-- The pieces of a text between separators; there is one at least. -/
def pieces (separator : Char) : List Char → List (List Char)
  | [] => [[]]
  | c :: rest =>
    if c = separator then [] :: pieces separator rest
    else match pieces separator rest with
      | piece :: others => (c :: piece) :: others
      | [] => [[c]]

/-- Pieces with separators between them. -/
def joinPieces (separator : Char) : List (List Char) → List Char
  | [] => []
  | [piece] => piece
  | piece :: next :: rest => piece ++ separator :: joinPieces separator (next :: rest)

theorem pieces_ne_nil (separator : Char) (text : List Char) : pieces separator text ≠ [] := by
  cases text with
  | nil => simp [pieces]
  | cons c rest =>
    unfold pieces
    split
    · simp
    · split <;> simp

theorem joinPieces_pieces (separator : Char) (text : List Char) :
    joinPieces separator (pieces separator text) = text := by
  induction text with
  | nil => rfl
  | cons c rest ih =>
    obtain ⟨piece, others, h⟩ := List.exists_cons_of_ne_nil (pieces_ne_nil separator rest)
    unfold pieces
    rw [h] at ih ⊢
    split
    · simp [joinPieces, *]
    · cases others with
      | nil => simpa [joinPieces] using ih
      | cons next rest => simpa [joinPieces] using ih

end RingWallet.Text
