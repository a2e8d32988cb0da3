/-!
# Pieces of a text

Paths, class names and command-line lists are texts cut at one character.  Cutting loses nothing:
putting the pieces together again gives the text back.
-/

namespace AbiBuild.Text

def pieces (separator : Char) : List Char → List (List Char)
  | [] => [[]]
  | value :: rest =>
    if value = separator then [] :: pieces separator rest
    else
      match pieces separator rest with
      | [] => [[value]]
      | first :: others => (value :: first) :: others

def joinPieces (separator : Char) : List (List Char) → List Char
  | [] => []
  | [piece] => piece
  | piece :: others => piece ++ separator :: joinPieces separator others

theorem pieces_ne_nil (separator : Char) (text : List Char) : pieces separator text ≠ [] := by
  cases text with
  | nil => simp [pieces]
  | cons value rest =>
      unfold pieces
      split
      · simp
      · split <;> simp

theorem joinPieces_pieces (separator : Char) (text : List Char) :
    joinPieces separator (pieces separator text) = text := by
  induction text with
  | nil => rfl
  | cons value rest ih =>
      unfold pieces
      have hne := pieces_ne_nil separator rest
      split
      next hvalue =>
        cases hpieces : pieces separator rest with
        | nil => exact absurd hpieces hne
        | cons first others =>
            rw [hpieces] at ih
            simp [joinPieces, ih, hvalue]
      next =>
        cases hpieces : pieces separator rest with
        | nil => exact absurd hpieces hne
        | cons first others =>
            rw [hpieces] at ih
            cases others with
            | nil => simpa [joinPieces] using ih
            | cons second others => simpa [joinPieces] using ih

def splitOn (separator : Char) (text : String) : List String :=
  (pieces separator text.toList).map String.ofList

def lastPiece (separator : Char) (text : String) : String :=
  (splitOn separator text).getLast?.getD text

end AbiBuild.Text
