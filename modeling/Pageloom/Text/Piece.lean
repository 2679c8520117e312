/-!
# Broken texts

A JSON text may spell half of a surrogate pair alone. Such a half is no character,
so a text that holds one is no `String`. It is a list of pieces, each a character
or a half. A broken text can be compared and shown, and cannot be printed.

## Main definitions

* `Pageloom.Text.Piece` -- a character, or half of a surrogate pair
* `Pageloom.Text.piecesOf` -- the pieces of a text
* `Pageloom.Text.whole?` -- the text of pieces that are all characters
* `Pageloom.Text.filled` -- a text with something in place of every half
-/

namespace Pageloom.Text

/-- A character, or half of a surrogate pair that stands alone. -/
inductive Piece
  | char (c : Char)
  | half (unit : Nat)
  deriving DecidableEq

/-- The character that a piece is. -/
def Piece.char? : Piece → Option Char
  | char c => some c
  | half _ => none

/-- The pieces of a text. -/
def piecesOf (s : String) : List Piece := s.toList.map .char

/-- The text of pieces that are all characters. -/
def whole? (pieces : List Piece) : Option String :=
  (pieces.mapM Piece.char?).map String.ofList

/-- The text of pieces with the replacement character in place of every half. -/
def filled (pieces : List Piece) : String :=
  String.ofList (pieces.map fun p => p.char?.getD '\uFFFD')

end Pageloom.Text
