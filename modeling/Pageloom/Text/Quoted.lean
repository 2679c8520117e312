import Pageloom.Text.Piece
import Pageloom.Text.Unprintable

/-!
# Quoted text

How a text is shown inside a message or inside the text of a list: between
single quotes, or between double quotes when it holds a single quote and no
double quote. The quote in use and the backslash are escaped, so are line feed,
carriage return and tab, and every character without a printed form is written
by its number.

## Main definitions

* `Pageloom.Text.hex` -- a number in hexadecimal, to a given width
* `Pageloom.Text.quote` -- a text as it is shown in messages
* `Pageloom.Text.quotePieces` -- a broken text as it is shown in messages
-/

namespace Pageloom.Text

/-- The hexadecimal digit of a number below sixteen. -/
def hexDigit (n : Nat) : Char :=
  if n < 10 then Char.ofNat (48 + n) else Char.ofNat (87 + n)

/-- The last `width` hexadecimal digits of a number, the highest first. -/
def hex : (width : Nat) → Nat → List Char
  | 0, _ => []
  | width + 1, n => hex width (n / 16) ++ [hexDigit (n % 16)]

/-- One character of a text quoted by `mark`. -/
def quoteChar (mark c : Char) : List Char :=
  if c = mark || c = '\\' then ['\\', c]
  else if c = '\n' then ['\\', 'n']
  else if c = '\r' then ['\\', 'r']
  else if c = '\t' then ['\\', 't']
  else if isPrintable c then [c]
  else
    let n := c.toNat
    if n < 0x100 then ['\\', 'x'] ++ hex 2 n
    else if n < 0x10000 then ['\\', 'u'] ++ hex 4 n
    else ['\\', 'U'] ++ hex 8 n

/-- The quotation mark for a text: single, unless only a double one saves escapes. -/
def quoteMark (cs : List Char) : Char :=
  if cs.contains '\'' && !cs.contains '"' then '"' else '\''

/-- A text as it is shown in messages. -/
def quote (s : String) : String :=
  let cs := s.toList
  let mark := quoteMark cs
  String.ofList (mark :: cs.flatMap (quoteChar mark) ++ [mark])

/-- One piece of a text quoted by `mark`. Half of a surrogate pair is written by its
number. -/
def quotePiece (mark : Char) : Piece → List Char
  | .char c => quoteChar mark c
  | .half unit => ['\\', 'u'] ++ hex 4 unit

/-- A broken text as it is shown in messages. -/
def quotePieces (pieces : List Piece) : String :=
  let mark := quoteMark (pieces.filterMap Piece.char?)
  String.ofList (mark :: pieces.flatMap (quotePiece mark) ++ [mark])

end Pageloom.Text
