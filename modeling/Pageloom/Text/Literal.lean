import Pageloom.Text.Quoted

/-!
# String literals of the generated scripts

A text in a script is a double-quoted literal of ASCII characters alone. The
quotation mark, the backslash and the five named controls have short escapes;
every other character outside the printable ASCII range is written as `\u` and
four hexadecimal digits, a character beyond the basic plane as a pair of them.
A literal therefore holds no line break, whatever the text was. Half of a
surrogate pair is written as it would be within its pair, so that two halves
that stand alone next to each other have the literal of the character that they
would be.

## Main definitions

* `Pageloom.Text.literalChar` -- one character of a literal
* `Pageloom.Text.literal` -- the literal of a text
* `Pageloom.Text.literalPieces` -- the literal of a broken text
-/

namespace Pageloom.Text

/-- A sixteen-bit unit as an escape. -/
def unitEscape (n : Nat) : List Char := '\\' :: 'u' :: hex 4 n

/-- One character of a literal. -/
def literalChar (c : Char) : List Char :=
  if c = '"' then ['\\', '"']
  else if c = '\\' then ['\\', '\\']
  else if c = '\n' then ['\\', 'n']
  else if c = '\r' then ['\\', 'r']
  else if c = '\t' then ['\\', 't']
  else if c = '\x08' then ['\\', 'b']
  else if c = '\x0c' then ['\\', 'f']
  else
    let n := c.toNat
    if 0x20 ≤ n && n < 0x7F then [c]
    else if n < 0x10000 then unitEscape n
    else
      let m := n - 0x10000
      unitEscape (0xD800 + m / 0x400) ++ unitEscape (0xDC00 + m % 0x400)

/-- The literal of a text, with its quotation marks. -/
def literal (s : String) : String :=
  String.ofList ('"' :: s.toList.flatMap literalChar ++ ['"'])

/-- One piece of a literal. -/
def literalPiece : Piece → List Char
  | .char c => literalChar c
  | .half unit => unitEscape unit

/-- The literal of a broken text, with its quotation marks. -/
def literalPieces (pieces : List Piece) : String :=
  String.ofList ('"' :: pieces.flatMap literalPiece ++ ['"'])

end Pageloom.Text
