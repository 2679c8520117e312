/-!
# Decimal digits of all scripts

A number may be written in the digits of any script, and with any blanks around
it. Such a text is first brought to ASCII: a digit becomes the ASCII digit of its
value, a blank a space, and any other character beyond ASCII a question mark,
which no number holds.

## Main definitions

* `Pageloom.Text.digitValue?` -- the value of a decimal digit beyond ASCII
* `Pageloom.Text.isWideBlank` -- a blank beyond ASCII
* `Pageloom.Text.plainNumeral` -- the ASCII form of a text that may be a number
-/

namespace Pageloom.Text

/-- The zeros of the scripts beyond ASCII. The nine digits that follow a zero are
those of its script. -/
def digitZeros : List Nat := [
  0x0660, 0x06F0, 0x07C0, 0x0966, 0x09E6, 0x0A66, 0x0AE6, 0x0B66, 0x0BE6, 0x0C66,
  0x0CE6, 0x0D66, 0x0DE6, 0x0E50, 0x0ED0, 0x0F20, 0x1040, 0x1090, 0x17E0, 0x1810,
  0x1946, 0x19D0, 0x1A80, 0x1A90, 0x1B50, 0x1BB0, 0x1C40, 0x1C50, 0xA620, 0xA8D0,
  0xA900, 0xA9D0, 0xA9F0, 0xAA50, 0xABF0, 0xFF10, 0x104A0, 0x10D30, 0x11066, 0x110F0,
  0x11136, 0x111D0, 0x112F0, 0x11450, 0x114D0, 0x11650, 0x116C0, 0x11730, 0x118E0, 0x11950,
  0x11C50, 0x11D50, 0x11DA0, 0x16A60, 0x16AC0, 0x16B50, 0x1D7CE, 0x1D7D8, 0x1D7E2, 0x1D7EC,
  0x1D7F6, 0x1E140, 0x1E2F0, 0x1E950, 0x1FBF0]

/-- The value of a decimal digit beyond ASCII. -/
def digitValue? (c : Char) : Option Nat :=
  digitZeros.findSome? fun first =>
    if first ≤ c.toNat && c.toNat < first + 10 then some (c.toNat - first) else none

/-- A blank beyond ASCII: next line, no-break space, and the Unicode spaces and
separators. -/
def isWideBlank (c : Char) : Bool :=
  let n := c.toNat
  n = 0x85 || n = 0xA0 || n = 0x1680 || (0x2000 ≤ n && n ≤ 0x200A) || n = 0x2028 ||
    n = 0x2029 || n = 0x202F || n = 0x205F || n = 0x3000

/-- The ASCII form of a character of a text that may be a number. -/
def plainNumeralChar (c : Char) : Char :=
  if c.toNat < 0x80 then c
  else if isWideBlank c then ' '
  else match digitValue? c with
    | some n => Char.ofNat (48 + n)
    | none => '?'

/-- The ASCII form of a text that may be a number. -/
def plainNumeral (cs : List Char) : List Char := cs.map plainNumeralChar

end Pageloom.Text
