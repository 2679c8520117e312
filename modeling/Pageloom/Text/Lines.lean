/-!
# Lines

Two views of line ends. A factory body is cut at every character that some
reader of text takes for a line boundary: the classic line ends, the vertical
tab and form feed, the three information separators below the unit separator,
next line, and the two Unicode separators. A file read as text has every
carriage return, alone or before a line feed, turned into a line feed.

## Main definitions

* `Pageloom.Text.isLineBoundary` -- the characters that end a line
* `Pageloom.Text.splitLines` -- the lines of a text, without their ends
* `Pageloom.Text.normalizeLineEnds` -- a file's text as it is read
-/

namespace Pageloom.Text

/-- Whether a character ends a line. -/
def isLineBoundary (c : Char) : Bool :=
  let n := c.toNat
  (0x0A ≤ n && n ≤ 0x0D) || (0x1C ≤ n && n ≤ 0x1E) || n = 0x85 || n = 0x2028 || n = 0x2029

/-- The lines of a text, given the line being read. A carriage return and the
line feed after it end one line, and no line follows the last line end. -/
def splitLinesFrom : (line : List Char) → List Char → List (List Char)
  | [], [] => []
  | c :: line, [] => [c :: line]
  | line, '\r' :: '\n' :: rest => line :: splitLinesFrom [] rest
  | line, c :: rest =>
    if isLineBoundary c then line :: splitLinesFrom [] rest
    else splitLinesFrom (line ++ [c]) rest

/-- The lines of a text, without their ends. -/
def splitLines (s : String) : List String :=
  (splitLinesFrom [] s.toList).map String.ofList

/-- Every carriage return, alone or before a line feed, becomes a line feed. -/
def normalizeLineEndsOf : List Char → List Char
  | [] => []
  | '\r' :: '\n' :: rest => '\n' :: normalizeLineEndsOf rest
  | '\r' :: rest => '\n' :: normalizeLineEndsOf rest
  | c :: rest => c :: normalizeLineEndsOf rest

/-- A file's text as it is read. -/
def normalizeLineEnds (s : String) : String := String.ofList (normalizeLineEndsOf s.toList)

end Pageloom.Text
