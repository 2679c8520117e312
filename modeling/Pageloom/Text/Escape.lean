/-!
# Escapes of the markup

Character references keep a text from being read as structure. Text content
escapes the ampersand, both angle brackets and the double quote; an attribute
value, which stands between double quotes, needs only the ampersand and the
double quote. Each character is escaped on its own, so the ampersand of a
reference is never escaped again.

## Main definitions

* `Pageloom.Text.escapeText` -- text content
* `Pageloom.Text.escapeAttribute` -- a double-quoted attribute value
* `Pageloom.Text.guardClosing` -- a script body without any closing tag in it
-/

namespace Pageloom.Text

/-- One character of text content. -/
def escapeTextChar : Char → List Char
  | '&' => ['&', 'a', 'm', 'p', ';']
  | '<' => ['&', 'l', 't', ';']
  | '>' => ['&', 'g', 't', ';']
  | '"' => ['&', 'q', 'u', 'o', 't', ';']
  | c => [c]

/-- One character of a double-quoted attribute value. -/
def escapeAttributeChar : Char → List Char
  | '&' => ['&', 'a', 'm', 'p', ';']
  | '"' => ['&', 'q', 'u', 'o', 't', ';']
  | c => [c]

/-- Text content as it stands in the markup. -/
def escapeText (s : String) : String := String.ofList (s.toList.flatMap escapeTextChar)

/-- A double-quoted attribute value as it stands in the markup. -/
def escapeAttribute (s : String) : String := String.ofList (s.toList.flatMap escapeAttributeChar)

/-- Put a backslash between every `<` and the `/` after it. Inside a string
literal the backslash changes nothing, and the text closes no script element. -/
def guardClosingOf : List Char → List Char
  | '<' :: '/' :: rest => '<' :: '\\' :: '/' :: guardClosingOf rest
  | c :: rest => c :: guardClosingOf rest
  | [] => []

/-- A script body without any closing tag in it. -/
def guardClosing (s : String) : String := String.ofList (guardClosingOf s.toList)

end Pageloom.Text
