import Pageloom.Text.Quoted
import Pageloom.Value

/-!
# Values as text

A value has two texts. The plain one is what it contributes to an attribute, a
style or a live page; the quoted one is how it is shown in messages and inside
lists and tables. They differ for texts, for handlers and for read-only tables.
The plain text of a broken text has its halves filled in; its pieces have them.

## Main definitions

* `Pageloom.Value.quoted` -- a value as it is shown in messages
* `Pageloom.Value.plain` -- a value as it stands for itself
* `Pageloom.Value.setting` -- the plain text, with truth values in lower case
* `Pageloom.Value.pieces`, `Pageloom.Value.settingPieces` -- the pieces of these texts
* `Pageloom.Value.hasText` -- whether a value has these texts at all
* `Pageloom.Value.plainText`, `Pageloom.Value.settingText`, `Pageloom.Value.quotedText` -- the
  texts of a value that has them
-/

namespace Pageloom

/-- A scalar as it is shown in messages. -/
def Scalar.quoted : Scalar → String
  | .text s => Text.quote s
  | .int n => Int.repr n
  | .real x => x.text
  | .bool b => if b then "True" else "False"

/-- A scalar as it stands for itself. -/
def Scalar.plain : Scalar → String
  | .text s => s
  | s => s.quoted

/-- A table between braces, given its entries in words. -/
def Text.braced (parts : List String) : String := "\x7b" ++ Text.join ", " parts ++ "\x7d"

/-- The fields of a handler in words. -/
def Handler.fields : Handler → List String
  | .render component target =>
    ["kind='render'", "component=" ++ Text.quote component, "target=" ++ Text.quote target]
  | .call name arguments =>
    ["kind='call'", "name=" ++ Text.quote name,
      "args=" ++ Text.braced (arguments.map fun a => Text.quote a.1 ++ ": " ++ a.2.quoted)]

/-- A handler as it is shown in messages. -/
def Handler.quoted (h : Handler) : String :=
  let kind := match h with
    | .render .. => "RenderHandler"
    | .call .. => "CallHandler"
  kind ++ "(" ++ Text.join ", " h.fields ++ ")"

/-- The least positive integer that is too long to be written in decimal. -/
def Value.longInteger : Nat := Nat.pow 10 4300

/-- Whether a scalar can be written: it is no integer that is too long. -/
def Scalar.isWritable : Scalar → Bool
  | .int n => n.natAbs < Value.longInteger
  | _ => true

/-- Whether the arguments of a handler can be written. -/
def Handler.isWritable : Handler → Bool
  | .render _ _ => true
  | .call _ arguments => arguments.all fun a => a.2.isWritable

/-- The name of a callable. -/
def Callable.name : Callable → String
  | .idle => "opaque_function"
  | .fragment => "Fragment"
  | .fragmentOf _ => "fragment"
  | .component _ name _ => name
  | .inherent name => if name = "__class__" then "module" else name

namespace Value

mutual

/-- A value as it is shown in messages. A tuple of one item has a comma after it. -/
def quoted : Value → String
  | .none => "None"
  | .scalar s => s.quoted
  | .brokenText pieces => Text.quotePieces pieces
  | .list xs => "[" ++ Text.join ", " (quotedItems xs) ++ "]"
  | .tuple xs =>
    match quotedItems xs with
    | [x] => "(" ++ x ++ ",)"
    | parts => "(" ++ Text.join ", " parts ++ ")"
  | .table es => Text.braced (quotedEntries es)
  | .view es => "mappingproxy(" ++ Text.braced (quotedEntries es) ++ ")"
  | .dictionary es => Text.braced (quotedPairs es)
  | .handler h => h.quoted
  | .bytes ascii => "b" ++ Text.quote ascii
  | .emptySet => "set()"
  | .moment m => m.quoted
  | .callable c => "<function " ++ c.name ++ ">"
  | .node h => h.shown
  | .foreign kind => "<" ++ kind ++ ">"

/-- The items of a list, each as it is shown in messages. -/
def quotedItems : List Value → List String
  | [] => []
  | x :: xs => quoted x :: quotedItems xs

/-- The entries of a table, each as it is shown in messages. -/
def quotedEntries : List (String × Value) → List String
  | [] => []
  | (k, v) :: es => (Text.quote k ++ ": " ++ quoted v) :: quotedEntries es

/-- The entries of a table with names of any kind, each as it is shown in messages. -/
def quotedPairs : List (Value × Value) → List String
  | [] => []
  | (k, v) :: es => (quoted k ++ ": " ++ quoted v) :: quotedPairs es

end

/-- A value as it stands for itself. -/
def plain : Value → String
  | .scalar s => s.plain
  | .brokenText pieces => Text.filled pieces
  | .view es => quoted (.table es)
  | .handler h => Text.join " " h.fields
  | .moment m => m.text
  | v => quoted v

/-- A value as it stands in an attribute or a style: truth values in lower case. -/
def setting : Value → String
  | .scalar (.bool b) => if b then "true" else "false"
  | v => plain v

/-- The pieces of a value as it stands for itself. -/
def pieces : Value → List Text.Piece
  | .brokenText pieces => pieces
  | v => Text.piecesOf v.plain

/-- The pieces of a value as it stands in an attribute or a style. -/
def settingPieces : Value → List Text.Piece
  | .brokenText pieces => pieces
  | v => Text.piecesOf v.setting

mutual

/-- Whether a value has a text: no integer in it is too long to be written. -/
def hasText : Value → Bool
  | .scalar s => s.isWritable
  | .handler h => h.isWritable
  | .list xs => haveTexts xs
  | .tuple xs => haveTexts xs
  | .table es => entriesHaveTexts es
  | .view es => entriesHaveTexts es
  | .dictionary es => pairsHaveTexts es
  | _ => true

/-- Whether every value of a list has a text. -/
def haveTexts : List Value → Bool
  | [] => true
  | x :: xs => hasText x && haveTexts xs

/-- Whether every value of a table has a text. -/
def entriesHaveTexts : List (String × Value) → Bool
  | [] => true
  | (_, v) :: es => hasText v && entriesHaveTexts es

/-- Whether every name and every value of a table has a text. -/
def pairsHaveTexts : List (Value × Value) → Bool
  | [] => true
  | (k, v) :: es => hasText k && hasText v && pairsHaveTexts es

end

/-- The plain text of a value that has one. -/
def plainText (v : Value) : Except Fault String :=
  if v.hasText then .ok v.plain else .error .wrongValue

/-- The text of a value in an attribute or a style, if it has one. -/
def settingText (v : Value) : Except Fault String :=
  if v.hasText then .ok v.setting else .error .wrongValue

/-- A value as it is shown in messages, if it has a text. -/
def quotedText (v : Value) : Except Fault String :=
  if v.hasText then .ok v.quoted else .error .wrongValue

/-- A fault whose message shows a value. A value without a text is another fault. -/
def faultShowing (v : Value) (fault : String → Fault) : Fault :=
  if v.hasText then fault v.quoted else .wrongValue

end Value

end Pageloom
