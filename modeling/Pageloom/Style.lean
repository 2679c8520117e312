import Pageloom.Text.LetterCase
import Pageloom.Value.Key
import Pageloom.Value.Text

/-!
# Styles

Style properties are authored in camel case and written in kebab case. A style
table on an element becomes one line of declarations. A style sheet nests rules
the way preprocessors do: a table inside the rules of a selector holds the rules
of a nested selector. Flattening writes each selector's own declarations first,
then its nested selectors in order; a selector without declarations of its own
gets no block, and those nested in it still do.

## Main definitions

* `Pageloom.Style.property` -- a property name in kebab case
* `Pageloom.Style.inline` -- the style line of an element
* `Pageloom.Style.nest` -- the selector of nested rules
* `Pageloom.Style.blocks` -- the blocks of one selector
* `Pageloom.Style.flatten`, `Pageloom.Style.flattenSheet` -- blocks as text
* `Pageloom.Style.isPrintable` -- whether the text of a sheet can be printed
-/

namespace Pageloom.Style

/-- A dash before every ASCII capital. -/
def dashCapitals (cs : List Char) : List Char :=
  cs.flatMap fun c => if 'A' ≤ c && c ≤ 'Z' then ['-', c] else [c]

/-- A property name in kebab case. -/
def property (name : String) : String := Text.lower (String.ofList (dashCapitals name.toList))

/-- The kebab case of a property name, which must be a text. -/
def propertyOf (name : Value) : Except Fault String :=
  match name.words? with
  | some s => .ok (property s)
  | none => .error .wrongKind

/-- Whether a value stands for a declaration. -/
def isDeclared : Value → Bool
  | .none => false
  | _ => true

/-- The style line of an element in pieces, from the entries of a style table.
Entries without a value are left out. -/
def inlineOf (entries : Entries Value) : List Text.Piece :=
  List.intercalate (Text.piecesOf ";") ((entries.filter fun e => isDeclared e.2).map fun e =>
    Text.piecesOf (property e.1 ++ ":") ++ e.2.settingPieces)

/-- The declared entries of a style table. Their names must be texts, and their
values must have texts. -/
def declared : Pairs → Except Fault (Entries Value)
  | [] => .ok []
  | (k, v) :: rest =>
    if !isDeclared v then declared rest
    else match k.words? with
      | none => .error .wrongKind
      | some name => do
        let _ ← v.settingText
        return (name, v) :: (← declared rest)

/-- The style line of a style table, in pieces. -/
def inline (style : Value) : Except Fault (List Text.Piece) :=
  match style.pairs? with
  | some ps => (declared ps).map inlineOf
  | none => .error .unsupported

/-- The selector of rules nested under `key`: a pseudo-class is appended, an
ampersand stands for the parent, and anything else is a descendant. -/
def nest (parent key : String) : String :=
  match key.toList with
  | ':' :: _ => parent ++ key
  | '&' :: _ => Text.replaceAll key "&" parent
  | _ => parent ++ " " ++ key

/-- The selector of rules nested under a name, where either may be any value. -/
def nestValues (parent key : Value) : Except Fault String :=
  match key.words? with
  | none => .error key.nameFault
  | some k =>
    if parent.words?.isNone && Text.startsWith k "&" then .error .wrongKind
    else .ok (nest parent.plain k)

/-- A selector with its own declarations. -/
structure Block where
  selector : String
  declarations : List String
  deriving DecidableEq

/-- A block as text. -/
def Block.text (b : Block) : String :=
  b.selector ++ " \x7b " ++ Text.join " " b.declarations ++ " \x7d"

/-- The declarations among the entries of a table, in order. -/
def declarations (entries : Entries Value) : List String :=
  entries.filterMap fun e =>
    if e.2.isTable || !isDeclared e.2 then none
    else some (property e.1 ++ ": " ++ e.2.setting ++ ";")

/-- The block of a table's own declarations, if it has any. -/
def ownBlock (selector : String) (entries : Entries Value) : List Block :=
  let ds := declarations entries
  if ds.isEmpty then [] else [⟨selector, ds⟩]

mutual

/-- The blocks of a selector whose rules are a value: none unless it is a table. -/
def blocksOf (selector : String) : Value → List Block
  | .table es => ownBlock selector es ++ nestedBlocks selector es
  | .view es => ownBlock selector es ++ nestedBlocks selector es
  | .dictionary es => ownBlock selector (Pairs.worded es) ++ nestedPairBlocks selector es
  | _ => []

/-- The blocks of the tables among the entries, in order. -/
def nestedBlocks (selector : String) : List (String × Value) → List Block
  | [] => []
  | (k, v) :: es => blocksOf (nest selector k) v ++ nestedBlocks selector es

/-- The blocks of the tables among entries with names of any kind, in order. -/
def nestedPairBlocks (selector : String) : List (Value × Value) → List Block
  | [] => []
  | (k, v) :: es =>
    blocksOf (nest selector (k.words?.getD "")) v ++ nestedPairBlocks selector es

end

/-- Check one entry of the rules of a selector: nested rules and declarations need
a text as their name, an ampersand needs a text to stand for, and the value of a
declaration must have a text. -/
def checkEntry (parent : Value) (e : Value × Value) : Except Fault Unit :=
  if e.2.isTable then (nestValues parent e.1).map fun _ => ()
  else if !isDeclared e.2 then .ok ()
  else if e.1.words?.isNone then .error .wrongKind
  else e.2.settingText.map fun _ => ()

mutual

/-- Check rules: the entries of a table in order, then the rules nested in it,
whose selectors are always texts. -/
def checkRules (parent : Value) : Value → Except Fault Unit
  | .table es => do
    (Pairs.ofEntries es).forM (checkEntry parent)
    checkNested es
  | .view es => do
    (Pairs.ofEntries es).forM (checkEntry parent)
    checkNested es
  | .dictionary es => do
    es.forM (checkEntry parent)
    checkNestedPairs es
  | _ => .ok ()

/-- Check the rules among the entries of a table, in order. -/
def checkNested : List (String × Value) → Except Fault Unit
  | [] => .ok ()
  | (_, v) :: es => do
    checkRules (.text "") v
    checkNested es

/-- Check the rules among entries with names of any kind, in order. -/
def checkNestedPairs : List (Value × Value) → Except Fault Unit
  | [] => .ok ()
  | (_, v) :: es => do
    checkRules (.text "") v
    checkNestedPairs es

end

/-- The blocks of one selector's rules, which must be a table. -/
def blocks (selector rules : Value) : Except Fault (List Block) := do
  if !rules.isTable then .error .unsupported
  checkRules selector rules
  return blocksOf selector.plain rules

/-- Blocks as text, one to a line. -/
def blocksText (bs : List Block) : String := Text.join "\n" (bs.map Block.text)

/-- The flat style text of one selector. -/
def flatten (selector rules : Value) : Except Fault String :=
  (blocks selector rules).map blocksText

/-- The blocks of a sheet, selector by selector. -/
def sheetBlocks : Pairs → Except Fault (List Block)
  | [] => .ok []
  | (selector, rules) :: rest => do
    let own ← blocks selector rules
    return own ++ (← sheetBlocks rest)

/-- The flat style text of a sheet, which must be a table of rules by selector. -/
def flattenSheet (sheet : Value) : Except Fault String :=
  match sheet.pairs? with
  | some ps => (sheetBlocks ps).map blocksText
  | none => .error .unsupported

/-! ## Printing

A broken text cannot be printed. It does no harm inside a list, where it is shown by
numbers, nor in the selector of rules that declare nothing. -/

mutual

/-- Whether what a value gives under a name can be printed, where `whole` says that
no name above it is broken. -/
def isPrintableUnder (whole : Bool) : Value → Bool
  | .none => true
  | .brokenText _ => false
  | .table es => arePrintableUnder whole es
  | .view es => arePrintableUnder whole es
  | .dictionary es => pairsPrintableUnder whole es
  | _ => whole

/-- Whether what the entries of a table give can be printed. -/
def arePrintableUnder (whole : Bool) : List (String × Value) → Bool
  | [] => true
  | (_, v) :: es => isPrintableUnder whole v && arePrintableUnder whole es

/-- Whether what entries with names of any kind give can be printed. -/
def pairsPrintableUnder (whole : Bool) : List (Value × Value) → Bool
  | [] => true
  | (k, v) :: es =>
    isPrintableUnder (whole && !k.isBroken) v && pairsPrintableUnder whole es

end

/-- Whether the flat text of a sheet can be printed. -/
def isPrintable (sheet : Value) : Bool := isPrintableUnder true sheet

end Pageloom.Style
