import Pageloom.Entries
import Pageloom.Fault
import Pageloom.Moment
import Pageloom.Number.Shortest
import Pageloom.Text.Piece

/-!
# Values

Authored code hands the library values of any kind: texts, numbers, lists,
tables, handlers, nodes and callables. Much of the library's behaviour is what
it makes of a value of each kind, so there is one type of values.

A node is held as a handle, its place in the forest together with the way it is
shown, since neither the tag and token of an element nor the key of a component
ever change.

## Main definitions

* `Pageloom.Scalar` -- texts, integers, doubles and truth values
* `Pageloom.Handler` -- what a click or a page load should do
* `Pageloom.NodeId`, `Pageloom.Handle` -- nodes as authored code holds them
* `Pageloom.Seat` -- the builders that authored code meets
* `Pageloom.Callable` -- what may be called to make a node
* `Pageloom.Value` -- values of any kind
-/

namespace Pageloom

/-- A text, an integer, a double or a truth value. -/
inductive Scalar
  | text (s : String)
  | int (n : Int)
  | real (x : Double)
  | bool (b : Bool)
  deriving DecidableEq

/-- What a click or a page load should do. -/
inductive Handler
  /-- Mount a component below the element with the given id. -/
  | render (component target : String)
  /-- Call a function of the page with scalar arguments, in order. -/
  | call (name : String) (arguments : Entries Scalar)
  deriving DecidableEq

/-- The place of a node in a forest. -/
inductive NodeId
  | element (index : Nat)
  | component (index : Nat)
  deriving DecidableEq

/-- A node as authored code holds it. -/
structure Handle where
  id : NodeId
  shown : String
  deriving DecidableEq

/-- The builders that authored code meets. -/
inductive Seat
  /-- The builder of the build. -/
  | own
  /-- The builder that serves code outside of any build. -/
  | fallback
  /-- A builder that authored code brought along. -/
  | guest
  deriving DecidableEq

/-- What may be called to make a node. -/
inductive Callable
  /-- A function that takes anything and gives nothing. -/
  | idle
  /-- The fragment of whichever builder is active. -/
  | fragment
  /-- The fragment of one builder. -/
  | fragmentOf (seat : Seat)
  /-- A component of the program. Components that are told apart by `ref` may have one name; a
  callable object has no function kind. -/
  | component (ref name : String) (isObject : Bool)
  /-- A callable that every module has under the given name. -/
  | inherent (name : String)
  deriving DecidableEq

/-- A value of any kind. -/
inductive Value
  | none
  | scalar (s : Scalar)
  /-- A text that holds half of a surrogate pair alone. -/
  | brokenText (pieces : List Text.Piece)
  | list (items : List Value)
  | tuple (items : List Value)
  /-- A table that may be written. -/
  | table (entries : List (String × Value))
  /-- A table that may only be read. -/
  | view (entries : List (String × Value))
  /-- A table some of whose names are no texts. -/
  | dictionary (entries : List (Value × Value))
  | handler (h : Handler)
  /-- Raw bytes, all of them ASCII. -/
  | bytes (ascii : String)
  | emptySet
  | moment (m : Moment)
  | callable (c : Callable)
  | node (h : Handle)
  /-- A value of another kind, of which nothing but the kind is known. -/
  | foreign (kind : String)

namespace Value

/-- A text as a value. -/
@[match_pattern] abbrev text (s : String) : Value := .scalar (.text s)

/-- A truth value as a value. -/
@[match_pattern] abbrev bool (b : Bool) : Value := .scalar (.bool b)

/-- An integer as a value. -/
@[match_pattern] abbrev int (n : Int) : Value := .scalar (.int n)

/-- A double as a value. -/
@[match_pattern] abbrev real (x : Double) : Value := .scalar (.real x)

instance : Inhabited Value := ⟨.none⟩

/-- The entries of a table of named values, whether it may be written or not. -/
def entries? : Value → Option (Entries Value)
  | .table es => some es
  | .view es => some es
  | _ => Option.none

/-- The text of pieces as a value. -/
def ofPieces (pieces : List Text.Piece) : Value :=
  match Text.whole? pieces with
  | some s => .text s
  | Option.none => .brokenText pieces

/-- Whether a value is a broken text. -/
def isBroken : Value → Bool
  | .brokenText _ => true
  | _ => false

/-- The items of a list or a tuple. -/
def items? : Value → Option (List Value)
  | .list xs => some xs
  | .tuple xs => some xs
  | _ => Option.none

/-- Whether a value counts as something where a condition is asked for. -/
def truthy : Value → Bool
  | .none => false
  | .scalar (.text s) => s ≠ ""
  | .scalar (.int n) => n ≠ 0
  | .scalar (.real x) => !x.isZero
  | .scalar (.bool b) => b
  | .list xs => !xs.isEmpty
  | .tuple xs => !xs.isEmpty
  | .table es => !es.isEmpty
  | .view es => !es.isEmpty
  | .dictionary es => !es.isEmpty
  | .bytes ascii => ascii ≠ ""
  | .emptySet => false
  | _ => true

/-- The name of a callable's kind. -/
def callableKind : Callable → String
  | .idle => "function"
  | .fragment => "function"
  | .fragmentOf _ => "method"
  | .component _ name isObject => if isObject then name else "function"
  | .inherent _ => "method"

/-- The name of a value's kind, as messages give it. -/
def kindName : Value → String
  | .none => "NoneType"
  | .scalar (.text _) => "str"
  | .scalar (.int _) => "int"
  | .scalar (.real _) => "float"
  | .scalar (.bool _) => "bool"
  | .brokenText _ => "str"
  | .list _ => "list"
  | .tuple _ => "tuple"
  | .table _ => "dict"
  | .view _ => "mappingproxy"
  | .dictionary _ => "dict"
  | .handler (.render ..) => "RenderHandler"
  | .handler (.call ..) => "CallHandler"
  | .bytes _ => "bytes"
  | .emptySet => "set"
  | .moment m => m.kindName
  | .callable c => callableKind c
  | .node { id := .element _, .. } => "Element"
  | .node { id := .component _, .. } => "Component"
  | .foreign kind => kind

/-- A value where a text is wanted. A broken text is one, and has its halves filled
in. Bytes and dates have the operations of a text and refuse texts as their
arguments; other kinds lack the operations. -/
def asText : Value → Except Fault String
  | .scalar (.text s) => .ok s
  | .brokenText pieces => .ok (Text.filled pieces)
  | .bytes _ | .moment _ => .error .wrongKind
  | _ => .error .unsupported

end Value

end Pageloom
