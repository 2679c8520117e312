import Pageloom.Text.Literal
import Pageloom.Value.Key
import Pageloom.Value.Text

/-!
# Handlers

A handler says what a click or a page load should do. Authored code gives it as
a handler or as a table with a `kind`; a table that does not describe one is
dropped. Both outputs of the library write a handler as the same call
expression, which a handler with an integer that is too long does not have.

## Main definitions

* `Pageloom.Handler.ofFields?` -- the handler that named fields describe
* `Pageloom.Value.asHandler?` -- the handler a value stands for
* `Pageloom.Handler.expression` -- the call that carries a handler out
* `Pageloom.Handler.expressionText` -- the call of a handler that has one
* `Pageloom.Value.scriptLiteral` -- a value as a literal of the scripts
-/

namespace Pageloom

/-- The two kinds of handlers. -/
inductive HandlerKind
  | render
  | call
  deriving DecidableEq

namespace HandlerKind

/-- The name of a kind in a description. -/
def name : HandlerKind → String
  | .render => "render"
  | .call => "call"

/-- The kind with a given name. -/
def ofName? (s : String) : Option HandlerKind :=
  if s = "render" then some .render else if s = "call" then some .call else none

end HandlerKind

/-- A text that a field takes: a text proper, or bytes. -/
def Value.fieldText? : Value → Option String
  | .scalar (.text s) => some s
  | .bytes ascii => some ascii
  | _ => Option.none

/-- A required field that holds a text with at least one character. -/
def Handler.requiredText? (fields : Entries Value) (name : String) : Option String :=
  match (fields.get? name).bind Value.fieldText? with
  | some s => if s = "" then none else some s
  | none => none

/-- An argument of a call: a scalar, or bytes taken as text. -/
def Value.argument? : Value → Option Scalar
  | .scalar s => some s
  | .bytes ascii => some (.text ascii)
  | _ => Option.none

/-- The arguments of a call: a table of scalars, empty when absent. -/
def Handler.arguments? (fields : Entries Value) : Option (Entries Scalar) :=
  match fields.get? "args" with
  | none => some []
  | some v => do
    let pairs ← v.pairs?
    let arguments ← pairs.mapM fun e => do return (← e.1.fieldText?, ← e.2.argument?)
    return Entries.ofPairs arguments

/-- The handler of a kind that named fields describe. A `kind` among the fields
must be that kind; fields that the kind does not have are ignored. -/
def Handler.ofFields? (kind : HandlerKind) (fields : Entries Value) : Option Handler :=
  let agrees := match fields.get? "kind" with
    | none => true
    | some (.scalar (.text s)) => s = kind.name
    | some _ => false
  if !agrees then none
  else match kind with
    | .render => do
      let component ← requiredText? fields "component"
      let target ← requiredText? fields "target"
      return .render component target
    | .call => do
      let name ← requiredText? fields "name"
      let arguments ← arguments? fields
      return .call name arguments

/-- The handler a value stands for: itself, or the one a table with a `kind`
describes. -/
def Value.asHandler? : Value → Option Handler
  | .handler h => some h
  | v => do
    let fields := (← v.ownPairs?).texts
    let kind ← HandlerKind.ofName? (← (← fields.get? "kind").text?)
    Handler.ofFields? kind fields

/-- A scalar as a literal of the scripts. -/
def Scalar.literal : Scalar → String
  | .text s => Text.literal s
  | .int n => Int.repr n
  | .real x => x.literal
  | .bool b => if b then "true" else "false"

/-- The literal of a scalar that can be written. -/
def Scalar.literalText (s : Scalar) : Except Fault String :=
  if s.isWritable then .ok s.literal else .error .wrongValue

namespace Handler

/-- The function of the page that mounts a component. -/
def renderFunction : String := "renderComponent"

/-- The call that carries a handler out. -/
def expression : Handler → String
  | .render component target =>
    renderFunction ++ "(" ++ Text.literal component ++ ", " ++ Text.literal target ++ ")"
  | .call name arguments =>
    name ++ "(" ++ Text.join ", " (arguments.map fun a => a.2.literal) ++ ")"

/-- The call that carries a handler out, if its arguments can be written. -/
def expressionText (h : Handler) : Except Fault String :=
  if h.isWritable then .ok h.expression else .error .wrongValue

end Handler

namespace Value

/-- The call expression of a value, which must be a handler. -/
def expression (v : Value) : Except Fault String :=
  match v with
  | .handler h => h.expressionText
  | v => .error (v.faultShowing .unknownHandler)

mutual

/-- A value as a literal of the scripts: scalars, and lists and tables of them. -/
def scriptLiteral : Value → Except Fault String
  | .none => .ok "null"
  | .scalar s => s.literalText
  | .brokenText pieces => .ok (Text.literalPieces pieces)
  | .list xs => do return "[" ++ Text.join ", " (← scriptLiterals xs) ++ "]"
  | .tuple xs => do return "[" ++ Text.join ", " (← scriptLiterals xs) ++ "]"
  | .table es => do return Text.braced (← scriptEntries es)
  | .dictionary es => do return Text.braced (← scriptPairs es)
  | _ => .error .wrongKind

/-- The literals of a list. -/
def scriptLiterals : List Value → Except Fault (List String)
  | [] => .ok []
  | x :: xs => do return (← scriptLiteral x) :: (← scriptLiterals xs)

/-- The literals of the entries of a table. -/
def scriptEntries : List (String × Value) → Except Fault (List String)
  | [] => .ok []
  | (k, v) :: es => do
    let shown ← scriptLiteral v
    return (Text.literal k ++ ": " ++ shown) :: (← scriptEntries es)

/-- The literals of the entries of a table whose names may be scalars of any kind,
or nothing. -/
def scriptPairs : List (Value × Value) → Except Fault (List String)
  | [] => .ok []
  | (k, v) :: es => do
    let name ← match k with
      | .scalar (.text s) => .ok (Text.literal s)
      | .scalar s => s.literalText.map Text.literal
      | .brokenText pieces => .ok (Text.literalPieces pieces)
      | .none => .ok (Text.literal "null")
      | _ => .error .wrongKind
    let shown ← scriptLiteral v
    return (name ++ ": " ++ shown) :: (← scriptPairs es)

end

end Value

end Pageloom
