import Pageloom.Builder

/-!
# Components from callables

Calling a component gives a node, and the builder makes a boundary of it. A
component whose name ends in `_INNER` is spliced into its caller instead, and
its hooks wait for the boundary around it. The root of a build is called with
placeholders, so that its parameters stay open.

What calling does is a parameter here, since authored code is run elsewhere.

## Main definitions

* `Pageloom.mergeChildren` -- the properties that a component is called with
* `Pageloom.Sigil.placeholders` -- what the root of a build is called with
* `Pageloom.Build.finish` -- a boundary from what a component gave
* `Pageloom.Build.node` -- a node from a type, properties and children
* `Pageloom.Build.renderRoot` -- the root of a build
-/

namespace Pageloom

/-- The fields of a handler as entries. -/
def Handler.entries : Handler → Entries Value
  | .render component target =>
    [("kind", .text "render"), ("component", .text component), ("target", .text target)]
  | .call name arguments =>
    [("kind", .text "call"), ("name", .text name),
      ("args", .table (arguments.map fun a => (a.1, .scalar a.2)))]

/-- The two halves of a pair given as a value: a sequence of two items, a text of
two characters, or the two names of a table. -/
def Value.pair? : Value → Except Fault (Value × Value)
  | .list [k, v] => .ok (k, v)
  | .tuple [k, v] => .ok (k, v)
  | .table [k, v] => .ok (.text k.1, .text v.1)
  | .view [k, v] => .ok (.text k.1, .text v.1)
  | .dictionary [k, v] => .ok (k.1, v.1)
  | .scalar (.text s) =>
    match s.toList with
    | [a, b] => .ok (.text (String.singleton a), .text (String.singleton b))
    | _ => .error .wrongValue
  | .list _ | .tuple _ | .table _ | .view _ | .dictionary _ | .bytes _ | .emptySet | .handler _ =>
    .error .wrongValue
  | _ => .error .wrongKind

/-- Write pairs given as values into entries, one by one. -/
def Pairs.writeAll : List Value → Pairs → Except Fault Pairs
  | [], ps => .ok ps
  | x :: xs, ps => do
    let (k, v) ← x.pair?
    if k.isKey then writeAll xs (ps.set k v) else .error .wrongKind

/-- The entries that a value of properties stands for in a call. -/
def propertiesOf (props : Value) : Except Fault Pairs :=
  if !props.truthy then .ok []
  else match props with
    | .handler h => .ok (.ofEntries h.entries)
    | .list xs => Pairs.writeAll xs []
    | .tuple xs => Pairs.writeAll xs []
    | .scalar (.text _) => .error .wrongValue
    | v =>
      match v.pairs? with
      | some ps => .ok ps
      | none => .error .wrongKind

/-- The properties that a component is called with: the given ones, with the
children that are passed in place of a `children` property. -/
def mergeChildren (props : Value) (children : List Value) : Except Fault Value := do
  let entries := (← propertiesOf props).erase "children"
  let entries := match children with
    | [] => entries
    | [c] => entries.set (.text "children") c
    | cs => entries.set (.text "children") (.list cs)
  return entries.toValue

/-- The end of the name of a component that is spliced into its caller. -/
def inlineEnding : String := "_INNER"

/-- Whether a component is spliced into its caller. -/
def isInlineName (name : String) : Bool := Text.endsWith name inlineEnding

/-- A placeholder for each parameter: its name behind the sigil. -/
def Sigil.placeholders (sigil : Sigil) (parameters : List String) : Except Fault (List Value) :=
  if sigil.isWritable || parameters.isEmpty then
    .ok (parameters.map fun name => .text (sigil.plain ++ name))
  else .error .wrongValue

/-- What a build needs to know of authored code: what calling gives, the
positional parameters of a callable, and its on-load hooks. -/
structure Author where
  call : Callable → List Value → Build Value
  parameters : Callable → List String
  hooks : Callable → List Value

namespace Build

/-- Splice what an inline component gave into its caller. -/
def splice (seat : Seat) (name : String) (hooks : List Value) (result : Value) : Build Value := do
  match result with
  | .node { id := .component c, .. } =>
    modifyForest fun f => f.addHooks c hooks
    return result
  | .node { id := .element e, .. } =>
    if !hooks.isEmpty then
      modify fun w =>
        let b := w.builder seat
        w.setBuilder seat { b with waiting := b.waiting ++ [(e, hooks)] }
    return result
  | v => throw (.inlineNotANode name v.kindName)

/-- Make a boundary of what a component gave. A component that gave another one
lends it its hooks and no boundary of its own. -/
def enclose (seat : Seat) (name : String) (hooks : List Value) (result : Value) :
    Build Value := do
  let c ← match result with
    | .node { id := .component c, .. } => pure c
    | .node { id := .element e, .. } => do
      let sigil := ((← get).builder seat).sigil
      wrap e name (← boundNames sigil e)
    | v => throw (.notANode name v.kindName)
  modifyForest fun f => f.addHooks c hooks
  claim seat c
  nodeValue (.component c)

/-- The node of a component, from what calling it gave. -/
def finish (seat : Seat) (name : String) (hooks : List Value) (result : Value) : Build Value :=
  if isInlineName name then splice seat name hooks result else enclose seat name hooks result

/-- Whether a callable is the fragment of a seat's builder. -/
def isFragment (seat : Seat) : Callable → Bool
  | .fragment => true
  | .fragmentOf other => seat = other
  | _ => false

/-- Make a node from a type, properties and children: a text is a tag, and a
callable a component. -/
def node (author : Author) (seat : Seat) (type props : Value) (children : List Value) :
    Build Value := do
  match type with
  | .scalar (.text tag) => element seat tag props children
  | .brokenText pieces => element seat (Text.filled pieces) props children
  | .callable c =>
    let merged ← lift (mergeChildren props children)
    if isFragment seat c then fragment seat merged
    else
      let result ← author.call c [merged]
      finish seat c.name (author.hooks c) result
  | v => throw (v.faultShowing .notBuildable)

/-- The root of a build: a component called with a placeholder for each of its
positional parameters. -/
def renderRoot (author : Author) (entry : Value) (key : Option String) : Build Value := do
  match entry with
  | .callable c =>
    let name := match key with
      | some k => if k = "" then c.name else k
      | none => c.name
    let parameters := author.parameters c
    let arguments ← lift ((← get).own.sigil.placeholders parameters)
    let result ← serving .own (author.call c arguments)
    let root ← match result with
      | .node { id := .component r, .. } => do
        let (b, e) ← lift ((← forest).boundaryOf r)
        let i ← wrap e name parameters
        modifyForest fun f => f.addHooks i b.hooks
        pure i
      | .node { id := .element e, .. } => wrap e name parameters
      | v => throw (.notANode name v.kindName)
    modifyForest fun f => f.addHooks root (author.hooks c)
    claim .own root
    nodeValue (.component root)
  | v => throw (v.faultShowing .notCallable)

end Build

end Pageloom
