import Pageloom.Builder.Component
import Pageloom.Inherent

/-!
# Programs

Authored code as data: definitions of components, and the expressions of their
bodies. Evaluation is eager and from left to right, so the type and the
properties of a node come before its children, and children before the node
that holds them.

Calls nest to a bounded depth. Within a call, evaluation follows the expression.

## Main definitions

* `Pageloom.Expr` -- expressions
* `Pageloom.Definition`, `Pageloom.Program` -- components and what they are referred to by
* `Pageloom.Program.call` -- call a callable
* `Pageloom.Program.eval` -- evaluate an expression outside of any component
-/

namespace Pageloom

/-- An expression of authored code. -/
inductive Expr
  | value (v : Value)
  | list (items : List Expr)
  | tuple (items : List Expr)
  | table (entries : List (String × Expr))
  | view (entries : List (String × Expr))
  /-- A handler made from named fields. -/
  | handler (kind : HandlerKind) (fields : List (String × Expr))
  /-- A node from a type, properties and children. -/
  | build (type props : Expr) (children : List Expr)
  /-- A component of the program. -/
  | component (ref : String)
  /-- The fragment of the active builder, with the given properties. -/
  | callFragment (props : Expr)
  /-- A property that the component was called with, or else a default. -/
  | prop (name : String) (fallback : Expr)
  /-- The first argument of the call. -/
  | props
  /-- The argument for a positional parameter. -/
  | param (name : String)
  /-- Name the value of an expression. -/
  | bind (name : String) (expr : Expr)
  /-- A value named before. -/
  | ref (name : String)
  /-- Evaluate in order; the last value counts. -/
  | seq (items : List Expr)

instance : Inhabited Expr := ⟨.value .none⟩

/-- A component: its name, its positional parameters, its body and its on-load hooks. -/
structure Definition where
  name : String
  parameters : List String
  body : Expr
  hooks : List Value
  isObject : Bool

/-- Components by what they are referred to by. Several of them may have one name, and they may
differ in everything else. -/
abbrev Program := Entries Definition

/-- What a call knows of its caller. -/
structure Frame where
  arguments : List Value := []
  parameters : List String := []

namespace Frame

/-- The first argument of the call. -/
def first (f : Frame) : Value := f.arguments.head?.getD .none

/-- A property that the component was called with. -/
def prop? (f : Frame) (name : String) : Option Value :=
  f.first.ownPairs?.bind fun ps => ps.get? name

/-- The argument for a positional parameter. -/
def param (f : Frame) (name : String) : Value :=
  if f.parameters.contains name then (f.arguments[f.parameters.idxOf name]?).getD .none else .none

end Frame

namespace Program

/-- The positional parameters of a callable. -/
def parameters (p : Program) : Callable → List String
  | .idle => []
  | .fragment | .fragmentOf _ => ["props"]
  | .component ref _ _ => ((Entries.get? p ref).map Definition.parameters).getD []
  | .inherent name => ((Inherent.ofName? name).map Inherent.parameters).getD []

/-- The on-load hooks of a callable. -/
def hooks (p : Program) : Callable → List Value
  | .component ref _ _ => ((Entries.get? p ref).map Definition.hooks).getD []
  | _ => []

/-- Authored code, given what calling does. -/
def author (p : Program) (call : Callable → List Value → Build Value) : Author :=
  ⟨call, p.parameters, p.hooks⟩

/-- A component of the program as a value. -/
def component (p : Program) (ref : String) : Build Value :=
  match Entries.get? p ref with
  | some d => pure (.callable (.component ref d.name d.isObject))
  | none => throw (.unknownName ref)

mutual

/-- Evaluate an expression within a call. -/
def evalIn (p : Program) (call : Callable → List Value → Build Value) (frame : Frame) :
    Expr → Build Value
  | .value v => pure v
  | .list items => return .list (← evalAll p call frame items)
  | .tuple items => return .tuple (← evalAll p call frame items)
  | .table entries => return .table (Entries.ofPairs (← evalEntries p call frame entries))
  | .view entries => return .view (Entries.ofPairs (← evalEntries p call frame entries))
  | .handler kind fields => do
    let fields ← evalEntries p call frame fields
    match Handler.ofFields? kind (Entries.ofPairs fields) with
    | some h => return .handler h
    | none => throw .invalidHandler
  | .build type given children => do
    let type ← evalIn p call frame type
    let given ← evalIn p call frame given
    let children ← evalAll p call frame children
    Build.node (p.author call) (← get).active type given children
  | .component ref => p.component ref
  | .callFragment given => do
    let given ← evalIn p call frame given
    Build.fragment (← get).active given
  | .prop name fallback =>
    match frame.prop? name with
    | some v => pure v
    | none => evalIn p call frame fallback
  | .props => pure frame.first
  | .param name => pure (frame.param name)
  | .bind name expr => do
    let v ← evalIn p call frame expr
    modify fun w => { w with names := w.names.set name v }
    return v
  | .ref name => return ((← get).names.get? name).getD .none
  | .seq items => return ((← evalAll p call frame items).getLast?).getD .none

/-- Evaluate expressions in order. -/
def evalAll (p : Program) (call : Callable → List Value → Build Value) (frame : Frame) :
    List Expr → Build (List Value)
  | [] => pure []
  | e :: es => do
    let v ← evalIn p call frame e
    return v :: (← evalAll p call frame es)

/-- Evaluate named expressions in order. -/
def evalEntries (p : Program) (call : Callable → List Value → Build Value) (frame : Frame) :
    List (String × Expr) → Build (List (String × Value))
  | [] => pure []
  | (k, e) :: es => do
    let v ← evalIn p call frame e
    return (k, v) :: (← evalEntries p call frame es)

end

/-- Call a callable, with calls nested to at most the given depth. -/
def callWithin (p : Program) : (depth : Nat) → Callable → List Value → Build Value
  | 0, _, _ => throw .endless
  | depth + 1, c, arguments =>
    match c with
    | .idle => pure .none
    | .fragment => do Build.fragment (← get).active (arguments.head?.getD .none)
    | .fragmentOf seat => Build.fragment seat (arguments.head?.getD .none)
    | .component ref _ _ =>
      match Entries.get? p ref with
      | some d => evalIn p (p.callWithin depth) ⟨arguments, d.parameters⟩ d.body
      | none => throw (.unknownName ref)
    | .inherent name =>
      match Inherent.ofName? name with
      | some i => Build.lift i.gives
      | none => throw (.unknownName name)

/-- The depth to which calls of components may nest. -/
def callDepth : Nat := 20000

/-- Call a callable. -/
def call (p : Program) : Callable → List Value → Build Value := p.callWithin callDepth

/-- Evaluate an expression outside of any component. -/
def eval (p : Program) (e : Expr) : Build Value := evalIn p p.call {} e

/-- The root of a build. -/
def renderRoot (p : Program) (entry : Value) (key : Option String) : Build Value :=
  Build.renderRoot (p.author p.call) entry key

end Program

end Pageloom
