import Pageloom.Node

/-!
# Forests

Trees while they are put together. Elements and components are numbered in the
order of their making and linked both ways: an element knows its children, its
parent and the component it is the root of; a component knows its root and its
parent. Every change is checked first, and a refused change leaves the forest
as it was.

An element may become the root of a second component; the last one is then its
owner, and an earlier one keeps its root. Reading a tree out of the forest is
therefore bounded by the number of elements: a longer path meets an element
twice and has no end.

Attributes and the text of an element are texts, and its click handler is a
handler. A value of another kind may be written all the same; it is kept as a
stray and is a fault for whoever comes to use it. A broken text is kept in the same
way, but whoever comes to use it finds a text with its halves filled in. A component
may be made around another component: it has no root then, but markup and content
can still be had from it.

## Main definitions

* `Pageloom.Forest` -- elements and components with their links
* `Pageloom.Strays` -- values of the wrong kind in an element
* `Pageloom.Forest.addChild`, `Pageloom.Forest.addComponent` -- the checked changes
* `Pageloom.Forest.ancestors` -- the elements above an element
* `Pageloom.Forest.read`, `Pageloom.Forest.readBody` -- trees as plain data
* `Pageloom.Forest.sameContent` -- equality of two nodes up to identity tokens
-/

namespace Pageloom

/-- Values of the wrong kind and broken texts that were written to an element. A
stray attribute has its place among the attributes of the element. -/
structure Strays where
  attributes : Entries Value := []
  text : Option Value := none
  onClick : Option Value := none

/-- Equality of the strays of two elements. A stray click handler that counts as
nothing is none. -/
def Strays.same (s t : Strays) : Bool :=
  (Value.table s.attributes).same (.table t.attributes) &&
    (s.text.getD .none).same (t.text.getD .none)

/-- An element in a forest. -/
structure ElementCell where
  element : Element
  strays : Strays := {}
  children : List NodeId := []
  parent : Option Nat := none
  owner : Option Nat := none

namespace ElementCell

/-- Write an attribute. -/
def writeAttribute (c : ElementCell) (name : String) (v : Value) : ElementCell :=
  let text := v.text?.getD (if v.truthy then v.plain else "")
  let stray := c.strays.attributes
  { c with
    element := { c.element with attributes := c.element.attributes.set name text }
    strays := { c.strays with
      attributes := if v.text?.isSome then stray.erase name else stray.set name v } }

/-- Write the text, or take it away. -/
def writeText (c : ElementCell) (v : Value) : ElementCell :=
  let stray := match v with
    | .none | .scalar (.text _) => none
    | v => some v
  { c with
    element := { c.element with text := v.words? }
    strays := { c.strays with text := stray } }

/-- The pieces of the text. -/
def pieces? (c : ElementCell) : Option (List Text.Piece) :=
  match c.strays.text with
  | some (.brokenText pieces) => some pieces
  | _ => c.element.text.map Text.piecesOf

/-- Write the click handler, or take it away. -/
def writeOnClick (c : ElementCell) (v : Value) : ElementCell :=
  let (handler, stray) := match v with
    | .none => (none, none)
    | .handler h => (some h, none)
    | v => (none, some v)
  { c with
    element := { c.element with onClick := handler }
    strays := { c.strays with onClick := stray } }

/-- Check that an attribute is a text, unless it is one of the given ones. -/
def checkAttribute (c : ElementCell) (others : List String) (name : String) : Except Fault Unit :=
  match c.strays.attributes.get? name with
  | some v => if others.contains name then .ok () else v.asText.map fun _ => ()
  | none => .ok ()

/-- Check that the attributes other than the given ones are texts, in order. -/
def checkAttributes (c : ElementCell) (others : List String) : Except Fault Unit :=
  c.element.attributes.forM fun a => c.checkAttribute others a.1

/-- Check that the text, where it counts, is one. -/
def checkText (c : ElementCell) : Except Fault Unit :=
  match c.strays.text with
  | some v => if c.children.isEmpty then v.asText.map fun _ => () else .ok ()
  | none => .ok ()

/-- Check that the click handler, where it was not written as one, is one. -/
def checkClick (c : ElementCell) : Except Fault Unit :=
  match c.strays.onClick with
  | some v => v.expression.map fun _ => ()
  | none => .ok ()

/-- Check what the names that an element refers to are taken from. The class is no
reference. -/
def checkNames (c : ElementCell) : Except Fault Unit := do
  c.checkAttributes ["class"]
  c.checkText

/-- Check what the steps that make an element are taken from, in their order. -/
def checkSteps (c : ElementCell) : Except Fault Unit := do
  c.checkNames
  c.checkClick

/-- Check what the markup of an element is taken from, in its order. The class and
a click handler are written in place of attributes of their names. -/
def checkMarkup (c : ElementCell) : Except Fault Unit := do
  c.checkClick
  c.element.checkClick
  c.checkAttributes (if c.element.onClick.isSome then ["class", "onclick"] else ["class"])
  c.checkText

/-- Check what the content of an element is compared by. -/
def checkContent (c : ElementCell) : Except Fault Unit :=
  if (c.strays.onClick.getD .none).truthy then c.checkClick else c.element.checkClick

end ElementCell

/-- A component in a forest. One that was made around another component has no
root, and `around` is the other one. -/
structure ComponentCell where
  root : Option Nat
  boundary : Boundary
  parent : Option Nat := none
  around : Option Nat := none

/-- Elements and components with their links. -/
structure Forest where
  elements : Array ElementCell := #[]
  components : Array ComponentCell := #[]

namespace Forest

/-- A forest without nodes. -/
def empty : Forest := {}

/-- Add an element without links, and give its number. -/
def addElement (f : Forest) (tag token : String) : Forest × Nat :=
  ({ f with elements := f.elements.push { element := { tag, token } } }, f.elements.size)

/-- Change one element. -/
def modifyElement (f : Forest) (i : Nat) (change : ElementCell → ElementCell) : Forest :=
  { f with elements := f.elements.modify i change }

/-- Change one component. -/
def modifyComponent (f : Forest) (i : Nat) (change : ComponentCell → ComponentCell) : Forest :=
  { f with components := f.components.modify i change }

/-- Write an attribute. -/
def setAttribute (f : Forest) (i : Nat) (name : String) (v : Value) : Forest :=
  f.modifyElement i fun c => c.writeAttribute name v

/-- Write the text, or take it away. -/
def setText (f : Forest) (i : Nat) (v : Value) : Forest :=
  f.modifyElement i fun c => c.writeText v

/-- Write the click handler, or take it away. -/
def setOnClick (f : Forest) (i : Nat) (v : Value) : Forest :=
  f.modifyElement i fun c => c.writeOnClick v

/-- Add hooks to a component, after those it has. -/
def addHooks (f : Forest) (i : Nat) (hooks : List Value) : Forest :=
  f.modifyComponent i fun c =>
    { c with boundary := { c.boundary with hooks := c.boundary.hooks ++ hooks } }

/-- Take the root of a component away. -/
def dropRoot (f : Forest) (i : Nat) : Forest :=
  f.modifyComponent i fun c => { c with root := none, around := none }

/-- An element as messages show it. -/
def shownElement (f : Forest) (i : Nat) : String :=
  match f.elements[i]? with
  | some c =>
    "Element(" ++ Text.quote c.element.tag ++ ", token=" ++ Text.quote c.element.token ++ ")"
  | none => ""

/-- A node as messages show it. -/
def shown (f : Forest) : NodeId → String
  | .element i => f.shownElement i
  | .component i =>
    match f.components[i]? with
    | some c => "Component(" ++ Text.quote c.boundary.key ++ ")"
    | none => ""

/-- A node as authored code holds it. -/
def handle (f : Forest) (id : NodeId) : Handle := ⟨id, f.shown id⟩

/-- The parent of a node. -/
def parent? (f : Forest) : NodeId → Option Nat
  | .element i => f.elements[i]?.bind ElementCell.parent
  | .component i => f.components[i]?.bind ComponentCell.parent

/-- The element directly above an element: its parent, else the parent of the
component it is the root of. -/
def above? (f : Forest) (i : Nat) : Option Nat :=
  match f.elements[i]? with
  | some c =>
    match c.parent with
    | some p => some p
    | none => c.owner.bind fun o => f.parent? (.component o)
  | none => none

/-- An element and those above it, at most as many as the bound allows. -/
def ancestorsWithin (f : Forest) : (bound : Nat) → Nat → List Nat
  | 0, _ => []
  | bound + 1, i =>
    i :: match f.above? i with
      | some p => f.ancestorsWithin bound p
      | none => []

/-- An element and every element above it, across boundaries. -/
def ancestors (f : Forest) (i : Nat) : List Nat := f.ancestorsWithin f.elements.size i

/-- The root of a component. -/
def root (f : Forest) (i : Nat) : Except Fault Nat :=
  match f.components[i]? with
  | some c =>
    match c.root with
    | some r => .ok r
    | none => .error (if c.around.isSome then .unsupported else .notRendered c.boundary.key)
  | none => .error .unsupported

/-- The component that a component was made around. -/
def around? (f : Forest) (i : Nat) : Option Nat := f.components[i]?.bind ComponentCell.around

/-- Check that a node has no place yet, and give the element that it brings, if it
is one or has one as its root. -/
def attachable (f : Forest) (child : NodeId) : Except Fault (Option Nat) :=
  match child with
  | .element i =>
    match f.elements[i]? with
    | some c =>
      if c.parent.isSome || c.owner.isSome then .error (.alreadyOwned (f.shown child))
      else .ok (some i)
    | none => .error .unsupported
  | .component i =>
    match f.parent? child with
    | some p => .error (.alreadyMounted (f.shown child) (f.shownElement p))
    | none => if (f.around? i).isSome then .ok none else (f.root i).map some

/-- Link a node below an element, after its other children. -/
def link (f : Forest) (parent : Nat) (child : NodeId) : Forest :=
  let f := match child with
    | .element i => f.modifyElement i fun c => { c with parent := some parent }
    | .component i => f.modifyComponent i fun c => { c with parent := some parent }
  f.modifyElement parent fun c => { c with children := c.children ++ [child] }

/-- Add a child. A node that has a place already is refused, and so is one that
stands above the new parent. -/
def addChild (f : Forest) (parent : Nat) (child : NodeId) : Except Fault Forest := do
  let target ← f.attachable child
  if target.any fun i => (f.ancestors parent).contains i then
    .error (.cycle (f.shown child) (f.shownElement parent))
  else
    .ok (f.link parent child)

/-- Add a value as a child. Only nodes can be children. -/
def addValue (f : Forest) (parent : Nat) : Value → Except Fault Forest
  | .node h => f.addChild parent h.id
  | v => .error (.notAChild v.kindName)

/-- Make a component around an element that has no parent, and give its number. -/
def addComponent (f : Forest) (root : Nat) (key : String) (parameters : List String) :
    Except Fault (Forest × Nat) :=
  match f.parent? (.element root) with
  | some p => .error (.rootIsChild (f.shownElement root) (f.shownElement p))
  | none =>
    let i := f.components.size
    let cell : ComponentCell :=
      { root := some root, boundary := { key, parameters, number := i } }
    let f : Forest := { f with components := f.components.push cell }
    .ok (f.modifyElement root fun c => { c with owner := some i }, i)

/-- Make a component around another one that has no parent, and give its number. -/
def addAround (f : Forest) (inner : Nat) (key : String) (parameters : List String) :
    Except Fault (Forest × Nat) :=
  match f.parent? (.component inner) with
  | some p => .error (.rootIsChild (f.shown (.component inner)) (f.shownElement p))
  | none =>
    let cell : ComponentCell :=
      { root := none, boundary := { key, parameters, number := f.components.size }
        around := some inner }
    .ok ({ f with components := f.components.push cell }, f.components.size)

/-- The boundary and the root of a component. -/
def boundaryOf (f : Forest) (i : Nat) : Except Fault (Boundary × Nat) :=
  match f.components[i]? with
  | some c => (f.root i).map fun r => (c.boundary, r)
  | none => .error .unsupported

/-- The boundaries of a component and of those that it was made around, and the
element inside them all. A component is younger than the one that it was made
around, so the number of components bounds the search. -/
def coreWithin (f : Forest) : (bound : Nat) → Nat → Except Fault (List Boundary × Nat)
  | 0, _ => .error .endless
  | bound + 1, i =>
    match f.components[i]? with
    | some c =>
      match c.around with
      | some j => (f.coreWithin bound j).map fun core => (c.boundary :: core.1, core.2)
      | none => (f.root i).map fun r => ([c.boundary], r)
    | none => .error .unsupported

/-- The boundaries of a node, from the outermost to the innermost, and the element
inside them. -/
def core (f : Forest) : NodeId → Except Fault (List Boundary × Nat)
  | .element i => .ok ([], i)
  | .component i => f.coreWithin f.components.size i

/-- The boundary of a component and the element inside it and inside the components
that it was made around. -/
def boundaryWithCore (f : Forest) (i : Nat) : Except Fault (Boundary × Nat) :=
  match f.components[i]? with
  | some c => (f.core (.component i)).map fun core => (c.boundary, core.2)
  | none => .error .unsupported

/-- Read the tree of an element as plain data, to at most the given depth. `enter`
gives the boundary of a component and the element to go on with. Each element is
checked before those below it. -/
def readWithin (f : Forest) (enter : Nat → Except Fault (Boundary × Nat))
    (check : ElementCell → Except Fault Unit) :
    (depth : Nat) → Option Boundary → Nat → Except Fault Node
  | 0, _, _ => .error .endless
  | depth + 1, boundary, i =>
    match f.elements[i]? with
    | some c => do
      check c
      let children ← c.children.mapM fun child =>
        match child with
        | .element j => f.readWithin enter check depth none j
        | .component j =>
          match enter j with
          | .ok (b, r) => f.readWithin enter check depth (some b) r
          | .error e => .error e
      return .mk boundary c.element children
    | none => .error .unsupported

/-- Read the tree of a node as plain data, each element being checked. -/
def readChecked (f : Forest) (enter : Nat → Except Fault (Boundary × Nat))
    (check : ElementCell → Except Fault Unit) (id : NodeId) : Except Fault Node :=
  match id with
  | .element i => f.readWithin enter check f.elements.size none i
  | .component i => do
    let (b, r) ← enter i
    f.readWithin enter check f.elements.size (some b) r

/-- Read the tree of a node as plain data. -/
def read (f : Forest) (id : NodeId) : Except Fault Node :=
  f.readChecked f.boundaryOf (fun _ => .ok ()) id

/-- Read what one boundary holds, to at most the given depth. Each element is
checked before those below it. -/
def readBodyWithin (f : Forest) (check : ElementCell → Except Fault Unit) :
    (depth : Nat) → Nat → Except Fault Body
  | 0, _ => .error .endless
  | depth + 1, i =>
    match f.elements[i]? with
    | some c => do
      check c
      let children ← c.children.mapM fun child =>
        match child with
        | .element j => f.readBodyWithin check depth j
        | .component j =>
          match f.components[j]? with
          | some k => .ok (Body.call k.boundary.key k.boundary.parameters)
          | none => .error .unsupported
      return Body.element c.element children
    | none => .error .unsupported

/-- The element that a node is or has as its root. -/
def rootOf (f : Forest) : NodeId → Except Fault Nat
  | .element i => .ok i
  | .component i => f.root i

/-- Read what the boundary around a node holds, each element being checked. Nested
components are not looked into. -/
def readBodyChecked (f : Forest) (check : ElementCell → Except Fault Unit) (id : NodeId) :
    Except Fault Body := do
  f.readBodyWithin check f.elements.size (← f.rootOf id)

/-- Read what the boundary around a node holds, for the steps that rebuild it. -/
def readBody (f : Forest) (id : NodeId) : Except Fault Body :=
  f.readBodyChecked ElementCell.checkSteps id

/-- The boundary of a component, and what its factory rebuilds. -/
def readFactory (f : Forest) (i : Nat) : Except Fault (Boundary × Body) :=
  match f.components[i]? with
  | some c => (f.readBody (.component (c.around.getD i))).map fun b => (c.boundary, b)
  | none => .error .unsupported

/-- The elements that one boundary holds, below and including those of a list,
as many as the bound allows. -/
def ownElementsWithin (f : Forest) : (bound : Nat) → List Nat → List Nat
  | 0, _ => []
  | _, [] => []
  | bound + 1, i :: rest =>
    let below := match f.elements[i]? with
      | some c => c.children.filterMap fun (child : NodeId) =>
          match child with
          | .element j => some j
          | .component _ => none
      | none => []
    i :: f.ownElementsWithin bound (below ++ rest)

/-- The elements that one boundary holds, below and including an element. -/
def ownElements (f : Forest) (i : Nat) : List Nat := f.ownElementsWithin f.elements.size [i]

/-- The strays of the elements that one boundary holds, in preorder. -/
def ownStrays (f : Forest) (i : Nat) : List Strays :=
  (f.ownElements i).map fun j => (f.elements[j]?.map ElementCell.strays).getD {}

/-- The content comparison of two nodes of a forest. -/
def sameContent (f : Forest) (a b : NodeId) : Except Fault Bool := do
  let (around, r) ← f.core a
  let x ← f.readBodyChecked ElementCell.checkContent (.element r)
  let (around', s) ← f.core b
  let y ← f.readBodyChecked ElementCell.checkContent (.element s)
  return Boundary.sameAll around around' && x.same y &&
    ((f.ownStrays r).zip (f.ownStrays s)).all fun t => t.1.same t.2

/-- The content comparison of two values. Only nodes have content. -/
def sameValues (f : Forest) : Value → Value → Except Fault Bool
  | .node a, .node b => f.sameContent a.id b.id
  | .node a, v => do
    let _ ← f.readBodyChecked ElementCell.checkContent (.element (← f.core a.id).2)
    .error (.notComparable v.kindName)
  | v, _ => .error (.notComparable v.kindName)

end Forest

end Pageloom
