import Pageloom.Handler
import Pageloom.Sigil

/-!
# Nodes

A page tree as plain data. A node is an element with its child nodes; it may
stand at the root of a component boundary, which gives it a key, parameters and
hooks. The body of a boundary is what the boundary itself holds: its elements,
with every nested component reduced to a call of that component's factory.

Two readers look at a node in different depth. Markup, walks and bound names
see the whole tree. Factories and content comparison see one boundary only.

## Main definitions

* `Pageloom.Element` -- what an element says of itself
* `Pageloom.Boundary` -- a named, separately loadable component boundary
* `Pageloom.Node` -- a page tree
* `Pageloom.Body` -- what one boundary holds
* `Pageloom.Node.preorder`, `Pageloom.Node.components` -- the walks
* `Pageloom.Node.boundNames` -- the names a tree refers to
* `Pageloom.Node.sameContent` -- equality up to identity tokens
-/

namespace Pageloom

/-- What an element says of itself. -/
structure Element where
  tag : String
  token : String
  attributes : Entries String := []
  text : Option String := none
  onClick : Option Handler := none
  deriving DecidableEq

/-- A named, separately loadable boundary around an element. Its hooks run once
the page has loaded; they are handlers, unless authored code gave something else.
Its number tells the component from others that look the same. -/
structure Boundary where
  key : String
  parameters : List String := []
  hooks : List Value := []
  number : Nat := 0

/-- A page tree: an element, the boundary it is the root of if any, and its
children. -/
inductive Node
  | mk (boundary : Option Boundary) (element : Element) (children : List Node)

/-- What one boundary holds: elements, and calls of other factories. -/
inductive Body
  | element (element : Element) (children : List Body)
  | call (key : String) (arguments : List String)

namespace Element

/-- The class of an element: its token, and the class it was given if any. -/
def classValue (e : Element) : String :=
  match e.attributes.get? "class" with
  | some own => if own = "" then e.token else e.token ++ " " ++ own
  | none => e.token

/-- The attributes other than the class, in order. -/
def plainAttributes (e : Element) : Entries String := e.attributes.filter fun a => a.1 ≠ "class"

/-- The values of an element that may be references: its attributes but the
class, and its text when nothing stands below it. -/
def values (e : Element) (childless : Bool) : List String :=
  e.plainAttributes.map Prod.snd ++ (if childless then e.text.toList else [])

/-- Whether the click handler of an element, if it has one, has a call expression. -/
def isWritable (e : Element) : Bool := e.onClick.all Handler.isWritable

/-- Check that the click handler of an element has a call expression. -/
def checkClick (e : Element) : Except Fault Unit :=
  if e.isWritable then .ok () else .error .wrongValue

/-- Equality of two elements up to their tokens. Handlers agree when they are
carried out by the same call. -/
def sameContent (e f : Element) : Bool :=
  e.tag = f.tag && e.attributes = f.attributes && e.text = f.text &&
    e.onClick.map Handler.expression = f.onClick.map Handler.expression

end Element

/-- The members of a list, each at its first occurrence only. -/
def distinct : List String → List String
  | [] => []
  | x :: xs => x :: (distinct xs).filter (· ≠ x)

namespace Node

/-- The boundary a node is the root of. -/
def boundary : Node → Option Boundary
  | mk b _ _ => b

/-- The element of a node. -/
def element : Node → Element
  | mk _ e _ => e

/-- The children of a node. -/
def children : Node → List Node
  | mk _ _ cs => cs

/-- The same tree at the root of another boundary, or of none. -/
def withBoundary (n : Node) (b : Option Boundary) : Node := mk b n.element n.children

mutual

/-- Every node of a tree, parents before children, children in order. -/
def preorder : Node → List Node
  | mk b e cs => mk b e cs :: preorderAll cs

/-- Every node of a list of trees. -/
def preorderAll : List Node → List Node
  | [] => []
  | c :: cs => preorder c ++ preorderAll cs

end

/-- The component children of a node, in order. -/
def componentChildren (n : Node) : List Node := n.children.filter fun c => c.boundary.isSome

/-- The components below a node: for each node in preorder, the component
children of that node. -/
def nested (n : Node) : List Node := n.preorder.flatMap componentChildren

/-- A node and the components below it. -/
def components (n : Node) : List Node := n :: n.nested

/-- The values of one node that may be references. -/
def values (n : Node) : List String := n.element.values n.children.isEmpty

/-- Whether every click handler of a tree has a call expression. -/
def isWritable (n : Node) : Bool := n.preorder.all fun m => m.element.isWritable

/-- The names a tree refers to, across nested boundaries, in order of first use. -/
def boundNames (cue : Cue) (n : Node) : List String :=
  distinct (n.preorder.flatMap fun m => m.values.filterMap (referenceName? cue))

mutual

/-- What the boundary around a node holds. -/
def body : Node → Body
  | mk _ e cs => .element e (bodies cs)

/-- A child within a body: a component is a call of its factory. -/
def childBody : Node → Body
  | mk (some b) _ _ => .call b.key b.parameters
  | mk none e cs => .element e (bodies cs)

/-- The children of a body, in order. -/
def bodies : List Node → List Body
  | [] => []
  | c :: cs => childBody c :: bodies cs

end

end Node

namespace Body

mutual

/-- Equality of two bodies up to tokens. Nested components agree by key alone. -/
def same : Body → Body → Bool
  | .element e cs, .element f ds => e.sameContent f && sameAll cs ds
  | .call k _, .call l _ => k = l
  | _, _ => false

/-- Equality of two lists of bodies up to tokens. -/
def sameAll : List Body → List Body → Bool
  | [], [] => true
  | c :: cs, d :: ds => same c d && sameAll cs ds
  | _, _ => false

end

mutual

/-- Every value of a body that may be a reference. -/
def values : Body → List String
  | .element e cs => e.values cs.isEmpty ++ valuesAll cs
  | .call _ _ => []

/-- Every value of a list of bodies that may be a reference. -/
def valuesAll : List Body → List String
  | [] => []
  | c :: cs => values c ++ valuesAll cs

end

mutual

/-- Check what the steps of a body are taken from, in their order: the values of an element may
have to be compared with the sigil, and its click handler must have a call expression. -/
def check (sigil : Sigil) : Body → Except Fault Unit
  | .element e cs => do
    let _ ← sigil.forValues (e.values cs.isEmpty)
    e.checkClick
    checkAll sigil cs
  | .call _ _ => .ok ()

/-- Check what the steps of a list of bodies are taken from. -/
def checkAll (sigil : Sigil) : List Body → Except Fault Unit
  | [] => .ok ()
  | c :: cs => do
    check sigil c
    checkAll sigil cs

end

mutual

/-- Whether every click handler of a body has a call expression. -/
def isWritable : Body → Bool
  | .element e cs => e.isWritable && areWritable cs
  | .call _ _ => true

/-- Whether every click handler of a list of bodies has a call expression. -/
def areWritable : List Body → Bool
  | [] => true
  | c :: cs => isWritable c && areWritable cs

end

end Body

/-- Equality of the boundaries around two nodes, apart from their hooks. -/
def Boundary.sameAll : List Boundary → List Boundary → Bool
  | [], [] => true
  | b :: bs, c :: cs => b.key = c.key && b.parameters = c.parameters && sameAll bs cs
  | _, _ => false

/-- Equality of two nodes up to identity tokens, nested components by key alone. -/
def Node.sameContent (m n : Node) : Bool :=
  Boundary.sameAll m.boundary.toList n.boundary.toList && m.body.same n.body

end Pageloom
