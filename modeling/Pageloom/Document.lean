import Pageloom.Markup

/-!
# Documents

A live page in memory. Its nodes are numbered cells linked both ways; the body
is cell zero. Only what generated scripts need is there: nodes are made, filled,
moved, copied, taken away and found by id.

What generated scripts write to a node is text. A value of another kind may be
written as well, and is a fault when the node is shown as markup.

A node that is appended leaves its old place first. Nothing keeps a node from
being appended below itself, so reading a tree out of the cells is bounded by
their number: a longer path has no end.

## Main definitions

* `Pageloom.Face` -- what a live node says of itself
* `Pageloom.LiveTree` -- a live node with all below it
* `Pageloom.Document` -- the cells
* `Pageloom.Document.append`, `Pageloom.Document.detach`, `Pageloom.Document.clone`
* `Pageloom.Document.findById` -- the first node with an id
* `Pageloom.LiveTree.html` -- a live tree as markup
-/

namespace Pageloom

/-- What a live node says of itself. The class and the style have places of
their own. -/
structure Face where
  tag : String
  className : Value := .text ""
  style : Value := .text ""
  text : Value := .none
  onClick : Value := .none
  attributes : Entries Value := []

namespace Face

/-- The attributes that are written: the class first, then the others, the
style and the click expression. An attribute that has the name of an earlier
one takes its place. -/
def allAttributes (f : Face) : Entries Value :=
  let own : Entries Value := if f.className.truthy then [("class", f.className)] else []
  let all := own.update f.attributes
  let all := if f.style.truthy then all.set "style" f.style else all
  match f.onClick with
  | .none => all
  | v => all.set "onclick" v

/-- The attributes that are written, all of which must be texts. -/
def shownAttributes (f : Face) : Except Fault (Entries String) :=
  f.allAttributes.mapM fun a => do return (a.1, ← a.2.asText)

/-- The text that is written, if there is one. -/
def shownText (f : Face) : Except Fault (Option String) :=
  match f.text with
  | .none => .ok none
  | v => v.asText.map some

/-- A live node as messages show it. -/
def shown (f : Face) : String :=
  "VirtualNode(" ++ Text.quote f.tag ++ ", class_name=" ++ f.className.quoted ++ ")"

/-- The id of a live node. -/
def id? (f : Face) : Option Value := f.attributes.get? "id"

/-- Whether a live node has an id. -/
def hasId (f : Face) (id : String) : Bool := f.id?.bind Value.text? = some id

end Face

/-- A live node with all below it. -/
inductive LiveTree
  | mk (face : Face) (children : List LiveTree)

namespace LiveTree

/-- What the root of a live tree says of itself. -/
def face : LiveTree → Face
  | mk f _ => f

/-- The trees below the root of a live tree. -/
def children : LiveTree → List LiveTree
  | mk _ cs => cs

mutual

/-- The nodes of a live tree, parents before children, children in order. -/
def preorder : LiveTree → List Face
  | mk f cs => f :: preorderAll cs

/-- The nodes of a list of live trees. -/
def preorderAll : List LiveTree → List Face
  | [] => []
  | c :: cs => preorder c ++ preorderAll cs

end

mutual

/-- A live tree as markup. -/
def html : LiveTree → Except Fault String
  | mk f cs => do
    let attributes ← f.shownAttributes
    let below ← htmls cs
    let text ← if cs.isEmpty then f.shownText else .ok none
    return elementText f.tag attributes text below

/-- A list of live trees as markup, one by one. -/
def htmls : List LiveTree → Except Fault (List String)
  | [] => .ok []
  | c :: cs => do return (← html c) :: (← htmls cs)

end

end LiveTree

/-- A cell of a document. -/
structure LiveCell where
  face : Face
  children : List Nat := []
  parent : Option Nat := none

/-- A live page. -/
structure Document where
  cells : Array LiveCell

namespace Document

/-- The number of the body. -/
def body : Nat := 0

/-- A page with nothing in its body. -/
def empty : Document := ⟨#[{ face := { tag := "body" } }]⟩

/-- Add a node without a place, and give its number. -/
def add (d : Document) (face : Face) : Document × Nat :=
  (⟨d.cells.push { face }⟩, d.cells.size)

/-- Make a node with a tag, and give its number. -/
def create (d : Document) (tag : String) : Document × Nat := d.add { tag }

/-- Change one cell. -/
def modifyCell (d : Document) (i : Nat) (change : LiveCell → LiveCell) : Document :=
  ⟨d.cells.modify i change⟩

/-- Change what a node says of itself. -/
def modifyFace (d : Document) (i : Nat) (change : Face → Face) : Document :=
  d.modifyCell i fun c => { c with face := change c.face }

/-- Write an attribute. -/
def setAttribute (d : Document) (i : Nat) (name : String) (v : Value) : Document :=
  d.modifyFace i fun f => { f with attributes := f.attributes.set name v }

/-- What a node says of itself. -/
def face? (d : Document) (i : Nat) : Option Face := d.cells[i]?.map LiveCell.face

/-- The parent of a node. -/
def parent? (d : Document) (i : Nat) : Option Nat := d.cells[i]?.bind LiveCell.parent

/-- Take a node from its place, if it has one. -/
def detach (d : Document) (i : Nat) : Document :=
  match d.parent? i with
  | some p =>
    let d := d.modifyCell p fun c => { c with children := c.children.erase i }
    d.modifyCell i fun c => { c with parent := none }
  | none => d

/-- Put a node at the end of another one's children. It leaves its old place
first. -/
def append (d : Document) (parent child : Nat) : Document :=
  let d := d.detach child
  let d := d.modifyCell child fun c => { c with parent := some parent }
  d.modifyCell parent fun c => { c with children := c.children ++ [child] }

/-- Read the tree of a node, to at most the given depth. -/
def readWithin (d : Document) : (depth : Nat) → Nat → Except Fault LiveTree
  | 0, _ => .error .endless
  | depth + 1, i =>
    match d.cells[i]? with
    | some c => do return .mk c.face (← c.children.mapM fun j => d.readWithin depth j)
    | none => .error .unsupported

/-- Read the tree of a node. -/
def read (d : Document) (i : Nat) : Except Fault LiveTree := d.readWithin d.cells.size i

/-- A node and all below it as markup. -/
def html (d : Document) (i : Nat) : Except Fault String := do (← d.read i).html

mutual

/-- Build a tree of new nodes, and give the number of its root. -/
def graft : LiveTree → Document → Document × Nat
  | .mk face cs, d =>
    let (d, i) := d.add face
    (graftAll i cs d, i)

/-- Build trees of new nodes as the last children of a node. -/
def graftAll (parent : Nat) : List LiveTree → Document → Document
  | [], d => d
  | c :: cs, d =>
    let (d, j) := graft c d
    graftAll parent cs (d.append parent j)

end

/-- Copy a node, alone or with all below it. The copy has no place. -/
def clone (d : Document) (i : Nat) (deep : Bool) : Except Fault (Document × Nat) := do
  if deep then
    let t ← d.read i
    return graft t d
  else
    match d.face? i with
    | some f => return d.add f
    | none => .error .unsupported

/-- The first node with an id among the given nodes and those below them, in
preorder, looking at as many as the bound allows. -/
def findWithin (d : Document) (id : String) : (bound : Nat) → List Nat → Except Fault (Option Nat)
  | _, [] => .ok none
  | 0, _ :: _ => .error .endless
  | bound + 1, i :: rest =>
    match d.cells[i]? with
    | some c =>
      if c.face.hasId id then .ok (some i)
      else d.findWithin id bound (c.children ++ rest)
    | none => d.findWithin id bound rest

/-- The first node with an id, in preorder from the body. -/
def findById (d : Document) (id : String) : Except Fault (Option Nat) :=
  d.findWithin id d.cells.size [body]

/-- Put a new node with an id at the end of the body: a place to mount at. -/
def addTarget (d : Document) (id tag : String) : Document × Nat :=
  let (d, i) := d.create tag
  ((d.setAttribute i "id" (.text id)).append body i, i)

end Document

end Pageloom
