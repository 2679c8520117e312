import Pageloom.Counter
import Pageloom.Forest
import Pageloom.Notice
import Pageloom.Style

/-!
# Builders

A builder makes nodes from tags, properties and children. It mints the identity
tokens, decides what becomes of scalar children, and keeps the hooks of inline
components until the component whose boundary holds them claims them.

A workshop is where a build happens: the forest, the build's own builder, the
builder that serves code outside of any build, one that authored code brought
along, and the names that authored code gave to values. An operation that fails
keeps what it did before it failed, so the tokens it minted stay spent.

## Main definitions

* `Pageloom.Builder`, `Pageloom.Workshop` -- the state of a build
* `Pageloom.Build` -- operations on a workshop that may fail
* `Pageloom.Build.element` -- an element from a tag, properties and children
* `Pageloom.Build.fragment` -- a plain wrapper around nodes
* `Pageloom.Build.claim` -- move the waiting hooks of a boundary to its component
-/

namespace Pageloom

/-- How several scalar children of one element make its text. -/
inductive ScalarPolicy
  /-- The last one is the text. -/
  | last
  /-- They are joined in order. -/
  | concat
  deriving DecidableEq

/-- The policy with a given name. -/
def ScalarPolicy.ofName? (s : String) : Option ScalarPolicy :=
  if s = "last" then some .last else if s = "concat" then some .concat else none

/-- The name of a policy. -/
def ScalarPolicy.name : ScalarPolicy → String
  | last => "last"
  | concat => "concat"

/-- A builder. `waiting` holds the hooks of inline components, with the element
each was spliced in as. A builder that is told to begin its tokens with a value
that has no text cannot mint any. -/
structure Builder where
  counter : Counter := .fresh Counter.standardLead 0
  policy : ScalarPolicy := .last
  sigil : Sigil := .ofText standardSigil
  waiting : List (Nat × List Value) := []
  mints : Bool := true

/-- Whether the next token of a builder has a text. -/
def Builder.canMint (b : Builder) : Bool :=
  b.mints && (Value.int (b.counter.last + 1)).hasText

/-- Start a new build. -/
def Builder.reset (b : Builder) : Builder := { b with counter := b.counter.reset, waiting := [] }

/-- Where a build happens. -/
structure Workshop where
  forest : Forest := .empty
  own : Builder := {}
  fallback : Builder := {}
  guest : Builder := {}
  active : Seat := .fallback
  names : Entries Value := []
  notices : List Notice := []

namespace Workshop

/-- The builder of a seat. -/
def builder (w : Workshop) : Seat → Builder
  | .own => w.own
  | .fallback => w.fallback
  | .guest => w.guest

/-- Replace the builder of a seat. -/
def setBuilder (w : Workshop) (seat : Seat) (b : Builder) : Workshop :=
  match seat with
  | .own => { w with own := b }
  | .fallback => { w with fallback := b }
  | .guest => { w with guest := b }

end Workshop

/-- An operation on a workshop that may fail. -/
abbrev Build := EStateM Fault Workshop

mutual

/-- A value without the lists and tuples around it. -/
def Value.leaves : Value → List Value
  | .list xs => Value.leavesAll xs
  | .tuple xs => Value.leavesAll xs
  | v => [v]

/-- The values of a list without the lists and tuples among them. -/
def Value.leavesAll : List Value → List Value
  | [] => []
  | x :: xs => Value.leaves x ++ Value.leavesAll xs

end

/-- The children that a list of values contributes, lists among them opened up. -/
def flattenChildren (children : List Value) : List Value := Value.leavesAll children

/-- The values that a `children` property stands for. -/
def childrenOf : Option Value → List Value
  | none => []
  | some .none => []
  | some v => (v.items?).getD [v]

/-- The name of the attribute that a property gives: underscores at its end only
keep it apart from a word of the authoring language. -/
def attributeName (property : String) : String :=
  let name := Text.stripTrailing property '_'
  if name = "" then property else name

/-- Whether a value is a scalar or a broken text. -/
def Value.isAtom : Value → Bool
  | .scalar _ | .brokenText _ => true
  | _ => false

/-- Whether a value contributes to the text of an element that it is a child of. -/
def Value.isWording : Value → Bool
  | .scalar (.bool _) => false
  | v => v.isAtom

/-- The attribute that a property gives, in pieces. A style table becomes a style
line, a scalar or a broken text its text; anything else gives none. -/
def attributeOf (property : String) (v : Value) :
    Except Fault (List (String × List Text.Piece)) :=
  let name := attributeName property
  if v.isAtom then v.settingText.map fun _ => [(name, v.settingPieces)]
  else if name = "style" && v.isTable then (Style.inline v).map fun line => [(name, line)]
  else .ok []

/-- The attributes that the properties of an element give, in order. The names of
properties must be texts. -/
def attributesOf : Pairs → Except Fault (List (String × List Text.Piece))
  | [] => .ok []
  | (k, v) :: rest =>
    match k.words? with
    | none => .error k.nameFault
    | some property => do
      let own ← if property = "onClick" || property = "children" then .ok []
        else attributeOf property v
      return own ++ (← attributesOf rest)

/-- The text of an element after one more scalar child, in pieces. -/
def ScalarPolicy.combine :
    ScalarPolicy → Option (List Text.Piece) → List Text.Piece → List Text.Piece
  | concat, some before, pieces => before ++ pieces
  | _, _, pieces => pieces

namespace Build

/-- Run a computation that does not change the workshop. -/
def lift {α : Type} (x : Except Fault α) : Build α :=
  match x with
  | .ok a => pure a
  | .error e => throw e

/-- Remark something. -/
def remark (n : Notice) : Build Unit := modify fun w => { w with notices := w.notices ++ [n] }

/-- The forest. -/
def forest : Build Forest := return (← get).forest

/-- Change the forest. -/
def modifyForest (change : Forest → Forest) : Build Unit :=
  modify fun w => { w with forest := change w.forest }

/-- Change the forest in a way that may be refused. -/
def changeForest (change : Forest → Except Fault Forest) : Build Unit := do
  let f ← lift (change (← forest))
  modifyForest fun _ => f

/-- A node as a value. -/
def nodeValue (id : NodeId) : Build Value := return .node ((← forest).handle id)

/-- Make an element with a new token. A token that has no text is spent all the same. -/
def mint (seat : Seat) (tag : String) : Build Nat := do
  let w ← get
  let b := w.builder seat
  let (token, counter) := b.counter.next
  let spent := w.setBuilder seat { b with counter }
  if b.canMint then
    let (forest, i) := w.forest.addElement tag token
    set { spent with forest }
    return i
  else
    set spent
    throw .wrongValue

/-- Add a child to an element. -/
def addChild (parent : Nat) (child : NodeId) : Build Unit :=
  changeForest fun f => f.addChild parent child

/-- The properties that a value stands for, where a table is needed. -/
def properties (props : Value) : Build Pairs :=
  if props.truthy then
    match props.pairs? with
    | some ps => pure ps
    | none => throw .unsupported
  else pure []

/-- Add the text of a value to that of an element. -/
def takeText (seat : Seat) (parent : Nat) (v : Value) : Build Unit := do
  let _ ← lift v.plainText
  let w ← get
  let before := w.forest.elements[parent]?.bind ElementCell.pieces?
  let pieces := (w.builder seat).policy.combine before v.pieces
  modifyForest fun f => f.setText parent (.ofPieces pieces)

/-- Take a child into an element: a node becomes a child, a text or a number text,
and anything else is dropped. -/
def takeChild (seat : Seat) (parent : Nat) : Value → Build Unit
  | .node h => addChild parent h.id
  | v => if v.isWording then takeText seat parent v else pure ()

/-- Take children into an element, one by one. -/
def takeChildren (seat : Seat) (parent : Nat) : List Value → Build Unit
  | [] => pure ()
  | c :: cs => do
    takeChild seat parent c
    takeChildren seat parent cs

/-- Remark on an element whose text is hidden by its children. -/
def warnHiddenText (i : Nat) : Build Unit := do
  match (← forest).elements[i]? with
  | some c =>
    if c.element.text.isSome && !c.children.isEmpty then
      remark (.textHidden c.element.tag c.element.token)
  | none => pure ()

/-- Make an element from a tag, properties and children. Children that are given
win over a `children` property. -/
def element (seat : Seat) (tag : String) (props : Value) (children : List Value) : Build Value := do
  let i ← mint seat tag
  let entries ← properties props
  match (entries.get? "onClick").bind Value.asHandler? with
  | some h => modifyForest fun f => f.setOnClick i (.handler h)
  | none => pure ()
  let attributes ← lift (attributesOf entries)
  modifyForest fun f => attributes.foldl (fun f a => f.setAttribute i a.1 (.ofPieces a.2)) f
  let given := if children.isEmpty then childrenOf (entries.get? "children") else children
  takeChildren seat i (flattenChildren given)
  warnHiddenText i
  nodeValue (.element i)

/-- Add the nodes among the given values to an element, one by one. -/
def takeNodes (parent : Nat) : List Value → Build Unit
  | [] => pure ()
  | .node h :: cs => do
    addChild parent h.id
    takeNodes parent cs
  | _ :: cs => takeNodes parent cs

/-- A plain wrapper around the nodes of a `children` property. -/
def fragment (seat : Seat) (props : Value) : Build Value := do
  let i ← mint seat "div"
  let entries ← properties props
  takeNodes i (flattenChildren (childrenOf (entries.get? "children")))
  nodeValue (.element i)

/-- Move the waiting hooks of the elements that a component's boundary holds to
the component. -/
def claim (seat : Seat) (component : Nat) : Build Unit := do
  let w ← get
  let b := w.builder seat
  if b.waiting.isEmpty then return
  let root ← lift (w.forest.root component)
  let held := w.forest.ownElements root
  let (claimed, waiting) := b.waiting.partition fun entry => held.contains entry.1
  modify fun w => w.setBuilder seat { b with waiting }
  modifyForest fun f => f.addHooks component (claimed.flatMap Prod.snd)

/-- The names that the tree of an element refers to. -/
def boundNames (sigil : Sigil) (i : Nat) : Build (List String) := do
  let f ← forest
  let n ← lift (f.readChecked f.boundaryOf ElementCell.checkNames (.element i))
  let cue ← lift (sigil.forValues (n.preorder.flatMap Node.values))
  return n.boundNames cue

/-- Make a component around an element. -/
def wrap (root : Nat) (key : String) (parameters : List String) : Build Nat := do
  let (f, i) ← lift ((← forest).addComponent root key parameters)
  modifyForest fun _ => f
  return i

/-- Make a component around a node. -/
def wrapNode (root : NodeId) (key : String) (parameters : List String) : Build Nat := do
  match root with
  | .element i => wrap i key parameters
  | .component i =>
    let (f, i) ← lift ((← forest).addAround i key parameters)
    modifyForest fun _ => f
    return i

/-- Let a build's own builder serve while an operation runs, also if it fails. -/
def serving {α : Type} (seat : Seat) (act : Build α) : Build α := fun w =>
  match act { w with active := seat } with
  | .ok a v => .ok a { v with active := w.active }
  | .error e v => .error e { v with active := w.active }

end Build

end Pageloom
