import Pageloom.Program
import Pageloom.Settings

/-!
# Collections

All components of a build. Every entry is called first; then the boundaries are
gathered, the entries before what is nested in them. A key that is met again
keeps its first component, and a use with other content is remarked, since only
the first one gets a factory. A click handler without a call expression cannot be
compared, and the search ends at the first component for which it would have to be.

## Main definitions

* `Pageloom.Component` -- a boundary with the tree below it
* `Pageloom.gather` -- the components of given roots
* `Pageloom.gatherText` -- the components of given roots, if they can be compared
* `Pageloom.Program.collect` -- the components of a build
-/

namespace Pageloom

/-- A component of a build: its boundary, and its root with all below it. -/
structure Component where
  boundary : Boundary
  root : Node

namespace Component

/-- The component that a node is the root of, if it is one. -/
def ofNode? (n : Node) : Option Component :=
  n.boundary.map fun b => ⟨b, n.withBoundary none⟩

/-- A component and the components below it. -/
def all (c : Component) : List Component := c :: c.root.nested.filterMap ofNode?

/-- What the boundary of a component holds. -/
def body (c : Component) : Body := c.root.body

/-- Equality of two components up to identity tokens. -/
def sameContent (c d : Component) : Bool :=
  Boundary.sameAll [c.boundary] [d.boundary] && c.body.same d.body

end Component

/-- The components met so far by key, the nested ones among them in order, and
the keys whose uses differ. -/
structure Gathering where
  seen : Entries Component
  nested : List Component := []
  notices : List Notice := []

namespace Gathering

/-- Meet one component. -/
def meet (g : Gathering) (c : Component) : Gathering :=
  match g.seen.get? c.boundary.key with
  | some first =>
    if first.sameContent c then g
    else { g with notices := g.notices ++ [.contentDiffers c.boundary.key] }
  | none =>
    { g with seen := g.seen ++ [(c.boundary.key, c)], nested := g.nested ++ [c] }

/-- Whether a component would have to be compared with another one of its key and cannot be. -/
def isStuck (g : Gathering) (c : Component) : Bool :=
  match g.seen.get? c.boundary.key with
  | some first =>
    first.boundary.number ≠ c.boundary.number && !(first.body.isWritable && c.body.isWritable)
  | none => false

/-- What is remarked before the first component that cannot be compared, if there is one. -/
def stuck? : Gathering → List Component → Option (List Notice)
  | _, [] => none
  | g, c :: cs => if g.isStuck c then some g.notices else (g.meet c).stuck? cs

/-- The start of the search for the components of given roots. -/
def ofRoots (roots : List Component) : Gathering :=
  { seen := roots.map fun c => (c.boundary.key, c) }

end Gathering

/-- The components of given roots: the roots, then those nested in them. -/
def gather (roots : List Component) : List Component × List Notice :=
  let g := (roots.flatMap Component.all).foldl Gathering.meet (.ofRoots roots)
  (roots ++ g.nested, g.notices)

/-- What is remarked on the components of given roots, and the components if all of them can be
compared. -/
def gatherText (roots : List Component) : List Notice × Except Fault (List Component) :=
  match (Gathering.ofRoots roots).stuck? (roots.flatMap Component.all) with
  | some notices => (notices, .error .wrongValue)
  | none => ((gather roots).2, .ok (gather roots).1)

/-- Read a component out of the forest. -/
def Forest.component (f : Forest) (i : Nat) : Except Fault Component := do
  let (b, r) ← f.boundaryOf i
  return ⟨b, ← f.read (.element r)⟩

namespace Program

/-- Call entries in order. No two of them may have one key. -/
def renderEntries (p : Program) : (seen : List String) → List Value → Build (List Nat)
  | _, [] => pure []
  | seen, entry :: rest => do
    match ← p.renderRoot entry none with
    | .node { id := .component i, .. } =>
      let (b, _) ← Build.lift ((← Build.forest).boundaryOf i)
      if seen.contains b.key then throw (.duplicateKey b.key)
      return i :: (← p.renderEntries (seen ++ [b.key]) rest)
    | _ => throw .unsupported

/-- The components of a build. -/
def collect (p : Program) (entries : List Value) : Build (List Component) := do
  if entries.isEmpty then throw .noRoot
  let roots ← p.renderEntries [] entries
  let roots ← Build.lift (roots.mapM (← Build.forest).component)
  let found := gatherText roots
  modify fun w => { w with notices := w.notices ++ found.1 }
  Build.lift found.2

end Program

end Pageloom
