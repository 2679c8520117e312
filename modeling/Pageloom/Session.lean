import Pageloom.Factory
import Pageloom.Notice

/-!
# Sessions

The life of one page: the factories that its scripts registered, the nodes that
they made, and the scripts that are on their way. A factory runs once; every
mount is a copy of what it made. A script that is asked for again while it is
under way is not asked for twice.

Nothing that goes wrong here stops a session: a missing target, element or
component is remarked.

## Main definitions

* `Pageloom.Session` -- the state of a page
* `Pageloom.Load` -- the state of one request for a script
* `Pageloom.Session.register`, `Pageloom.Session.failLoad` -- settle a request
* `Pageloom.Session.mount`, `Pageloom.Session.remove` -- change the page
* `Pageloom.Session.load` -- ask for a script
-/

namespace Pageloom

/-- Why a script could not be loaded. -/
inductive LoadFailure
  /-- There is nothing to load scripts with. -/
  | noLoader (key : String)
  /-- The script could not be fetched, or failed. -/
  | script (reason : String)
  deriving DecidableEq

/-- A failure in words. -/
def LoadFailure.text : LoadFailure → String
  | noLoader key => "Cannot load component " ++ key ++ ": no loader"
  | script reason => reason

/-- The state of one request for a script. -/
inductive Load
  | pending
  | done (key : String)
  | failed (failure : LoadFailure)
  deriving DecidableEq

/-- What a script loader does when it is asked for a script. -/
inductive LoaderAction
  /-- Register a factory that makes an empty element. -/
  | register
  /-- Report that the script failed. -/
  | fail
  /-- Give up. -/
  | abort
  /-- Ask for the same script again. -/
  | reload
  /-- Do nothing yet. -/
  | wait
  deriving DecidableEq

/-- What a loader does for each key; it waits where nothing is said. -/
abbrev Loader := Entries (List LoaderAction)

/-- The state of a page. `cache` holds the node that each factory made, `invoked`
the keys whose factories made one for mounting, first to last, `pending` the
request that is under way for each key, and `shared` the requests that were
handed out, in the order of their first appearance. -/
structure Session where
  stage : Stage := {}
  registry : Registry := []
  cache : Entries Nat := []
  invoked : List String := []
  loads : Array Load := #[]
  pending : Entries Nat := []
  shared : List Nat := []
  loader : Option Loader := none
  requested : List String := []
  notices : List Notice := []

/-- An operation on a session that may fail. -/
abbrev Sitting := EStateM Fault Session

namespace Session

/-- The document. -/
def document (s : Session) : Document := s.stage.document

/-- Remark something. -/
def remark (n : Notice) (s : Session) : Session := { s with notices := s.notices ++ [n] }

/-- Start a request, and give its number. -/
def addLoad (load : Load) (s : Session) : Session × Nat :=
  ({ s with loads := s.loads.push load }, s.loads.size)

/-- Settle the request that is under way for a key, if there is one. -/
def settle (key : String) (load : Load) (s : Session) : Session :=
  match s.pending.get? key with
  | some i => { s with pending := s.pending.erase key, loads := s.loads.modify i fun _ => load }
  | none => s

/-- Register a factory, as a loaded script does, and settle the request for it. -/
def register (key : String) (registration : Registration) (s : Session) : Session :=
  { s with registry := s.registry.set key registration }.settle key (.done key)

/-- Settle a request as failed, as a script error does. -/
def failLoad (key reason : String) (s : Session) : Session :=
  if s.pending.has key then
    (s.remark (.scriptFailed key reason)).settle key (.failed (.script reason))
  else s

/-- Number a request by its first appearance. -/
def share (load : Nat) (s : Session) : Session × Nat :=
  if s.shared.contains load then (s, s.shared.idxOf load)
  else ({ s with shared := s.shared ++ [load] }, s.shared.length)

/-- The factory that a loaded script registers. -/
def loadedFactory : Registration := ⟨.fixed "loaded" .none [], true⟩

/-- What a loader says when it gives up. -/
def abortReason (key : String) : String := "cannot fetch " ++ key

/-- What a loader says when it reports a failed script. -/
def failReason (key : String) : String := "failed " ++ key

/-- Carry out what a loader does for a key. The result says whether it gave up. -/
def act (reload : String → Session → Session × Nat) (key : String) :
    List LoaderAction → Session → Session × Bool
  | [], s => (s, false)
  | .register :: rest, s => act reload key rest (s.register key loadedFactory)
  | .fail :: rest, s => act reload key rest (s.failLoad key (failReason key))
  | .abort :: _, s => (s, true)
  | .reload :: rest, s =>
    let (s, i) := reload key s
    act reload key rest (s.share i).1
  | .wait :: rest, s => act reload key rest s

/-- The request of a loader that gave up: it fails unless it is settled. -/
def abandon (key : String) (load : Nat) (s : Session) : Session :=
  let reason := abortReason key
  let s := s.remark (.loaderFailed key reason)
  { s with
    pending := s.pending.erase key
    loads := s.loads.modify load fun l => if l = .pending then .failed (.script reason) else l }

/-- Ask for the script of a component, with requests nested to at most the given
depth. A registered component is there at once, and requests for one key share
one load. -/
def loadWithin : (depth : Nat) → String → Session → Session × Nat
  | 0, _, s => s.addLoad .pending
  | depth + 1, key, s =>
    if s.registry.has key then s.addLoad (.done key)
    else match s.pending.get? key with
      | some i => (s, i)
      | none =>
        match s.loader with
        | none => (s.remark (.noLoader key)).addLoad (.failed (.noLoader key))
        | some loader =>
          let (s, i) := s.addLoad .pending
          let s := { s with
            pending := s.pending.set key i
            requested := s.requested ++ [key] }
          let actions := (loader.get? key).getD [.wait]
          match act (loadWithin depth) key actions s with
          | (s, true) => (s.abandon key i, i)
          | (s, false) => (s, i)

/-- Ask for the script of a component, and give the number of the request. -/
def load (key : String) (s : Session) : Session × Nat :=
  let (s, i) := loadWithin 100 key s
  s.share i

/-- The requests that were handed out, in the order of their first appearance. -/
def sharedLoads (s : Session) : List Load := s.shared.filterMap fun i => s.loads[i]?

end Session

namespace Sitting

/-- Work on the page. -/
def live {α : Type} (act : Live α) : Sitting α := fun s =>
  match act s.stage with
  | .ok a stage => .ok a { s with stage }
  | .error e stage => .error e { s with stage }

/-- Look at the document. -/
def inspect {α : Type} (look : Document → Except Fault α) : Sitting α := do
  live (Live.lift (look (← get).document))

/-- The node that a component's factory made. The factory runs the first time
only. -/
def made (key : String) (registration : Registration) (arguments : List Value) : Sitting Nat := do
  let s ← get
  match s.cache.get? key with
  | some i => return i
  | none =>
    let i ← live (s.registry.call key registration arguments)
    modify fun s => { s with cache := s.cache.set key i, invoked := s.invoked ++ [key] }
    return i

/-- Copy a node, alone or with all below it. -/
def clone (i : Nat) (deep : Bool) : Sitting Nat := do
  let (document, j) ← inspect fun d => d.clone i deep
  live (Live.modifyDocument fun _ => document)
  return j

/-- Mount a copy of a component below the element with an id. -/
def mount (key parent : String) (arguments : List Value) : Sitting (Option Nat) := do
  match ← inspect fun d => d.findById parent with
  | none =>
    modify (Session.remark (.targetMissing parent))
    return none
  | some target =>
    match (← get).registry.get? key with
    | none =>
      modify (Session.remark (.componentMissing key))
      return none
    | some registration =>
      let i ← made key registration arguments
      let j ← clone i true
      live (Live.modifyDocument fun d => d.append target j)
      return some j

/-- Take the element with an id from its place. -/
def remove (id : String) : Sitting Bool := do
  match ← inspect fun d => d.findById id with
  | none =>
    modify (Session.remark (.elementMissing id))
    return false
  | some i =>
    live (Live.modifyDocument fun d => d.detach i)
    return true

end Sitting

end Pageloom
