import Pageloom.Program

/-!
# Modules of authored code

A module holds named values. Some names every module has; an author may write
over most of them. A name that a module lacks may still be answered by a callable
that the module holds for this purpose.

Modules are found by dotted names. A name that no module has is looked for below
the module that has the name before its last dot, so that module is found first.
Nothing is ever found there, and what is reported depends on whether that module
is a package.

## Main definitions

* `Pageloom.Module` -- named values of authored code
* `Pageloom.Module.ofEntries` -- a module with values written into it
* `Pageloom.Module.lookup` -- the value that a module has for a name
* `Pageloom.Module.find` -- the module with a dotted name
-/

namespace Pageloom

/-- Named values of authored code: the name of the module, and what its author
wrote. -/
structure Module where
  name : String
  written : Entries Value := []

namespace Module

/-- Write a value into a module. The class of a module and the table of its
values cannot be written. -/
def write (m : Module) (attr : String) (v : Value) : Except Fault Module :=
  if attr = "__class__" then .error .wrongKind
  else if attr = "__dict__" then .error .unsupported
  else .ok { m with written := m.written.set attr v }

/-- A module with values written into it, one by one. -/
def ofEntries (name : String) (es : List (String × Value)) : Except Fault Module :=
  es.foldlM (fun m e => m.write e.1 e.2) { name }

/-- The values that a module holds: those that it has from the start, and those
that its author wrote. -/
def values (m : Module) : Entries Value :=
  let given : Entries Value :=
    [("__name__", .text m.name), ("__doc__", .none), ("__package__", .none),
      ("__loader__", .none), ("__spec__", .none)]
  given.update m.written

/-- The value for a name, as far as it does not take a call. -/
def value? (m : Module) (attr : String) : Option Value :=
  if attr = "__dict__" then some (.table m.values)
  else match m.values.get? attr with
    | some v => some v
    | none =>
      if attr = "__annotations__" then some (.table [])
      else (Inherent.ofName? attr).map fun _ => .callable (.inherent attr)

/-- The name of the callable that answers for names that a module lacks. -/
def answererName : String := "__getattr__"

/-- The value that a module has for a name. -/
def lookup (p : Program) (m : Module) (attr : String) : Build (Option Value) :=
  match m.value? attr with
  | some v => pure (some v)
  | none =>
    match m.written.get? answererName with
    | none => pure none
    | some (.callable c) =>
      tryCatch (do return some (← p.call c [.text attr])) fun e =>
        if e = .unsupported then pure none else throw e
    | some _ => throw .wrongKind

/-- Whether a value can say where the modules of a package are: nothing at all, or
a value that has items. -/
def isSearchable : Value → Bool
  | .none | .scalar (.text _) | .list _ | .tuple _ | .table _ | .view _ | .dictionary _
  | .bytes _ | .emptySet | .handler _ => true
  | _ => false

/-- The module whose dotted name has the given parts, the last one first, or why
there is none. Of two modules with one name the later one counts. -/
def findParts (p : Program) (modules : List Module) :
    (parts : List String) → Build (Except String Module)
  | [] => pure (.error "No module named ''")
  | part :: parents =>
    let name := Text.join "." (part :: parents).reverse
    let missing := "No module named " ++ Text.quote name
    match modules.reverse.find? fun m => m.name = name with
    | some m => pure (.ok m)
    | none => do
      if parents.isEmpty then return .error missing
      match ← findParts p modules parents with
      | .error e => return .error e
      | .ok parent =>
        match ← parent.lookup p "__path__" with
        | some v => if isSearchable v then return .error missing else throw .wrongKind
        | none =>
          let above := Text.quote (Text.join "." parents.reverse)
          return .error (missing ++ "; " ++ above ++ " is not a package")

/-- The module with a dotted name, or why there is none. A name that begins with a
dot is relative to nothing. -/
def find (p : Program) (modules : List Module) (name : String) : Build (Except String Module) :=
  if Text.startsWith name "." then throw .wrongKind
  else findParts p modules ((name.splitOn ".").reverse)

end Module

end Pageloom
