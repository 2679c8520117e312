import Pageloom.Document
import Pageloom.Instruction
import Pageloom.Value.Text

/-!
# Factories

A factory makes a live tree. It is registered under a key and is called with
arguments; most factories run instructions, in which references stand for
parameters and nested components for calls of other factories.

Nothing in a factory branches, so a call chain that meets a key twice never
ends. Calls therefore nest at most once per registered key.

## Main definitions

* `Pageloom.Factory`, `Pageloom.Registry` -- factories by key
* `Pageloom.Bindings` -- what names stand for
* `Pageloom.Stage` -- the page that factories work on, and a record of calls
* `Pageloom.Live.run` -- run instructions
* `Pageloom.Registry.call` -- call a factory
* `Pageloom.Registry.instantiate` -- run instructions that may call factories
-/

namespace Pageloom

/-- How a component is made on a live page. -/
inductive Factory
  /-- One element with a text and attributes, whatever the arguments. -/
  | fixed (tag : String) (text : Value) (attributes : Entries Value)
  /-- Instructions over named parameters. -/
  | steps (parameters : List String) (instructions : List Instruction)

/-- A factory, and whether its calls are recorded. -/
structure Registration where
  factory : Factory
  isRecorded : Bool := false

/-- Factories by key. -/
abbrev Registry := Entries Registration

/-- The page that factories work on, and the recorded calls, first to last. -/
structure Stage where
  document : Document := .empty
  calls : List (String × List Value) := []

/-- What the names in a list of instructions stand for. -/
abbrev Bindings := String → Except Fault Value

namespace Bindings

/-- The names of a table stand for its values. -/
def ofEntries (es : Entries Value) : Bindings := fun name =>
  match es.get? name with
  | some v => .ok v
  | none => .error (.unbound name)

/-- What names stand for in a value, which should be a table. In another value a
name may be found, and then it stands for nothing; in one that has no parts it
cannot even be looked for. -/
def ofValue (v : Value) : Bindings := fun name =>
  let foundIf (found : Bool) : Except Fault Value :=
    if found then .error .wrongKind else .error (.unbound name)
  if !v.truthy then .error (.unbound name)
  else match v with
    | .scalar (.text s) => foundIf (Text.contains s name)
    | .list xs => foundIf (xs.any fun x => x.text? = some name)
    | .tuple xs => foundIf (xs.any fun x => x.text? = some name)
    | .handler _ => foundIf false
    | v =>
      match v.pairs? with
      | some ps =>
        match ps.get? name with
        | some w => .ok w
        | none => .error (.unbound name)
      | none => .error .wrongKind

end Bindings

/-- An operation on a live page that may fail. -/
abbrev Live := EStateM Fault Stage

namespace Live

/-- Run a computation that does not change the page. -/
def lift {α : Type} (x : Except Fault α) : Live α :=
  match x with
  | .ok a => pure a
  | .error e => throw e

/-- Change the document. -/
def modifyDocument (change : Document → Document) : Live Unit :=
  modify fun s => { s with document := change s.document }

/-- Change the document in a way that gives a node. -/
def make (change : Document → Document × Nat) : Live Nat := do
  let s ← get
  let (document, i) := change s.document
  set { s with document }
  return i

/-- The node of a variable. -/
def lookup (vars : Entries Nat) (name : String) : Live Nat :=
  match vars.get? name with
  | some i => pure i
  | none => throw (.unknownVariable name)

/-- The text of a name's value, if it has one. -/
def resolve (bindings : Bindings) (name : String) : Except Fault String := do
  (← bindings name).plainText

/-- The text of an operand. -/
def evaluate (bindings : Bindings) : Operand → Except Fault String
  | .literal text => .ok text
  | .broken pieces => .ok (Text.filled pieces)
  | .reference name => resolve bindings name
  | .stray shown => .error (.unknownOperand shown)

/-- Carry out one step other than the last, given what calling a factory does,
and give the variables after it. -/
def step (invoke : String → Except Fault (List Value) → Live Nat) (bindings : Bindings)
    (vars : Entries Nat) : Instruction → Live (Entries Nat)
  | .createElement var tag => do
    let i ← make fun d => d.create tag
    return vars.set var i
  | .assignClass var value => do
    let i ← lookup vars var
    modifyDocument fun d => d.modifyFace i fun f => { f with className := .text value }
    return vars
  | .setAttribute var name value => do
    let i ← lookup vars var
    let text ← lift (evaluate bindings value)
    modifyDocument fun d => d.setAttribute i name (.text text)
    return vars
  | .assignStyle var value => do
    let text ← lift (evaluate bindings value)
    let i ← lookup vars var
    modifyDocument fun d => d.modifyFace i fun f => { f with style := .text text }
    return vars
  | .setText var value => do
    let text ← lift (evaluate bindings value)
    let i ← lookup vars var
    modifyDocument fun d => d.modifyFace i fun f => { f with text := .text text }
    return vars
  | .assignClick var expression => do
    let i ← lookup vars var
    modifyDocument fun d => d.modifyFace i fun f => { f with onClick := .text expression }
    return vars
  | .invokeFactory var key arguments => do
    let i ← invoke key (arguments.mapM fun a => (resolve bindings a).map Value.text)
    return vars.set var i
  | .appendChild parent child => do
    let p ← lookup vars parent
    let c ← lookup vars child
    modifyDocument fun d => d.append p c
    return vars
  | .giveNode _ => return vars

/-- Run steps in order, up to the first that gives a node. -/
def run (invoke : String → Except Fault (List Value) → Live Nat) (bindings : Bindings) :
    (vars : Entries Nat) → List Instruction → Live Nat
  | _, [] => throw .noReturn
  | vars, .giveNode var :: _ => lookup vars var
  | vars, i :: rest => do
    let vars ← step invoke bindings vars i
    run invoke bindings vars rest

end Live

/-- The value of a parameter that no argument was passed for. -/
def missingArgument : Value := .text "undefined"

/-- The values of parameters, given the arguments. -/
def bindArguments (parameters : List String) (arguments : List Value) : Bindings :=
  .ofEntries (Entries.ofPairs
    (parameters.mapIdx fun i p => (p, (arguments[i]?).getD missingArgument)))

/-- Make the element of a fixed factory. -/
def Live.makeFixed (tag : String) (text : Value) (attributes : Entries Value) : Live Nat :=
  Live.make fun d => d.add { tag, text, attributes }

namespace Registry

/-- Call a factory from a step: its key is looked up before its arguments are. -/
def invokeWith (r : Registry) (call : String → Registration → List Value → Live Nat)
    (key : String) (arguments : Except Fault (List Value)) : Live Nat :=
  match Entries.get? r key with
  | some registration => do call key registration (← Live.lift arguments)
  | none => throw (.noFactory key)

/-- Call a factory, with calls nested to at most the given depth. -/
def callWithin (r : Registry) :
    (depth : Nat) → String → Registration → List Value → Live Nat
  | 0, _, _, _ => throw .endless
  | depth + 1, key, registration, arguments => do
    if registration.isRecorded then
      modify fun s => { s with calls := s.calls ++ [(key, arguments)] }
    match registration.factory with
    | .fixed tag text attributes => Live.makeFixed tag text attributes
    | .steps parameters instructions =>
      Live.run (r.invokeWith (r.callWithin depth)) (bindArguments parameters arguments) []
        instructions

/-- Call a registered factory. -/
def call (r : Registry) (key : String) (registration : Registration) (arguments : List Value) :
    Live Nat :=
  r.callWithin (r.length + 1) key registration arguments

/-- Run steps that may call registered factories. -/
def instantiate (r : Registry) (bindings : Bindings) (steps : List Instruction) : Live Nat :=
  Live.run (r.invokeWith r.call) bindings [] steps

end Registry

end Pageloom
