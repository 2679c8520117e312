import Pageloom.Instruction
import Pageloom.Node
import Pageloom.Text.Lines

/-!
# Compiling a body

The steps that rebuild what one boundary holds. Each element is made, gets its
class, its other attributes, its text if nothing stands below it, and its click
handler; then each child is made and appended before the next one. A nested
component is made by a call of its factory. Variables are numbered in the order
of their making, so the same tree always gives the same steps.

## Main definitions

* `Pageloom.operandOf` -- a value as an operand
* `Pageloom.Body.compile` -- the steps that rebuild a body
* `Pageloom.Node.factory` -- a component's factory as a script
-/

namespace Pageloom

/-- A value as an operand: a reference if it begins as one, else a literal. -/
def operandOf (cue : Cue) (value : String) : Operand :=
  match referenceName? cue value with
  | some name => .reference name
  | none => .literal value

/-- The variable with a number. -/
def variableName (lead : String) (n : Nat) : String := lead ++ Nat.repr n

/-- The steps that write an attribute other than the class. -/
def Element.attributeStep (cue : Cue) (var : String) (a : String × String) : Instruction :=
  if a.1 = "style" then .assignStyle var (operandOf cue a.2)
  else .setAttribute var a.1 (operandOf cue a.2)

/-- The steps that make an element, without its children. -/
def Element.steps (cue : Cue) (var : String) (e : Element) (childless : Bool) : List Instruction :=
  [.createElement var e.tag, .assignClass var e.classValue] ++
    e.plainAttributes.map (Element.attributeStep cue var) ++
    (if childless then e.text.toList.map fun t => .setText var (operandOf cue t) else []) ++
    e.onClick.toList.map fun h => .assignClick var h.expression

namespace Body

mutual

/-- The steps that make a body in the variable numbered `n`, and the next free
number. -/
def emit (lead : String) (cue : Cue) : Body → (n : Nat) → List Instruction × Nat
  | .element e cs, n =>
    let var := variableName lead n
    let (below, next) := emitAll lead cue var cs (n + 1)
    (e.steps cue var cs.isEmpty ++ below, next)
  | .call key arguments, n => ([.invokeFactory (variableName lead n) key arguments], n + 1)

/-- The steps that make the children of a variable one by one, each appended
before the next is made. -/
def emitAll (lead : String) (cue : Cue) (parent : String) :
    List Body → (n : Nat) → List Instruction × Nat
  | [], n => ([], n)
  | c :: cs, n =>
    let (own, next) := emit lead cue c n
    let (rest, last) := emitAll lead cue parent cs next
    (own ++ .appendChild parent (variableName lead n) :: rest, last)

end

/-- The steps that rebuild a body and give its node. -/
def compile (lead : String) (cue : Cue) (b : Body) : List Instruction :=
  (emit lead cue b 1).1 ++ [.giveNode (variableName lead 1)]

end Body

/-- A factory as a script: its steps, indented, in a function of its parameters. -/
def factoryText (key : String) (parameters : List String) (steps : List Instruction) : String :=
  let lines := Text.splitLines (Instruction.scriptAll steps)
  Instruction.registry ++ "[" ++ Text.literal key ++ "] = function(" ++
    Text.join ", " parameters ++ ") \x7b\n" ++
    Text.join "\n" (lines.map fun line => "  " ++ line) ++ "\n\x7d;"

/-- The factory of a component with the given boundary and body. -/
def Boundary.factory (b : Boundary) (body : Body) (lead : String) (cue : Cue) : String :=
  factoryText b.key b.parameters (body.compile lead cue)

end Pageloom
