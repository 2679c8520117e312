import Pageloom.Handler

/-!
# Instructions

The steps that rebuild a tree on a live page, and the script lines that they
are. A value in a step is a literal text, which may be a broken one, or a
reference to a parameter of the enclosing factory.

## Main definitions

* `Pageloom.Operand` -- a value in a step
* `Pageloom.Instruction` -- a step
* `Pageloom.Instruction.script` -- a step as a script line
* `Pageloom.Instruction.scriptAll` -- steps as a script body
-/

namespace Pageloom

/-- A value in a step. -/
inductive Operand
  | literal (text : String)
  /-- A literal that holds half of a surrogate pair alone. -/
  | broken (pieces : List Text.Piece)
  | reference (name : String)
  /-- Something that is neither, given by how messages show it. -/
  | stray (shown : String)
  deriving DecidableEq

namespace Operand

/-- An operand in a script. -/
def script : Operand → String
  | literal text => Text.literal text
  | broken pieces => Text.literalPieces pieces
  | reference name => name
  | stray shown => shown

/-- Whether an operand is a literal or a reference. -/
def isSound : Operand → Bool
  | stray _ => false
  | _ => true

end Operand

/-- A step that rebuilds part of a tree. -/
inductive Instruction
  | createElement (var tag : String)
  | assignClass (var value : String)
  | setAttribute (var name : String) (value : Operand)
  | assignStyle (var : String) (value : Operand)
  | setText (var : String) (value : Operand)
  | assignClick (var expression : String)
  | invokeFactory (var key : String) (arguments : List String)
  | appendChild (parent child : String)
  | giveNode (var : String)
  deriving DecidableEq

namespace Instruction

/-- The table of the page that holds the factories. -/
def registry : String := "window.components"

/-- A step as a script line. -/
def script : Instruction → String
  | createElement var tag =>
    "const " ++ var ++ " = document.createElement(" ++ Text.literal tag ++ ");"
  | assignClass var value => var ++ ".className = " ++ Text.literal value ++ ";"
  | setAttribute var name value =>
    var ++ ".setAttribute(" ++ Text.literal name ++ ", " ++ value.script ++ ");"
  | assignStyle var value => var ++ ".style.cssText = " ++ value.script ++ ";"
  | setText var value => var ++ ".textContent = " ++ value.script ++ ";"
  | assignClick var expression =>
    var ++ ".onclick = function() \x7b " ++ expression ++ "; \x7d;"
  | invokeFactory var key arguments =>
    "const " ++ var ++ " = " ++ registry ++ "[" ++ Text.literal key ++ "](" ++
      Text.join ", " arguments ++ ");"
  | appendChild parent child => parent ++ ".appendChild(" ++ child ++ ");"
  | giveNode var => "return " ++ var ++ ";"

/-- Steps as a script body, one to a line. -/
def scriptAll (steps : List Instruction) : String := Text.join "\n" (steps.map script)

/-- Whether the operand of a step, if it has one, is a literal or a reference. -/
def isSound : Instruction → Bool
  | setAttribute _ _ value => value.isSound
  | assignStyle _ value => value.isSound
  | setText _ value => value.isSound
  | _ => true

/-- Steps as a script body, if each has a script. -/
def scriptAll? (steps : List Instruction) : Except Fault String :=
  if steps.all isSound then .ok (scriptAll steps) else .error .unsupported

end Instruction

end Pageloom
