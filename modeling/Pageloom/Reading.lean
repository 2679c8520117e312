import Pageloom.Fault

/-!
# Reading formats

How reading a text of some format ends. A text that breaks a rule of its format
has no reading. A text may also keep all rules and still be refused: its numbers
may have too many digits, or its lists may nest too deeply.

## Main definitions

* `Pageloom.Flaw` -- why a text has no reading
* `Pageloom.Reading` -- the result of reading
-/

namespace Pageloom

/-- Why a text has no reading. -/
inductive Flaw
  /-- It breaks a rule of its format. -/
  | malformed
  /-- It holds an integer with too many digits. -/
  | oversized
  /-- Its lists and tables nest too deeply. -/
  | tooDeep
  deriving DecidableEq

/-- The result of reading. -/
abbrev Reading := Except Flaw

namespace Reading

/-- What is read where only the rules of the format count. -/
def ofOption {α : Type} : Option α → Reading α
  | some a => .ok a
  | none => .error .malformed

/-- How deeply lists and tables may nest. -/
def depthLimit : Nat := 75000

/-- The most digits that an integer may be written with. -/
def digitLimit : Nat := 4300

/-- The integer that decimal digits give, unless there are too many of them. -/
def integer (negative : Bool) (digits : List Char) (value : Nat) : Reading Int :=
  if digitLimit < digits.length then .error .oversized
  else .ok (if negative then -(value : Int) else value)

end Reading

/-- The fault of a text that has no reading, given the fault for one that breaks
a rule of its format. -/
def Flaw.fault (malformed : Fault) : Flaw → Fault
  | .malformed => malformed
  | .oversized => .wrongValue
  | .tooDeep => .endless

end Pageloom
