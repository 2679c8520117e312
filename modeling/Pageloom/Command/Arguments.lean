import Pageloom.Entries
import Pageloom.Text.Edit

/-!
# Arguments of commands

A command has switches and plain arguments. A switch has a long name, and may
have a letter and take a value. The value of a long switch stands after an equals
sign or is the next argument; the value of a letter stands right behind it or is
the next argument; letters without values may share one dash. Two dashes alone
end the switches.

## Main definitions

* `Pageloom.Switch` -- a switch that a command knows
* `Pageloom.Arguments` -- the switches and plain arguments that were given
* `Pageloom.Arguments.read?` -- tell them apart
-/

namespace Pageloom

/-- A switch that a command knows. -/
structure Switch where
  name : String
  letter : Option Char := none
  takesValue : Bool := false

/-- What a command was given: switches with their values, in order, and plain
arguments. -/
structure Arguments where
  switches : List (String × String) := []
  plain : List String := []

/-- What one argument says: switches with their values, and the switch whose
value is the next argument, if any. -/
structure SwitchGroup where
  switches : List (String × String) := []
  awaiting : Option String := none

namespace Switch

/-- Read letters behind one dash. -/
def readLetters? (known : List Switch) : List Char → Option SwitchGroup
  | [] => some {}
  | c :: rest =>
    match known.find? fun s => s.letter = some c with
    | none => none
    | some s =>
      if s.takesValue then
        if rest.isEmpty then some { awaiting := some s.name }
        else some { switches := [(s.name, String.ofList rest)] }
      else (readLetters? known rest).map fun r => { r with switches := (s.name, "") :: r.switches }

/-- Read an argument that starts with a dash. -/
def read? (known : List Switch) (argument : String) : Option SwitchGroup :=
  let (name, value) := Text.cutAt '=' argument.toList
  match known.find? fun s => s.name = String.ofList name with
  | some s =>
    match s.takesValue, value with
    | true, some v => some { switches := [(s.name, String.ofList v)] }
    | true, none => some { awaiting := some s.name }
    | false, some _ => none
    | false, none => some { switches := [(s.name, "")] }
  | none =>
    match argument.toList with
    | '-' :: '-' :: _ => none
    | '-' :: letters => readLetters? known letters
    | _ => none

end Switch

namespace Arguments

/-- Whether an argument is a switch: a dash alone is not. -/
def isSwitch (argument : String) : Bool := Text.startsWith argument "-" && argument ≠ "-"

/-- Tell switches from plain arguments, while a switch may await its value. Where
the two may not be mixed, the first plain argument ends the switches. -/
def readAfter? (known : List Switch) (mixed : Bool) :
    (awaiting : Option String) → List String → Option Arguments
  | none, [] => some {}
  | some _, [] => none
  | some name, v :: rest =>
    (readAfter? known mixed none rest).map fun a => { a with switches := (name, v) :: a.switches }
  | none, argument :: rest =>
    if argument = "--" then some { plain := rest }
    else if isSwitch argument then
      match Switch.read? known argument with
      | none => none
      | some r =>
        (readAfter? known mixed r.awaiting rest).map fun a =>
          { a with switches := r.switches ++ a.switches }
    else if mixed then
      (readAfter? known mixed none rest).map fun a => { a with plain := argument :: a.plain }
    else some { plain := argument :: rest }

/-- Tell switches from plain arguments. -/
def read? (known : List Switch) (mixed : Bool) (arguments : List String) : Option Arguments :=
  readAfter? known mixed none arguments

/-- The values of a switch, in order. -/
def values (a : Arguments) (name : String) : List String :=
  a.switches.filterMap fun s => if s.1 = name then some s.2 else none

/-- The last value of a switch. -/
def value? (a : Arguments) (name : String) : Option String := (a.values name).getLast?

/-- Whether a switch was given. -/
def has (a : Arguments) (name : String) : Bool := !(a.values name).isEmpty

end Arguments

end Pageloom
