import Pageloom.Command.Arguments

/-!
# Commands

What the command line can be asked for: to build pages, to flatten a style file,
and to print the client script. An argument that stands where the name of a
command is wanted, and is none, may still be a switch.

## Main definitions

* `Pageloom.Command` -- the commands
* `Pageloom.Command.read?` -- the command that arguments ask for
-/

namespace Pageloom

/-- A command. -/
inductive Command
  /-- Tell the version. -/
  | version
  /-- Tell how the commands are used. -/
  | help
  /-- Build pages from components, which are named as `module:attr`. -/
  | build (references : List String) (output config : Option String) (scripts : List String)
  /-- Flatten a style file. -/
  | css (path : String)
  /-- Print the client script for a base address. -/
  | client (base : String)
  deriving DecidableEq

namespace Command

/-- The switch that asks for help. -/
def helpSwitch : Switch := { name := "--help" }

/-- The switches that may stand before the name of a command. -/
def commonSwitches : List Switch :=
  [{ name := "--version", letter := some 'V' }, { name := "--verbose", letter := some 'v' },
    helpSwitch]

/-- The switches of `build`. -/
def buildSwitches : List Switch :=
  [{ name := "--output", letter := some 'o', takesValue := true },
    { name := "--config", letter := some 'c', takesValue := true },
    { name := "--script", letter := some 's', takesValue := true }, helpSwitch]

/-- The switches of `runtime`. -/
def clientSwitches : List Switch := [{ name := "--base-url", takesValue := true }, helpSwitch]

/-- The command that the arguments of `build` ask for. -/
def readBuild? (arguments : List String) : Option Command := do
  let a ← Arguments.read? buildSwitches true arguments
  if a.has "--help" then return help
  if a.plain.isEmpty then none
  return build a.plain (a.value? "--output") (a.value? "--config") (a.values "--script")

/-- The command that the arguments of `css` ask for. -/
def readCss? (arguments : List String) : Option Command := do
  let a ← Arguments.read? [helpSwitch] true arguments
  if a.has "--help" then return help
  match a.plain with
  | [path] => return css path
  | _ => none

/-- The command that the arguments of `runtime` ask for. -/
def readClient? (arguments : List String) : Option Command := do
  let a ← Arguments.read? clientSwitches true arguments
  if a.has "--help" then return help
  if !a.plain.isEmpty then none
  return client ((a.value? "--base-url").getD "./components")

/-- The command that a switch asks for. -/
def ofSwitch? (name : String) : Option Command :=
  if name = "--version" then some version
  else if name = "--help" then some help
  else none

/-- The command that the first of the switches asks for, if one of them does. -/
def ofSwitches? (a : Arguments) : Option Command :=
  a.switches.findSome? fun s => ofSwitch? s.1

/-- The command that arguments ask for. -/
def read? (arguments : List String) : Option Command := do
  let a ← Arguments.read? commonSwitches false arguments
  match ofSwitches? a with
  | some c => return c
  | none =>
    match a.plain with
    | "build" :: rest => readBuild? rest
    | "css" :: rest => readCss? rest
    | "runtime" :: rest => readClient? rest
    | plain => ofSwitches? (← Arguments.read? commonSwitches false plain)

end Command

end Pageloom
