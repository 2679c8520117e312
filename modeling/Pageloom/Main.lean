import Pageloom.Command.Run

/-!
# The command line

The outer layer: it reads the files that a command looks at, runs the command,
writes the files that it leaves and prints what it says. Authored components are
compiled in, so a program that has some calls `Pageloom.runWith` with its own
modules.

## Main definitions

* `Pageloom.Command.looksAt` -- the paths that a command looks at
* `Pageloom.runWith` -- run a command on the file system
* `main` -- the command line without authored components
-/

namespace Pageloom

/-- The paths that a command looks at, as far as the files seen so far tell. -/
def Command.looksAt (d : Desk) : Command → List String
  | .build _ output config scripts =>
    let settings := d.settings config
    let (fromSettings, target) := match settings with
      | .ok s =>
        (s.scripts, match outputPath output s with
          | .ok p => [(p.below "components").text]
          | .error _ => [])
      | .error _ => ([], [])
    (config.filter (· ≠ "")).getD Settings.fileName :: fromSettings ++ scripts ++ target
  | .css path => [path]
  | _ => []

/-- What stands at a path. -/
def lookAt (path : String) : IO (Option Content) := do
  if ← ((← IO.currentDir) / path).isDir then return some .directory
  try
    return some (.file (← IO.FS.readFile path))
  catch _ => return none

/-- See a path and the directories on the way to it. -/
def see (files : Files) (path : String) : IO Files := do
  let p := Path.ofText path
  let mut files := files
  for n in List.range (p.names.length + 1) do
    let part : Path := { p with names := p.names.take n }
    match ← lookAt part.text with
    | some c => files := files.place part c
    | none => pure ()
  return files

/-- See all that a command looks at. What is seen may name further paths. -/
def seeAll (d : Desk) (c : Command) : IO Desk := do
  let mut d := d
  for _ in List.range 2 do
    for path in c.looksAt d do
      d := { d with files := ← see d.files path }
  return d

/-- Write the files that a command leaves and that differ from those before it. -/
def keepFiles (before after : Files) : IO Unit := do
  for (place, content) in after.entries do
    if before.content? place ≠ some content then
      let p := Path.ofPlace "." place
      match content with
      | .directory => IO.FS.createDirAll p.text
      | .file text => IO.FS.writeFile p.text text

/-- Print what a command says. -/
def sayOutcome (o : Outcome) : IO Unit := do
  for n in o.notices do
    IO.eprintln n.text
  IO.print o.output
  IO.eprint o.errors
  match o.table with
  | some t =>
    IO.println t.title
    for (file, size) in t.rows do
      IO.println (file ++ "  " ++ size)
  | none => pure ()
  for line in o.summary do
    IO.println line

/-- Run a command on the file system, with authored code. -/
def runWith (program : Program) (modules : List Module) (arguments : List String) : IO UInt32 := do
  let directory := toString (← IO.currentDir)
  let d : Desk := { directory, program, modules }
  let d ← match Command.read? arguments with
    | some c => seeAll d c
    | none => pure d
  let o := d.answer arguments
  keepFiles d.files o.files
  sayOutcome o
  match o.ending with
  | .exit code => return code.toUInt32
  | .fault f =>
    IO.eprintln ((f.reported?.orElse fun _ => f.message?).getD "The command failed")
    return 1

end Pageloom

/-- The command line without authored components. -/
def main (arguments : List String) : IO UInt32 := Pageloom.runWith [] [] arguments
