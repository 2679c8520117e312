import Pageloom.Artifacts
import Pageloom.Command
import Pageloom.Json
import Pageloom.Module
import Pageloom.Settings.Load
import Pageloom.Text.Terminal

/-!
# Running commands

What a command does, as a function of the files it sees and the modules that
hold authored components. The outcome says what is printed, how the command ends
and which files it leaves.

## Main definitions

* `Pageloom.Desk` -- what a command works with
* `Pageloom.Outcome` -- what a command did
* `Pageloom.Command.run` -- run a command
* `Pageloom.Desk.answer` -- run the command that arguments ask for
-/

namespace Pageloom

/-- The version that the command line tells. -/
def version : String := "0.3.0"

/-- What a command works with: the path of the working directory, the files, and
authored code. -/
structure Desk where
  directory : String
  files : Files := {}
  program : Program := []
  modules : List Module := []
  workshop : Workshop := {}

/-- A table that is printed at the end of a build. -/
structure Table where
  title : String
  rows : List (String × String)
  deriving DecidableEq

/-- How a command ended. -/
inductive Ending
  | exit (code : Nat)
  /-- The command failed in a way that it does not report. -/
  | fault (f : Fault)
  deriving DecidableEq

/-- What a command did. -/
structure Outcome where
  ending : Ending
  output : String := ""
  errors : String := ""
  table : Option Table := none
  summary : List String := []
  notices : List Notice := []
  files : Files

namespace Desk

/-- The command ends and leaves the files as they are. -/
def stop (d : Desk) (ending : Ending) (output errors : String := "") : Outcome :=
  { ending, output, errors, files := d.files }

/-- The command reports what went wrong and ends. -/
def report (d : Desk) (message : String) : Outcome :=
  d.stop (.exit 1) "" (Text.stripSequences message ++ "\n")

/-- The command prints a text and ends. -/
def print (d : Desk) (text : String) : Outcome :=
  d.stop (.exit 0) (Text.stripSequences text ++ "\n")

end Desk

/-- A fault in words where a command reports it: a report of the library, or what
the system says of a file. -/
def Fault.reported? : Fault → Option String
  | .noFile path => some ("[Errno 2] No such file or directory: " ++ Text.quote path)
  | .isDirectory path => some ("[Errno 21] Is a directory: " ++ Text.quote path)
  | .notDirectory path => some ("[Errno 20] Not a directory: " ++ Text.quote path)
  | .nameTooLong path => some ("[Errno 36] File name too long: " ++ Text.quote path)
  | f => f.report?.map Report.text

/-! ## Styles and the client script -/

/-- The value that a style file describes, by the ending of its name. -/
def styleFile (p : Path) (text : String) : Reading Value :=
  if p.suffix = ".toml" then (Toml.read text).map .table else Json.read text

/-- Flatten what a style file describes. -/
def Desk.cssOf (d : Desk) (p : Path) : Reading Value → Outcome
  | .error .malformed => d.report ("Cannot parse " ++ p.text)
  | .error flaw => d.stop (.fault (flaw.fault .wrongValue))
  | .ok sheet =>
    if !sheet.isTable then d.report "Style file must contain a mapping of selectors to rules"
    else match Style.flattenSheet sheet with
      | .ok css => if Style.isPrintable sheet then d.print css else d.stop (.fault .unprintable)
      | .error e => d.stop (.fault e)

/-- Flatten a style file. -/
def Desk.css (d : Desk) (path : String) : Outcome :=
  let p := Path.ofText path
  match d.files.hasEntry p with
  | .error e => d.stop (.fault e)
  | .ok false => d.report ("File not found: " ++ p.text)
  | .ok true =>
    match d.files.read p with
    | .error e => d.stop (.fault e)
    | .ok text => d.cssOf p (styleFile p text)

/-! ## References to authored code -/

/-- The module and the value that a reference leads to, or a report of why it leads
nowhere. -/
def Desk.resolve (d : Desk) (reference : String) : Build (Except String (Module × Value)) := do
  let (name, attr) := Text.cutAt ':' reference.toList
  let name := String.ofList name
  let attr := String.ofList (attr.getD [])
  if name = "" || attr = "" then
    return .error ("Invalid component reference '" ++ reference ++ "' (expected module:attr)")
  match ← Module.find d.program d.modules name with
  | .error e => return .error ("Cannot import " ++ name ++ ": " ++ e)
  | .ok m =>
    match ← m.lookup d.program attr with
    | none => return .error ("Module " ++ name ++ " has no attribute '" ++ attr ++ "'")
    | some _ => return .ok (m, (← m.lookup d.program attr).getD .none)

/-- What references lead to, or a report on the first that leads nowhere. -/
def Desk.resolveAll (d : Desk) : List String → Build (Except String (List (Module × Value)))
  | [] => pure (.ok [])
  | reference :: rest => do
    match ← d.resolve reference with
    | .error message => return .error message
    | .ok found => return (← d.resolveAll rest).map (found :: ·)

/-- The name under which a module holds its styles. -/
def stylesName : String := "STYLES"

/-- The styles of modules, each taken once. Modules that call themselves the same
count as one. -/
def moduleStyles (p : Program) : (seen : List Value) → List Module → Pairs → Build Pairs
  | _, [], styles => pure styles
  | seen, m :: rest, styles => do
    let name := (← m.lookup p "__name__").getD .none
    if !name.isKey then throw .wrongKind
    if seen.any fun v => v.same name then moduleStyles p seen rest styles
    else
      let sheet := (← m.lookup p stylesName).bind Value.ownPairs?
      moduleStyles p (name :: seen) rest (styles.update (sheet.getD []))

/-! ## Builds -/

/-- The settings of a build: those of a named file, or of the working directory. -/
def Desk.settings (d : Desk) (config : Option String) : Except Fault Settings :=
  match config.filter (· ≠ "") with
  | some path => Settings.load d.files (Path.ofText path)
  | none => Settings.find d.files (Path.ofText ".") (Path.ofText d.directory)

/-- The directory that a build writes to: the one that was asked for, or that of
the settings, which must be a text. -/
def outputPath (output : Option String) (s : Settings) : Except Fault Path :=
  match output.filter (· ≠ "") with
  | some path => .ok (Path.ofText path)
  | none =>
    match s.outputDir with
    | .scalar (.text path) => .ok (Path.ofText path)
    | _ => .error .wrongKind

/-- The size of a file in words. -/
def Files.sizeText (f : Files) (p : Path) : String :=
  let size := match f.locate p with
    | .taken _ (.file text) => text.utf8ByteSize
    | _ => 0
  Nat.repr size ++ " B"

/-- Write the artifacts of a build and tell of it. -/
def Desk.deliver (d : Desk) (a : Artifacts) (output : Path) (notices : List Notice) : Outcome :=
  match a.write output d.files with
  | (files, .error e) => { ending := .fault e, notices, files }
  | (files, .ok ()) =>
    let rows := (a.plan output).map fun e => (e.1.text, files.sizeText e.1)
    let shown := (Path.ofPlace d.directory output.place).text
    { ending := .exit 0
      table := some ⟨"Build output (" ++ a.root ++ ")", rows⟩
      summary := ["[green]Compiled " ++ Nat.repr a.scripts.length ++ " component(s) to " ++
        shown ++ "[/green]"]
      notices
      files }

/-- Build pages from values that are components, with the styles of their modules. -/
def Desk.buildEntries (d : Desk) (s : Settings) (entries : List Value) (styles : Pairs)
    (output : Option String) : Outcome :=
  let failed (e : Fault) (notices : List Notice) : Outcome :=
    match e.report? with
    | some r => { d.report ("Build failed: " ++ r.text) with notices }
    | none => { d.stop (.fault e) with notices }
  match d.program.collect entries { d.workshop with own := s.builder } with
  | .error e w => failed e w.notices
  | .ok components w =>
    let (notices, made) := s.artifacts components styles.toValue d.files
    let notices := w.notices ++ notices
    match made with
    | .error e => failed e notices
    | .ok a =>
      match outputPath output s with
      | .error e => { d.stop (.fault e) with notices }
      | .ok path => d.deliver a path notices

/-- Build pages. -/
def Desk.build (d : Desk) (references : List String) (output config : Option String)
    (scripts : List String) : Outcome :=
  match d.settings config with
  | .error e =>
    match e.reported? with
    | some message => d.report ("Config error: " ++ message)
    | none => d.stop (.fault e)
  | .ok s =>
    let resolve : Build (Except String (List Value × Pairs)) := do
      match ← d.resolveAll references with
      | .error message => return .error message
      | .ok found =>
        let styles ← moduleStyles d.program [] (found.map Prod.fst) []
        return .ok (found.map Prod.snd, styles)
    match resolve d.workshop with
    | .error e w => { d.stop (.fault e) with notices := w.notices }
    | .ok (.error message) w => { d.report message with notices := w.notices }
    | .ok (.ok (entries, styles)) w =>
      let s := { s with scripts := s.scripts ++ scripts }
      { d with workshop := w }.buildEntries s entries styles output

/-! ## Commands -/

/-- How the commands are used. -/
def usage : String :=
  "Usage: domforge [--version] [--verbose] COMMAND\n" ++
    "  build [-o DIR] [-c FILE] [-s SCRIPT]... MODULE:ATTR...\n" ++
    "  css FILE\n" ++
    "  runtime [--base-url URL]"

/-- Run a command. -/
def Command.run (d : Desk) : Command → Outcome
  | .version => d.print ("domforge version " ++ Pageloom.version)
  | .help => d.print usage
  | .build references output config scripts => d.build references output config scripts
  | .css path => d.css path
  | .client base => d.print (clientScriptFor (Text.stripTrailing base '/'))

/-- The exit code for arguments that ask for no command. -/
def usageCode : Nat := 2

/-- Run the command that arguments ask for. -/
def Desk.answer (d : Desk) (arguments : List String) : Outcome :=
  match Command.read? arguments with
  | some c => c.run d
  | none => d.stop (.exit usageCode) "" (usage ++ "\n")

end Pageloom
