import Pageloom.Text.Edit

/-!
# Faults

Why an operation failed. Each way of failing is a constructor that carries what
the message needs, and the wording stands in one place. Four families of faults
are reports of the library itself: a build that cannot go on, a change that
would break a tree, a component without its root, and settings that cannot be
read. A report may name the component it arose in.

## Main definitions

* `Pageloom.Fault` -- the causes
* `Pageloom.Report` -- a message with its family and its context
* `Pageloom.Fault.report?`, `Pageloom.Fault.message?` -- the wording
-/

namespace Pageloom

/-- The families of faults that the library reports in its own words. -/
inductive Family
  | build
  | tree
  | notRendered
  | settings
  deriving DecidableEq

/-- Where a report arose: a component, and the reference it came from if known. -/
structure Context where
  component : String
  source : Option String := none
  deriving DecidableEq

/-- A context in words. An empty source counts as none. -/
def Context.text (c : Context) : String :=
  match c.source with
  | some source => if source = "" then "component " ++ c.component
      else "component " ++ c.component ++ " (from " ++ source ++ ")"
  | none => "component " ++ c.component

/-- A message with its family and its context. -/
structure Report where
  family : Family
  message : String
  context : Option Context := none
  deriving DecidableEq

/-- A report in words: its context on a line of its own, then the message. -/
def Report.text (r : Report) : String :=
  match r.context with
  | some c => c.text ++ "\n" ++ r.message
  | none => r.message

/-- A report about a build. Only a named component gives a context. -/
def Report.build (message : String) (component source : Option String := none) : Report :=
  match component with
  | some name =>
    if name = "" then { family := .build, message }
    else { family := .build, message, context := some { component := name, source } }
  | none => { family := .build, message }

/-- Why an operation failed. -/
inductive Fault
  /-- A build was given no component. -/
  | noRoot
  /-- A value that is neither a tag nor a callable was given as a node type. -/
  | notBuildable (shown : String)
  /-- An entry of a build is no callable. -/
  | notCallable (shown : String)
  /-- A component gave something other than a node. -/
  | notANode (component kind : String)
  /-- An inline component gave something other than a node. -/
  | inlineNotANode (component kind : String)
  /-- Two entries of a build have one key. -/
  | duplicateKey (key : String)
  /-- Two helper scripts have one file name. -/
  | scriptClash (name : String)
  /-- A helper script has the name of a generated file. -/
  | scriptReserved (path name : String)
  /-- An element that has a parent or an owner was added as a child. -/
  | alreadyOwned (child : String)
  /-- A component that has a parent was added as a child. -/
  | alreadyMounted (child parent : String)
  /-- A component was made around an element that has a parent. -/
  | rootIsChild (root parent : String)
  /-- A node was added below itself. -/
  | cycle (child parent : String)
  /-- The root of a component was asked for and is not there. -/
  | notRendered (key : String)
  /-- A table of the settings is no table. -/
  | notATable (table : String)
  /-- A table of the settings has names it does not know. -/
  | unknownSettings (table : String) (names : List String)
  /-- The sigil is not one character. -/
  | badSigil (shown : String)
  /-- The policy for scalar children is unknown. -/
  | badPolicy
  /-- A flag is neither true nor false. -/
  | badFlag (setting shown : String)
  /-- A list of texts is something else. -/
  | badTextList (setting : String)
  /-- The settings file is not in its format. -/
  | invalidManifest (path : String)
  /-- A value that is no node was added as a child. -/
  | notAChild (kind : String)
  /-- Markup was asked of a value that is no node. -/
  | notMarkup (kind : String)
  /-- A content comparison was asked of a value that is no node. -/
  | notComparable (kind : String)
  /-- A call expression was asked of a value that is no handler. -/
  | unknownHandler (shown : String)
  /-- An instruction holds a value that is neither literal nor reference. -/
  | unknownOperand (shown : String)
  /-- A list of instructions ended without returning a node. -/
  | noReturn
  /-- An instruction used a name that has no value. -/
  | unbound (name : String)
  /-- An instruction called a component that has no factory. -/
  | noFactory (key : String)
  /-- An instruction used a variable that none has made. -/
  | unknownVariable (name : String)
  /-- A name that no definition has. -/
  | unknownName (name : String)
  /-- The fields given for a handler do not make one. -/
  | invalidHandler
  /-- A value was asked for something that its kind cannot do. -/
  | unsupported
  /-- A value has the wrong kind. -/
  | wrongKind
  /-- A value has the right kind and cannot be used. -/
  | wrongValue
  /-- A file is not there. -/
  | noFile (path : String)
  /-- A directory stands where a file is wanted. -/
  | isDirectory (path : String)
  /-- A file stands where a directory is wanted. -/
  | notDirectory (path : String)
  /-- Something stands where a directory is to be made. -/
  | alreadyExists (path : String)
  /-- A path, or a name on it, is longer than the system allows. -/
  | nameTooLong (path : String)
  /-- A broken text was to be printed. -/
  | unprintable
  /-- A walk or a call without end. -/
  | endless
  deriving DecidableEq

namespace Fault

/-- The report of a fault, for the four families of reports. -/
def report? : Fault → Option Report
  | noRoot => some (.build "No root component supplied")
  | notBuildable shown => some (.build ("Cannot build a node from " ++ shown))
  | notCallable shown => some (.build "Component entry is not callable" (some shown))
  | notANode component kind =>
    some (.build ("Expected an Element or Component, got " ++ kind) (some component))
  | inlineNotANode component kind =>
    some (.build ("Inline component returned " ++ kind) (some component))
  | duplicateKey key => some (.build "Duplicate component key" (some key))
  | scriptClash name => some (.build ("Two helper scripts are named " ++ name))
  | scriptReserved path name =>
    some (.build ("Helper script " ++ path ++ " would overwrite the generated " ++ name))
  | alreadyOwned child => some ⟨.tree, child ++ " already belongs to another node", none⟩
  | alreadyMounted child parent =>
    some ⟨.tree, child ++ " is already mounted under " ++ parent, none⟩
  | rootIsChild root parent =>
    some ⟨.tree, "Component root " ++ root ++ " is already a child of " ++ parent, none⟩
  | cycle child parent =>
    some ⟨.tree, "Adding " ++ child ++ " under " ++ parent ++ " would create a cycle", none⟩
  | notRendered key => some ⟨.notRendered, "Component " ++ key ++ " not rendered yet", none⟩
  | notATable table => some ⟨.settings, "[" ++ table ++ "] must be a table", none⟩
  | unknownSettings table names =>
    some ⟨.settings, "Unknown key(s) in [" ++ table ++ "]: " ++ Text.join ", " names, none⟩
  | badSigil shown =>
    some ⟨.settings, "build.sigil must be a single character, got " ++ shown, none⟩
  | badPolicy => some ⟨.settings, "build.scalar_children must be one of: last, concat", none⟩
  | badFlag setting shown =>
    some ⟨.settings, setting ++ " must be true or false, got " ++ shown, none⟩
  | badTextList setting => some ⟨.settings, setting ++ " must be a list of strings", none⟩
  | invalidManifest path => some ⟨.settings, "Invalid TOML in " ++ path, none⟩
  | _ => none

/-- The message of a fault, where it has one. -/
def message? : Fault → Option String
  | notAChild kind => some ("Cannot add " ++ kind ++ " as a child")
  | notMarkup kind => some ("Cannot serialize " ++ kind)
  | notComparable kind => some ("Cannot fingerprint " ++ kind)
  | unknownHandler shown => some ("Unknown handler descriptor: " ++ shown)
  | unknownOperand shown => some ("Unknown value " ++ shown)
  | noReturn => some "Instruction sequence has no return instruction"
  | unbound name => some ("Unbound reference in generated code: " ++ name)
  | noFactory key => some ("No factory registered for component " ++ key)
  | fault => fault.report?.map Report.text

end Fault

end Pageloom
