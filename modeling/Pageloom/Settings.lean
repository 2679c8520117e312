import Pageloom.Builder
import Pageloom.Instruction.Compile

/-!
# Settings

What a build can be told: where its output goes, how tokens and variables
begin, the sigil, the policy for scalar children, and the looks of the page.
They are read from a table with a table per section. A setting of the wrong
shape is a fault where it would mislead; others are kept as they are and fail,
if at all, where they are used.

## Main definitions

* `Pageloom.Settings` -- the settings of a build
* `Pageloom.Settings.ofValue` -- settings from a table
* `Pageloom.Settings.builder` -- a builder with these settings
* `Pageloom.Settings.compile` -- the steps that rebuild a body
-/

namespace Pageloom

/-- The settings of a build. -/
structure Settings where
  outputDir : Value := .text "output"
  tokenLead : Value := .text Counter.standardLead
  variableLead : Value := .text "el"
  sigil : Value := .text standardSigil
  policy : ScalarPolicy := .last
  title : Value := .text "Compiled Component"
  lang : Value := .text "en"
  inlineScripts : Bool := true
  inlineStyles : Bool := false
  scripts : List String := []
  componentBase : Value := .text "./components"

namespace Settings

/-- The names of the `build` section. Two of them name other sections. -/
def buildNames : List String :=
  ["output_dir", "token_prefix", "var_prefix", "sigil", "scalar_children", "page", "runtime"]

/-- The names of the `page` section. -/
def pageNames : List String := ["title", "lang", "inline_scripts", "inline_styles", "scripts"]

/-- The names of the `runtime` section. -/
def runtimeNames : List String := ["component_base_url"]

/-- A section of the settings, empty when absent. -/
def sectionOf (data : Entries Value) (name : String) : Except Fault (Entries Value) :=
  match data.get? name with
  | none => .ok []
  | some (.table es) => .ok es
  | some _ => .error (.notATable name)

/-- Check that a section has no names that it does not know. -/
def checkNames (entries : Entries Value) (known : List String) (name : String) :
    Except Fault Unit :=
  let unknown := entries.keys.filter fun k => !known.contains k
  if unknown.isEmpty then .ok ()
  else .error (.unknownSettings name (unknown.mergeSort fun a b => a ≤ b))

/-- The number of items of a value that has any. -/
def sizeOf? : Value → Option Nat
  | .scalar (.text s) => some s.length
  | .brokenText pieces => some pieces.length
  | .list xs => some xs.length
  | .tuple xs => some xs.length
  | .table es => some es.length
  | .view es => some es.length
  | .dictionary es => some es.length
  | .bytes ascii => some ascii.length
  | .emptySet => some 0
  | _ => none

/-- The sigil, which must have one item. -/
def readSigil (entries : Entries Value) : Except Fault Value :=
  let v := (entries.get? "sigil").getD (.text standardSigil)
  match sizeOf? v with
  | some 1 => .ok v
  | some _ => do .error (.badSigil (← v.quotedText))
  | none => .error .wrongKind

/-- The policy for scalar children. -/
def readPolicy (entries : Entries Value) : Except Fault ScalarPolicy :=
  match entries.get? "scalar_children" with
  | none => .ok .last
  | some (.scalar (.text s)) =>
    match ScalarPolicy.ofName? s with
    | some p => .ok p
    | none => .error .badPolicy
  | some _ => .error .badPolicy

/-- A flag of a section. -/
def readFlag (entries : Entries Value) (sectionName name : String) (standard : Bool) :
    Except Fault Bool :=
  match entries.get? name with
  | none => .ok standard
  | some (.scalar (.bool b)) => .ok b
  | some v => do .error (.badFlag (sectionName ++ "." ++ name) (← v.quotedText))

/-- A list of texts of a section, empty when absent. -/
def readTexts (entries : Entries Value) (sectionName name : String) : Except Fault (List String) :=
  let fault : Fault := .badTextList (sectionName ++ "." ++ name)
  match entries.get? name with
  | none => .ok []
  | some (.list xs) =>
    match xs.mapM Value.text? with
    | some texts => .ok texts
    | none => .error fault
  | some _ => .error fault

/-- Settings from the entries of a table. -/
def ofEntries (data : Entries Value) : Except Fault Settings := do
  let build ← sectionOf data "build"
  let page ← sectionOf data "page"
  let runtime ← sectionOf data "runtime"
  checkNames build buildNames "build"
  checkNames page pageNames "page"
  checkNames runtime runtimeNames "runtime"
  let sigil ← readSigil build
  let policy ← readPolicy build
  let standard : Settings := {}
  let inlineScripts ← readFlag page "page" "inline_scripts" standard.inlineScripts
  let inlineStyles ← readFlag page "page" "inline_styles" standard.inlineStyles
  let scripts ← readTexts page "page" "scripts"
  return {
    outputDir := (build.get? "output_dir").getD standard.outputDir
    tokenLead := (build.get? "token_prefix").getD standard.tokenLead
    variableLead := (build.get? "var_prefix").getD standard.variableLead
    sigil, policy
    title := (page.get? "title").getD standard.title
    lang := (page.get? "lang").getD standard.lang
    inlineScripts, inlineStyles, scripts
    componentBase := (runtime.get? "component_base_url").getD standard.componentBase }

/-- Settings from a value, which must be a table. -/
def ofValue (data : Value) : Except Fault Settings :=
  match data.entries? with
  | some es => ofEntries es
  | none => .error .unsupported

/-- The sigil of a build with these settings. -/
def sigilOf (s : Settings) : Sigil := .ofValue s.sigil

/-- A builder with these settings. -/
def builder (s : Settings) : Builder :=
  { counter := .fresh s.tokenLead.plain 0, policy := s.policy, sigil := s.sigilOf
    mints := s.tokenLead.hasText }

/-- The steps that rebuild a body. -/
def compile (s : Settings) (b : Body) : Except Fault (List Instruction) := do
  let lead ← s.variableLead.plainText
  b.check s.sigilOf
  let cue ← s.sigilOf.forValues b.values
  return b.compile lead cue

/-- The factory of a component. -/
def factory (s : Settings) (b : Boundary) (body : Body) : Except Fault String :=
  (s.compile body).map fun steps => factoryText b.key b.parameters steps

end Settings

end Pageloom
