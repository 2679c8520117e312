import Pageloom.Files
import Pageloom.Page

/-!
# Artifacts

What a build makes: the page, the client script, a script file per component,
the style sheet, and copies of the helper scripts. They are put together in a
fixed order, so that of several faults the first one in that order is reported.

## Main definitions

* `Pageloom.Files.helperScripts` -- the helper scripts of a page
* `Pageloom.Artifacts` -- what a build makes
* `Pageloom.Settings.artifacts` -- the artifacts of given components
* `Pageloom.Artifacts.plan`, `Pageloom.Artifacts.write` -- the files they go to
-/

namespace Pageloom

/-- The names of the files that a build makes at the top of its output. -/
def reservedNames : List String := ["index.html", "runtime.js", "styles.css"]

/-- Read helper scripts, by the names they are copied to, after those read
before. One that is not there is remarked; two of one name are refused, and so
is one that has the name of a file that the build makes. -/
def Files.helperScriptsAfter (f : Files) :
    (assets : Entries String) → (notices : List Notice) → List String →
      List Notice × Except Fault (Entries String)
  | assets, notices, [] => (notices, .ok assets)
  | assets, notices, raw :: rest =>
    let path := Path.ofText raw
    match f.isFile path with
    | .error e => (notices, .error e)
    | .ok false => f.helperScriptsAfter assets (notices ++ [.scriptMissing path.text]) rest
    | .ok true =>
      if assets.has path.name then (notices, .error (.scriptClash path.name))
      else if reservedNames.contains path.name then
        (notices, .error (.scriptReserved path.text path.name))
      else match f.read path with
        | .ok text => f.helperScriptsAfter (assets.set path.name text) notices rest
        | .error e => (notices, .error e)

/-- Read helper scripts, by the names they are copied to. -/
def Files.helperScripts (f : Files) (paths : List String) :
    List Notice × Except Fault (Entries String) :=
  f.helperScriptsAfter [] [] paths

/-- What a build makes. -/
structure Artifacts where
  root : String
  markup : String
  html : String
  scripts : Entries String
  client : String
  css : String
  assets : Entries String

/-- The flat style text of a build; styles that count as nothing give none. -/
def buildStyles (styles : Value) : Except Fault String :=
  if styles.truthy then Style.flattenSheet styles else .ok ""

namespace Settings

/-- The artifacts of given components, the first of them being the root. -/
def artifacts (s : Settings) (components : List Component) (styles : Value) (files : Files) :
    List Notice × Except Fault Artifacts :=
  match components with
  | [] => ([], .error .noRoot)
  | root :: _ =>
    let first : Except Fault (String × List String × String × String × String) := do
      let markup ← root.root.markupText
      let factories ← components.mapM fun c => s.factory c.boundary c.body
      let base ← baseUrl s.componentBase
      let css ← buildStyles styles
      return (markup, factories, base, clientScriptFor base, css)
    match first with
    | .error e => ([], .error e)
    | .ok (markup, factories, base, client, css) =>
      let (notices, assets) := files.helperScripts s.scripts
      (notices, do
        let assets ← assets
        let title ← s.title.asText
        let calls ← (components.flatMap fun c => c.boundary.hooks).mapM Value.expression
        let lang ← s.lang.asText
        let scripts := Entries.ofPairs
          ((components.map fun c => c.boundary.key).zip (factories.map componentScript))
        let page : Page :=
          { title, lang, markup, css, inlineStyles := s.inlineStyles
            inlineScripts := s.inlineScripts, assets := assets.keys, client, base, factories
            keys := scripts.keys, calls }
        return { root := root.boundary.key, markup, html := page.text
                 scripts, client, css, assets })

end Settings

namespace Artifacts

/-- The files that artifacts go to, in the order they are written. -/
def plan (a : Artifacts) (output : Path) : List (Path × String) :=
  let components := output.below "components"
  [(output.below "index.html", a.html), (output.below "runtime.js", a.client)] ++
    (if a.css = "" then [] else [(output.below "styles.css", a.css ++ "\n")]) ++
    a.scripts.map (fun e => (components.below (e.1 ++ ".js"), e.2)) ++
    a.assets.map fun e => (output.below e.1, e.2)

/-- Write files in order, up to the first that cannot be written. -/
def writeAll : List (Path × String) → Files → Files × Except Fault Unit
  | [], f => (f, .ok ())
  | (p, text) :: rest, f =>
    match f.write p text with
    | .ok g => writeAll rest g
    | .error e => (f, .error e)

/-- Write artifacts below a directory, which is made unless it is there. -/
def write (a : Artifacts) (output : Path) (f : Files) : Files × Except Fault Unit :=
  match f.makeDirectories (output.below "components") with
  | .ok g => writeAll (a.plan output) g
  | .error e => (f, .error e)

end Artifacts

end Pageloom
