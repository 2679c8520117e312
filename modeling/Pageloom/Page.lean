import Pageloom.ClientScript
import Pageloom.Collection
import Pageloom.Markup

/-!
# Pages

The page that a build puts together: the markup of its root, the helper scripts,
the client script and the factories, and the calls that run once the page has
loaded. A script that stands in the page is guarded so that no text in it can
end it early.

## Main definitions

* `Pageloom.componentScript` -- the script file of a component
* `Pageloom.onLoadScript` -- the calls that run on load
* `Pageloom.Page` -- what a page is put together from
* `Pageloom.Page.text` -- the page
-/

namespace Pageloom

/-- The line that makes the table of factories unless it is there. -/
def registryLine : String :=
  Instruction.registry ++ " = " ++ Instruction.registry ++ " || \x7b\x7d;"

/-- The script file of a component, given its factory. -/
def componentScript (factory : String) : String := registryLine ++ "\n" ++ factory ++ "\n"

/-- A script that stands in the page. -/
def inlineScript (source : String) : String :=
  "<script>\n" ++ Text.guardClosing source ++ "\n</script>"

/-- A reference to a script file. -/
def scriptReference (address : String) : String :=
  "<script src=\"" ++ Text.escapeAttribute address ++ "\"></script>"

/-- The script of the calls that run once the page has loaded, if there are any. -/
def onLoadScript (calls : List String) : Option String :=
  if calls.isEmpty then none
  else
    let calls := calls.map fun call => "  " ++ call ++ ";"
    some ("window.addEventListener(\"load\", function() \x7b\n" ++ Text.join "\n" calls ++
      "\n\x7d);")

/-- What a page is put together from. `factories` are the factories of its
components, `keys` the keys that have script files, and `calls` the calls that run
once the page has loaded. -/
structure Page where
  title : String
  lang : String
  markup : String
  css : String
  inlineStyles : Bool
  inlineScripts : Bool
  assets : List String
  client : String
  base : String
  factories : List String
  keys : List String
  calls : List String

namespace Page

/-- The lines of the head that load the styles, if there are any. -/
def styleLines (p : Page) : List String :=
  if p.css = "" then []
  else if p.inlineStyles then ["<style>\n" ++ p.css ++ "\n</style>"]
  else ["<link rel=\"stylesheet\" href=\"./styles.css\" />"]

/-- The entries of the head. -/
def head (p : Page) : List String :=
  ["<meta charset=\"UTF-8\" />",
    "<meta name=\"viewport\" content=\"width=device-width, initial-scale=1.0\" />",
    "<title>" ++ Text.escapeText p.title ++ "</title>"] ++ p.styleLines

/-- The parts of the body that bring the client script and the factories. -/
def scriptLines (p : Page) : List String :=
  if p.inlineScripts then
    [inlineScript p.client, inlineScript (registryLine ++ "\n" ++ Text.join "\n" p.factories)]
  else
    scriptReference "./runtime.js" ::
      p.keys.map fun key => scriptReference (p.base ++ "/" ++ key ++ ".js")

/-- The parts of the body. -/
def body (p : Page) : List String :=
  p.markup ::
    p.assets.map (fun name => scriptReference ("./" ++ name)) ++
    p.scriptLines ++
    (onLoadScript p.calls).toList.map inlineScript

/-- The page. -/
def text (p : Page) : String :=
  "<!DOCTYPE html>\n" ++
    "<html lang=\"" ++ Text.escapeAttribute p.lang ++ "\">\n" ++
    "<head>\n" ++ Text.join "\n" (p.head.map fun line => "  " ++ line) ++ "\n</head>\n" ++
    "<body>\n" ++ Text.join "\n" p.body ++ "\n</body>\n" ++
    "</html>\n"

end Page

end Pageloom
