import Pageloom.Fault
import Pageloom.Text.Literal
import Pageloom.Value

/-!
# The client script

The script that ships with every page. It mounts, removes and loads components
the way a session does. Only the place that component scripts are fetched from
varies.

## Main definitions

* `Pageloom.baseUrl` -- a base address without slashes at its end
* `Pageloom.clientScript` -- the script for a base address
-/

namespace Pageloom

/-- A base address without slashes at its end, which must be a text. -/
def baseUrl : Value → Except Fault String
  | .scalar (.text s) => .ok (Text.stripTrailing s '/')
  | .bytes _ => .error .wrongKind
  | _ => .error .unsupported

/-- The lines of the client script before the one with the base address. -/
def clientScriptOpening : List String := [
  "/**",
  " * domforge client runtime",
  " * Mounts and unmounts compiled component factories.",
  " */",
  "(function (global) \x7b",
  "  const components = global.components = global.components || \x7b\x7d;",
  "  const componentCache = new Map();",
  "  const pendingLoads = new Map();"]

/-- The line of the client script with the base address, up to it. -/
def clientScriptBase : String := "  const componentBaseUrl = "

/-- The lines of the client script after the base address: the end of its line
and all that follow. -/
def clientScriptClosing : List String := [
  ";",
  "",
  "  /**",
  "   * Mount a clone of a component under an element.",
  "   * The factory runs once; later calls clone the cached node.",
  "   * @param \x7bstring\x7d key - Component key",
  "   * @param \x7bstring\x7d parentId - Id of the element to mount under",
  "   * @returns \x7bNode|null\x7d - The mounted node",
  "   */",
  "  function renderComponent(key, parentId, ...args) \x7b",
  "    const parent = document.getElementById(parentId);",
  "    if (!parent) \x7b",
  "      console.error(`Render target not found: #$\x7bparentId\x7d`);",
  "      return null;",
  "    \x7d",
  "    const factory = components[key];",
  "    if (typeof factory !== 'function') \x7b",
  "      console.error(`Component not found: $\x7bkey\x7d`);",
  "      return null;",
  "    \x7d",
  "    if (!componentCache.has(key)) \x7b",
  "      componentCache.set(key, factory(...args));",
  "    \x7d",
  "    const node = componentCache.get(key).cloneNode(true);",
  "    parent.appendChild(node);",
  "    return node;",
  "  \x7d",
  "",
  "  /**",
  "   * Detach an element from its parent.",
  "   * @param \x7bstring\x7d id - Element id",
  "   * @returns \x7bboolean\x7d - false if the element was missing",
  "   */",
  "  function removeComponent(id) \x7b",
  "    const el = document.getElementById(id);",
  "    if (!el) \x7b",
  "      console.error(`Element not found: #$\x7bid\x7d`);",
  "      return false;",
  "    \x7d",
  "    el.remove();",
  "    return true;",
  "  \x7d",
  "",
  "  /**",
  "   * Load a component script on demand.",
  "   * @param \x7bstring\x7d key - Component key",
  "   * @returns \x7bPromise<string>\x7d - Resolves once the factory is registered",
  "   */",
  "  function loadComponent(key) \x7b",
  "    if (typeof components[key] === 'function') \x7b",
  "      return Promise.resolve(key);",
  "    \x7d",
  "    if (pendingLoads.has(key)) \x7b",
  "      return pendingLoads.get(key);",
  "    \x7d",
  "    const promise = new Promise((resolve, reject) => \x7b",
  "      const script = document.createElement('script');",
  "      script.src = `$\x7bcomponentBaseUrl\x7d/$\x7bencodeURIComponent(key)\x7d.js`;",
  "      script.onload = () => \x7b",
  "        pendingLoads.delete(key);",
  "        if (typeof components[key] === 'function') \x7b",
  "          resolve(key);",
  "        \x7d else \x7b",
  "          reject(new Error(`Script for $\x7bkey\x7d did not register a factory`));",
  "        \x7d",
  "      \x7d;",
  "      script.onerror = () => \x7b",
  "        pendingLoads.delete(key);",
  "        console.error(`Failed to load component: $\x7bkey\x7d`);",
  "        reject(new Error(`Failed to load component: $\x7bkey\x7d`));",
  "      \x7d;",
  "      document.head.appendChild(script);",
  "    \x7d);",
  "    pendingLoads.set(key, promise);",
  "    return promise;",
  "  \x7d",
  "",
  "  global.renderComponent = renderComponent;",
  "  global.removeComponent = removeComponent;",
  "  global.loadComponent = loadComponent;",
  "\x7d)(typeof window !== 'undefined' ? window : globalThis);",
  ""]

/-- The client script for a base address. -/
def clientScriptFor (base : String) : String :=
  Text.join "\n" clientScriptOpening ++ "\n" ++ clientScriptBase ++ Text.literal base ++
    Text.join "\n" clientScriptClosing

/-- The client script for a value that gives the base address. -/
def clientScript (base : Value) : Except Fault String := (baseUrl base).map clientScriptFor

end Pageloom
