/-!
# Notices

What the library remarks while it goes on: warnings of a build, and the errors
of a live session, which are never fatal there.

## Main definitions

* `Pageloom.Notice` -- the causes
* `Pageloom.Notice.level`, `Pageloom.Notice.text` -- their weight and wording
-/

namespace Pageloom

/-- How grave a notice is. -/
inductive Level
  | warning
  | error
  deriving DecidableEq

/-- A remark. -/
inductive Notice
  /-- An element has children, so its text is not written. -/
  | textHidden (tag token : String)
  /-- Two uses of one component differ, and only the first gets a factory. -/
  | contentDiffers (key : String)
  /-- A helper script is not there. -/
  | scriptMissing (path : String)
  /-- A component was to be mounted below an element that is not there. -/
  | targetMissing (id : String)
  /-- A component without a factory was to be mounted. -/
  | componentMissing (key : String)
  /-- An element that is not there was to be removed. -/
  | elementMissing (id : String)
  /-- A component was to be loaded and there is no loader. -/
  | noLoader (key : String)
  /-- The loader failed. -/
  | loaderFailed (key reason : String)
  /-- A component's script failed. -/
  | scriptFailed (key reason : String)
  deriving DecidableEq

namespace Notice

/-- How grave a notice is: a build warns, a session reports errors. -/
def level : Notice → Level
  | textHidden .. | contentDiffers .. | scriptMissing .. => .warning
  | _ => .error

/-- The wording of a notice. -/
def text : Notice → String
  | textHidden tag token =>
    "<" ++ tag ++ "> (" ++ token ++ ") has both children and text; text is not emitted"
  | contentDiffers key =>
    "Component " ++ key ++ " is used with different content; its factory " ++
      "rebuilds the first definition only"
  | scriptMissing path => "Helper script not found: " ++ path
  | targetMissing id => "Render target not found: #" ++ id
  | componentMissing key => "Component not found: " ++ key
  | elementMissing id => "Element not found: #" ++ id
  | noLoader key => "No script loader configured; cannot load component " ++ key
  | loaderFailed key reason => "Failed to load component " ++ key ++ ": " ++ reason
  | scriptFailed key reason => "Component script for " ++ key ++ " failed: " ++ reason

end Notice

end Pageloom
