import Pageloom.Files
import Pageloom.Settings
import Pageloom.Toml

/-!
# Settings files

Settings are kept in a file at the top of a project.

## Main definitions

* `Pageloom.Settings.load` -- the settings of a file
* `Pageloom.Settings.find` -- the settings of a directory
-/

namespace Pageloom.Settings

/-- The name of a settings file. -/
def fileName : String := "domforge.toml"

/-- The settings that a text holds; `shown` is the path that messages give. -/
def ofToml (text shown : String) : Except Fault Settings :=
  match Toml.read text with
  | .ok data => ofEntries data
  | .error flaw => .error (flaw.fault (.invalidManifest shown))

/-- The settings of a file; `shown` is the path that messages give. -/
def loadShown (f : Files) (p : Path) (shown : String) : Except Fault Settings := do
  ofToml (← f.readShown p shown) shown

/-- The settings of a file. -/
def load (f : Files) (p : Path) : Except Fault Settings := loadShown f p p.text

/-- The settings of a directory: those of the settings file in it, if it has one.
Messages give its path below `shown`. -/
def find (f : Files) (directory shown : Path) : Except Fault Settings := do
  let p := directory.below fileName
  if ← f.hasEntry p then loadShown f p (shown.below fileName).text else .ok {}

end Pageloom.Settings
