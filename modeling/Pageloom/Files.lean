import Pageloom.Fault
import Pageloom.Path
import Pageloom.Text.Lines

/-!
# Files

The files that a command can see, by their places as seen from its working
directory. A path is followed name by name: a double dot goes back up, and
nothing can be reached through a file. The system refuses names and paths that
are too long, and paths that hold a null character.

## Main definitions

* `Pageloom.Files` -- files and directories by place
* `Pageloom.Files.locate` -- follow a path
* `Pageloom.Files.read`, `Pageloom.Files.write` -- the text of a file
* `Pageloom.Files.makeDirectories` -- a directory and those above it
-/

namespace Pageloom

/-- What stands at a place. -/
inductive Content
  | file (text : String)
  | directory
  deriving DecidableEq

/-- Files and directories by place: the names on the way from the working
directory, which is itself the empty place, or from the top. -/
structure Files where
  entries : List (List String × Content) := []

/-- Where a path leads. -/
inductive Spot
  /-- To a file or a directory. -/
  | taken (place : List String) (content : Content)
  /-- To nothing yet, in a directory that is there. -/
  | free (place : List String)
  /-- To nothing, since a directory on the way is not there. -/
  | missing
  /-- To nothing, since a file stands in the way. -/
  | blocked
  /-- To nothing, since the path or a name on it is too long. -/
  | tooLong
  /-- To nothing, since the path holds a null character. -/
  | broken
  deriving DecidableEq

namespace Files

/-- What stands at a place. -/
def content? (f : Files) (place : List String) : Option Content :=
  if Path.isTop place then some .directory else f.entries.lookup place

/-- Put something at a place. -/
def put (f : Files) (place : List String) (c : Content) : Files :=
  if (f.entries.lookup place).isSome then
    ⟨f.entries.map fun e => if e.1 = place then (place, c) else e⟩
  else ⟨f.entries ++ [(place, c)]⟩

/-- The most bytes that a name may have. -/
def nameLimit : Nat := 255

/-- The least number of bytes that a path may not have. -/
def pathLimit : Nat := 4096

/-- Follow names from a directory. -/
def locateFrom (f : Files) : (place : List String) → List String → Spot
  | place, [] => .taken place .directory
  | place, name :: rest =>
    if name = ".." then f.locateFrom (Path.above place) rest
    else if nameLimit < name.utf8ByteSize then .tooLong
    else
      let next := place ++ [name]
      match f.content? next with
      | none => if rest.isEmpty then .free next else .missing
      | some .directory => f.locateFrom next rest
      | some (.file text) => if rest.isEmpty then .taken next (.file text) else .blocked

/-- Follow a path. -/
def locate (f : Files) (p : Path) : Spot :=
  if p.text.toList.contains '\x00' then .broken
  else if pathLimit ≤ p.text.utf8ByteSize then .tooLong
  else f.locateFrom p.start p.names

/-- Whether a path leads to a file. Asking for one that is too long is a fault. -/
def isFile (f : Files) (p : Path) : Except Fault Bool :=
  match f.locate p with
  | .taken _ (.file _) => .ok true
  | .tooLong => .error (.nameTooLong p.text)
  | _ => .ok false

/-- Whether a path leads to anything. Asking for one that is too long is a fault. -/
def hasEntry (f : Files) (p : Path) : Except Fault Bool :=
  match f.locate p with
  | .taken .. => .ok true
  | .tooLong => .error (.nameTooLong p.text)
  | _ => .ok false

/-- Whether a path leads to a directory. -/
def isDirectory (f : Files) (p : Path) : Bool :=
  match f.locate p with
  | .taken _ .directory => true
  | _ => false

/-- The text of a file, every end of a line being one line feed; `shown` is the
path that messages give. -/
def readShown (f : Files) (p : Path) (shown : String) : Except Fault String :=
  match f.locate p with
  | .taken _ (.file text) => .ok (Text.normalizeLineEnds text)
  | .taken _ .directory => .error (.isDirectory shown)
  | .free _ | .missing => .error (.noFile shown)
  | .blocked => .error (.notDirectory shown)
  | .tooLong => .error (.nameTooLong shown)
  | .broken => .error .wrongValue

/-- The text of a file, every end of a line being one line feed. -/
def read (f : Files) (p : Path) : Except Fault String := f.readShown p p.text

/-- Write the text of a file, in a directory that is there. -/
def write (f : Files) (p : Path) (text : String) : Except Fault Files :=
  match f.locate p with
  | .taken place (.file _) => .ok (f.put place (.file text))
  | .free place => .ok (f.put place (.file text))
  | .taken _ .directory => .error (.isDirectory p.text)
  | .missing => .error (.noFile p.text)
  | .blocked => .error (.notDirectory p.text)
  | .tooLong => .error (.nameTooLong p.text)
  | .broken => .error .wrongValue

/-- Make one directory, in a directory that is there. -/
def makeDirectory (f : Files) (p : Path) : Except Fault Files :=
  match f.locate p with
  | .free place => .ok (f.put place .directory)
  | .taken .. => .error (.alreadyExists p.text)
  | .missing => .error (.noFile p.text)
  | .blocked => .error (.notDirectory p.text)
  | .tooLong => .error (.nameTooLong p.text)
  | .broken => .error .wrongValue

/-- Make one directory unless it is there. -/
def ensureDirectory (f : Files) (p : Path) : Except Fault Files :=
  match f.makeDirectory p with
  | .ok g => .ok g
  | .error e => if f.isDirectory p then .ok f else .error e

/-- Make a directory and those above it, as far as they are not there, going up
at most the given number of names. -/
def makeDirectoriesWithin : (height : Nat) → Files → Path → Except Fault Files
  | 0, f, p => f.ensureDirectory p
  | height + 1, f, p =>
    match f.makeDirectory p with
    | .error (.noFile _) => do
      let f ← makeDirectoriesWithin height f p.parent
      f.ensureDirectory p
    | _ => f.ensureDirectory p

/-- Make a directory and those above it, as far as they are not there. -/
def makeDirectories (f : Files) (p : Path) : Except Fault Files :=
  makeDirectoriesWithin p.names.length f p

/-- Put a file or a directory where a path leads, with the directories above it. -/
def place (f : Files) (p : Path) (c : Content) : Files :=
  let spot := p.place
  let above := (List.range spot.length).map fun n => spot.take n
  let f := above.foldl (fun f q => if (f.content? q).isSome then f else f.put q .directory) f
  if Path.isTop spot then f else f.put spot c

/-- The files among given paths and texts. A path that ends in a slash is a
directory. -/
def ofTexts (texts : List (String × String)) : Files :=
  texts.foldl (fun f t =>
    f.place (Path.ofText t.1) (if Text.endsWith t.1 "/" then .directory else .file t.2)) {}

/-- The texts of the files below the working directory, by path. -/
def texts (f : Files) : List (String × String) :=
  f.entries.filterMap fun e =>
    match e.1, e.2 with
    | first :: rest, .file text =>
      if first = ".." || first = "/" || first = "//" then none
      else some (Text.join "/" (first :: rest), text)
    | _, _ => none

/-- The files below the working directory that are new or changed since `before`,
sorted by path. -/
def changedSince (f before : Files) : List (String × String) :=
  let old := before.texts
  (f.texts.filter fun t => old.lookup t.1 ≠ some t.2).mergeSort fun a b => a.1 ≤ b.1

end Files

end Pageloom
