import Pageloom.Text.Edit

/-!
# Paths

A path is its names, and the slashes that it starts with if it is absolute.
Empty names and single dots say nothing and are dropped; double dots stay, since
what they mean depends on what the names before them are.

## Main definitions

* `Pageloom.Path` -- a path
* `Pageloom.Path.ofText`, `Pageloom.Path.text` -- paths and their texts
* `Pageloom.Path.below` -- a path below another one
* `Pageloom.Path.name`, `Pageloom.Path.suffix`, `Pageloom.Path.parent`
* `Pageloom.Path.place` -- where a path leads when every name on it is a directory
-/

namespace Pageloom

/-- A path: the slashes it starts with, and its names. -/
structure Path where
  root : String
  names : List String
  deriving DecidableEq

namespace Path

/-- The pieces of a text between slashes. -/
def pieces : List Char → List (List Char)
  | [] => [[]]
  | c :: rest =>
    if c = '/' then [] :: pieces rest
    else match pieces rest with
      | [] => [[c]]
      | p :: ps => (c :: p) :: ps

/-- The slashes that a text starts with: none, one, or exactly two. -/
def rootOf : List Char → String
  | '/' :: '/' :: '/' :: _ => "/"
  | '/' :: '/' :: _ => "//"
  | '/' :: _ => "/"
  | _ => ""

/-- The path of a text. -/
def ofText (s : String) : Path :=
  ⟨rootOf s.toList,
    ((pieces s.toList).map String.ofList).filter fun name => name ≠ "" && name ≠ "."⟩

/-- The text of a path. The path without names is a dot. -/
def text (p : Path) : String :=
  if p.root = "" && p.names.isEmpty then "." else p.root ++ Text.join "/" p.names

/-- The path that a text names below another path; an absolute one stands for itself. -/
def below (p : Path) (s : String) : Path :=
  let q := ofText s
  if q.root = "" then { p with names := p.names ++ q.names } else q

/-- The last name of a path. -/
def name (p : Path) : String := p.names.getLast?.getD ""

/-- The path without its last name. -/
def parent (p : Path) : Path := { p with names := p.names.dropLast }

/-- The end of the last name, from its last dot on. A dot at either end of the
name does not count. -/
def suffix (p : Path) : String :=
  let reversed := p.name.toList.reverse
  let tail := reversed.takeWhile (· ≠ '.')
  if tail.isEmpty || reversed.length ≤ tail.length + 1 then ""
  else String.ofList ('.' :: tail.reverse)

/-- Where following a path starts: at the working directory, or at the top. -/
def start (p : Path) : List String := if p.root = "" then [] else [p.root]

/-- Whether a place is the working directory or above it, or the top. -/
def isTop (place : List String) : Bool :=
  place.all (· = "..") || place = ["/"] || place = ["//"]

/-- The place above a place. Nothing is above the top. -/
def above (place : List String) : List String :=
  if place.all (· = "..") then place ++ [".."]
  else if isTop place then place
  else place.dropLast

/-- Where a path leads when every name on it is a directory. -/
def place (p : Path) : List String :=
  p.names.foldl (fun place name => if name = ".." then above place else place ++ [name]) p.start

/-- The path of a place, as seen from a working directory. -/
def ofPlace (directory : String) (place : List String) : Path :=
  if place.head? = some "/" || place.head? = some "//" then ⟨place.head?.getD "", place.tail⟩
  else place.foldl (fun p name => if name = ".." then p.parent else p.below name) (ofText directory)

end Path

end Pageloom
