import Pageloom.Value

/-!
# Nested tables of TOML

A file writes into nested tables by dotted keys. What it may still write is kept
as marks on keys: a table that was opened by name may not be opened again, and
nothing may be added to a table or an array that was written in one piece.

## Main definitions

* `Pageloom.Toml.Mark` -- what may no longer be done with a key
* `Pageloom.Toml.within` -- change the table at a key
* `Pageloom.Toml.InlineTable` -- a table written in one piece, as far as it is read
-/

namespace Pageloom.Toml

/-- What a mark forbids. -/
inductive MarkKind
  /-- Adding to the table or array. -/
  | frozen
  /-- Opening the table again. -/
  | opened
  deriving DecidableEq

/-- A mark on a key; a deep one counts for all keys below it as well. -/
structure Mark where
  path : List String
  kind : MarkKind
  deep : Bool
  deriving DecidableEq

/-- Whether some mark of a kind counts for a key. -/
def isMarked (marks : List Mark) (kind : MarkKind) (path : List String) : Bool :=
  marks.any fun m =>
    m.kind = kind && (m.path = path || (m.deep && m.path.isPrefixOf path))

/-- Drop the marks on a key and all keys below it. -/
def unmark (marks : List Mark) (path : List String) : List Mark :=
  marks.filter fun m => !path.isPrefixOf m.path

/-- Change the table at a key, making the tables on the way as far as they are
not there. An array on the way stands for its last item, unless arrays are
closed. -/
def within (openArrays : Bool) (change : Entries Value → Option (Entries Value)) :
    List String → Entries Value → Option (Entries Value)
  | [], es => change es
  | k :: ks, es =>
    match es.get? k with
    | none => (within openArrays change ks []).map fun sub => es.set k (.table sub)
    | some (.table sub) => (within openArrays change ks sub).map fun sub => es.set k (.table sub)
    | some (.list items) =>
      match openArrays, items.getLast? with
      | true, some (.table sub) =>
        (within openArrays change ks sub).map fun sub =>
          es.set k (.list (items.dropLast ++ [.table sub]))
      | _, _ => none
    | some _ => none

/-- Write a value at a key that has none yet. -/
def writeNew (openArrays : Bool) (path : List String) (v : Value) (es : Entries Value) :
    Option (Entries Value) :=
  match path.getLast? with
  | none => none
  | some stem =>
    within openArrays (fun sub => if sub.has stem then none else some (sub.set stem v))
      path.dropLast es

/-- Whether a value is a table or an array, written in one piece. -/
def isCompound : Value → Bool
  | .table _ | .list _ => true
  | _ => false

/-- The marks after a value is written in one piece. -/
def freeze (marks : List Mark) (path : List String) (v : Value) : List Mark :=
  if isCompound v then marks ++ [⟨path, .frozen, true⟩] else marks

/-- A table written in one piece, as far as it is read: its entries, and the marks
on their keys. -/
structure InlineTable where
  entries : Entries Value := []
  marks : List Mark := []

/-- Write a value into a table written in one piece. -/
def InlineTable.write (t : InlineTable) (path : List String) (v : Value) : Option InlineTable :=
  if isMarked t.marks .frozen path then none
  else (writeNew false path v t.entries).map fun entries => ⟨entries, freeze t.marks path v⟩

end Pageloom.Toml
