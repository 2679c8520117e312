import Pageloom.Toml.Statement

/-!
# TOML

Settings and style sheets may be written in TOML. A file is read statement by
statement, and each is carried out on nested tables before the next is read. The
same holds for the entries of a table written in one piece, so of several flaws the
first one counts.

## Main definitions

* `Pageloom.Toml.Sheet` -- the tables of a file while it is carried out
* `Pageloom.Toml.Sheet.perform` -- carry out a statement
* `Pageloom.Toml.read` -- the table that a file describes
-/

namespace Pageloom.Toml

/-- The tables of a file while it is carried out: the marks on keys, those that
take effect when the next table is opened, and the key of the open table. -/
structure Sheet where
  data : Entries Value := []
  marks : List Mark := []
  pending : List Mark := []
  header : List String := []

namespace Sheet

/-- Let the pending marks take effect. -/
def settle (s : Sheet) : Sheet := { s with marks := s.marks ++ s.pending, pending := [] }

/-- Open a table. -/
def openTable (s : Sheet) (path : List String) : Option Sheet := do
  let s := s.settle
  if isMarked s.marks .opened path || isMarked s.marks .frozen path then none
  else
    let data ← within true some path s.data
    return { s with data, marks := s.marks ++ [⟨path, .opened, false⟩], header := path }

/-- The table after one more item of an array of tables. -/
def addItem (stem : String) (es : Entries Value) : Option (Entries Value) :=
  match es.get? stem with
  | none => some (es.set stem (.list [.table []]))
  | some (.list items) => some (es.set stem (.list (items ++ [.table []])))
  | some _ => none

/-- Open a new item of an array of tables. The keys below it are free again. -/
def openItem (s : Sheet) (path : List String) : Option Sheet := do
  let s := s.settle
  if isMarked s.marks .frozen path then none
  else
    let data ← within true (addItem (path.getLast?.getD "")) path.dropLast s.data
    let marks := unmark s.marks path ++ [⟨path, .opened, false⟩]
    return { s with data, marks, header := path }

/-- The keys of the tables that a dotted key goes through. -/
def throughTables (s : Sheet) (path : List String) : List (List String) :=
  (List.range (path.length - 1)).map fun i => s.header ++ path.take (i + 1)

/-- Write a value at a key of the open table. -/
def writeEntry (s : Sheet) (path : List String) (v : Value) : Option Sheet := do
  let tables := s.throughTables path
  if tables.any (isMarked s.marks .opened) then none
  else if isMarked s.marks .frozen (s.header ++ path.dropLast) then none
  else
    let data ← writeNew true (s.header ++ path) v s.data
    return { s with
      data
      marks := freeze s.marks (s.header ++ path) v
      pending := s.pending ++ tables.map fun t => ⟨t, .opened, false⟩ }

/-- Carry out a statement. -/
def perform (s : Sheet) : Statement → Option Sheet
  | .table path => s.openTable path
  | .item path => s.openItem path
  | .entry path v => s.writeEntry path v

end Sheet

/-- Read and carry out the statements of a file, line by line. -/
def performAll : (fuel : Nat) → Sheet → List Char → Reading Sheet
  | 0, sheet, _ => .ok sheet
  | fuel + 1, sheet, cs =>
    match skipBlanks cs with
    | [] => .ok sheet
    | '\n' :: rest => performAll fuel sheet rest
    | '#' :: rest => do performAll fuel sheet (← Reading.ofOption (lineEnd ('#' :: rest)))
    | cs => do
      let (s, rest) ← statement cs
      let sheet ← Reading.ofOption (sheet.perform s)
      performAll fuel sheet (← Reading.ofOption (lineEnd rest))

/-- The table that a file describes. A carriage return before a line feed belongs
to the end of the line. -/
def read (text : String) : Reading (Entries Value) := do
  let cs := (Text.replaceAll text "\r\n" "\n").toList
  return (← performAll (cs.length + 1) {} cs).data

end Pageloom.Toml
