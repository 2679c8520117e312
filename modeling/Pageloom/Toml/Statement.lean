import Pageloom.Toml.Nest
import Pageloom.Toml.Token

/-!
# Statements of TOML

A file is lines, and a line that is not empty opens a table, opens a new item of
an array of tables, or writes a value at a key.

## Main definitions

* `Pageloom.Toml.value` -- a value
* `Pageloom.Toml.Statement` -- what a line says
* `Pageloom.Toml.statement` -- a statement
-/

namespace Pageloom.Toml

/-- A truth value, a date or time, or a number. -/
def plainValue (cs : List Char) : Reading (Value × List Char) :=
  match Text.dropLead? "true".toList cs with
  | some rest => .ok (.bool true, rest)
  | none =>
    match Text.dropLead? "false".toList cs with
    | some rest => .ok (.bool false, rest)
    | none =>
      match moment cs with
      | some m => Reading.ofOption (m.map fun t => (.moment t.1, t.2))
      | none =>
        match number cs with
        | .error .malformed => Reading.ofOption (specialNumber cs)
        | read => read

/-- A text as a value. -/
def textValue (t : Option (String × List Char)) : Reading (Value × List Char) :=
  Reading.ofOption (t.map fun t => (.text t.1, t.2))

/-- The characters after any blanks, ends of lines and comments. -/
def afterLines (cs : List Char) : Reading (List Char) := Reading.ofOption (skipLines false cs)

mutual

/-- A value. -/
def value : (fuel depth : Nat) → List Char → Reading (Value × List Char)
  | 0, _, _ => .error .malformed
  | _, 0, _ => .error .tooDeep
  | fuel + 1, depth + 1, cs =>
    match cs with
    | '"' :: '"' :: '"' :: rest => textValue (basicLines rest)
    | '"' :: rest => textValue (basicText rest)
    | '\x27' :: '\x27' :: '\x27' :: rest => textValue (literalLines rest)
    | '\x27' :: rest => textValue (literalText rest)
    | '[' :: rest => do
      match ← afterLines rest with
      | ']' :: rest => return (.list [], rest)
      | rest =>
        let (items, rest) ← arrayItems fuel depth rest
        return (.list items, rest)
    | '\x7b' :: rest => do
      match skipBlanks rest with
      | '\x7d' :: rest => return (.table [], rest)
      | rest =>
        let (t, rest) ← inlineEntries fuel depth {} rest
        return (.table t.entries, rest)
    | cs => plainValue cs

/-- The items of an array, from its first one on. -/
def arrayItems : (fuel depth : Nat) → List Char → Reading (List Value × List Char)
  | 0, _, _ => .error .malformed
  | fuel + 1, depth, cs => do
    let (v, rest) ← value fuel depth cs
    match ← afterLines rest with
    | ']' :: rest => return ([v], rest)
    | ',' :: rest =>
      match ← afterLines rest with
      | ']' :: rest => return ([v], rest)
      | rest =>
        let (vs, rest) ← arrayItems fuel depth rest
        return (v :: vs, rest)
    | _ => .error .malformed

/-- The entries of a table written in one piece that follow those read before. Each
is written before the next is read. -/
def inlineEntries : (fuel depth : Nat) → InlineTable → List Char →
    Reading (InlineTable × List Char)
  | 0, _, _, _ => .error .malformed
  | fuel + 1, depth, t, cs => do
    let (path, rest) ← Reading.ofOption (dottedKey fuel cs)
    let rest ← Reading.ofOption (expect '=' rest)
    let (v, rest) ← value fuel depth (skipBlanks rest)
    let t ← Reading.ofOption (t.write path v)
    match skipBlanks rest with
    | '\x7d' :: rest => return (t, rest)
    | ',' :: rest => inlineEntries fuel depth t (skipBlanks rest)
    | _ => .error .malformed

end

/-- What a line says. -/
inductive Statement
  /-- Open a table. -/
  | table (path : List String)
  /-- Open a new item of an array of tables. -/
  | item (path : List String)
  /-- Write a value at a key of the open table. -/
  | entry (path : List String) (v : Value)

/-- The key of a header, from after its opening brackets; as many brackets must
close it. -/
def header (brackets : Nat) (cs : List Char) : Option (List String × List Char) := do
  let (path, rest) ← key (skipBlanks cs)
  return (path, ← (List.replicate brackets ']').foldlM (fun rest c => expect c rest) rest)

/-- A statement, from its first character on. -/
def statement : List Char → Reading (Statement × List Char)
  | '[' :: '[' :: rest => do
    let (path, rest) ← Reading.ofOption (header 2 rest)
    return (.item path, rest)
  | '[' :: rest => do
    let (path, rest) ← Reading.ofOption (header 1 rest)
    return (.table path, rest)
  | cs => do
    let (path, rest) ← Reading.ofOption (key cs)
    let rest ← Reading.ofOption (expect '=' rest)
    let (v, rest) ← value (2 * cs.length + 2) Reading.depthLimit (skipBlanks rest)
    return (.entry path v, rest)

/-- The end of a line: blanks and a comment may come before it. -/
def lineEnd (cs : List Char) : Option (List Char) := do
  match ← skipComment (skipBlanks cs) with
  | [] => return []
  | c :: rest => if c = '\n' then return rest else none

end Pageloom.Toml
