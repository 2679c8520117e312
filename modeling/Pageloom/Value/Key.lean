import Pageloom.Value

/-!
# Names of any kind

The names of a table are texts, as a rule. A table that was made from a list of
pairs may have names of other kinds: numbers, tuples, nodes. Two names are one
when they are equal as values, numbers being compared across their kinds, so `1`,
`1.0` and `True` are one name. A value that may change is no name.

## Main definitions

* `Pageloom.Value.same` -- equality of values
* `Pageloom.Value.isKey` -- whether a value may stand as a name
* `Pageloom.Pairs` -- entries with names of any kind
* `Pageloom.Pairs.toValue` -- the table with given entries
* `Pageloom.Value.pairs?` -- the entries of a table of any kind
-/

namespace Pageloom

/-- A scalar as an integer; only integers and truth values are meant. -/
def Scalar.asInt : Scalar → Int
  | .int n => n
  | .bool b => if b then 1 else 0
  | _ => 0

/-- Equality of scalars, numbers and truth values being compared as numbers. -/
def Scalar.same : Scalar → Scalar → Bool
  | .text s, .text t => s = t
  | .text _, _ => false
  | _, .text _ => false
  | .real x, .real y => x.same y
  | .real x, t => x.isInt t.asInt
  | s, .real y => y.isInt s.asInt
  | s, t => s.asInt = t.asInt

namespace Value

mutual

/-- Equality of values. Tables are equal whatever the order of their entries. -/
def same : Value → Value → Bool
  | .none, .none => true
  | .scalar s, .scalar t => s.same t
  | .brokenText ps, .brokenText qs => ps = qs
  | .list xs, .list ys => sameItems xs ys
  | .tuple xs, .tuple ys => sameItems xs ys
  | .table es, .table fs => es.length = fs.length && sameEntries es fs
  | .table es, .view fs => es.length = fs.length && sameEntries es fs
  | .view es, .table fs => es.length = fs.length && sameEntries es fs
  | .view es, .view fs => es.length = fs.length && sameEntries es fs
  | .dictionary es, .dictionary fs => es.length = fs.length && samePairs es fs
  | .handler h, .handler k => h = k
  | .bytes s, .bytes t => s = t
  | .emptySet, .emptySet => true
  | .callable c, .callable d => c = d
  | .node h, .node k => h.id = k.id
  | _, _ => false

/-- Equality of values, one by one. -/
def sameItems : List Value → List Value → Bool
  | [], [] => true
  | x :: xs, y :: ys => same x y && sameItems xs ys
  | _, _ => false

/-- Whether every entry has an equal one with its name. -/
def sameEntries : List (String × Value) → List (String × Value) → Bool
  | [], _ => true
  | (k, v) :: es, fs =>
    (match Entries.get? fs k with
      | some w => same v w
      | Option.none => false) && sameEntries es fs

/-- Whether every entry has an equal one, names being of any kind. -/
def samePairs : List (Value × Value) → List (Value × Value) → Bool
  | [], _ => true
  | (k, v) :: es, fs => (fs.any fun f => same k f.1 && same v f.2) && samePairs es fs

end

mutual

/-- Whether a value may stand as a name: it may not change. -/
def isKey : Value → Bool
  | .list _ | .table _ | .view _ | .dictionary _ | .emptySet => false
  | .handler (.call ..) => false
  | .tuple xs => areKeys xs
  | _ => true

/-- Whether every value of a list may stand as a name. -/
def areKeys : List Value → Bool
  | [] => true
  | x :: xs => isKey x && areKeys xs

end

/-- The text of a value that is one. -/
def text? : Value → Option String
  | .scalar (.text s) => some s
  | _ => Option.none

/-- The text of a value that is one, whether broken or not. A broken one has its
halves filled in. -/
def words? : Value → Option String
  | .brokenText pieces => some (Text.filled pieces)
  | v => v.text?

/-- The fault of a name that is no text where it is used as one. -/
def nameFault : Value → Fault
  | .bytes _ => .wrongKind
  | _ => .unsupported

end Value

/-- Entries with names of any kind, in the order in which the names were first
written. -/
abbrev Pairs := List (Value × Value)

namespace Pairs

/-- The value of the first entry whose name is the given text. -/
def get? : Pairs → String → Option Value
  | [], _ => none
  | (k, v) :: rest, name => if k.text? = some name then some v else get? rest name

/-- Replace the value of the first entry with an equal name, or add one at the
end. -/
def set : Pairs → Value → Value → Pairs
  | [], k, v => [(k, v)]
  | (j, w) :: rest, k, v => if j.same k then (j, v) :: rest else (j, w) :: set rest k v

/-- Drop every entry whose name is the given text. -/
def erase (ps : Pairs) (name : String) : Pairs := ps.filter fun e => e.1.text? ≠ some name

/-- Write the entries of `qs` into `ps`, one by one. -/
def update (ps qs : Pairs) : Pairs := qs.foldl (fun acc e => set acc e.1 e.2) ps

/-- The entries whose names are texts. -/
def texts (ps : Pairs) : Entries Value :=
  ps.filterMap fun e => e.1.text?.map fun name => (name, e.2)

/-- The entries whose names are texts, whether broken or not. -/
def worded (ps : Pairs) : Entries Value :=
  ps.filterMap fun e => e.1.words?.map fun name => (name, e.2)

/-- Entries with texts as names, among names of any kind. -/
def ofEntries (es : Entries Value) : Pairs := es.map fun e => (.text e.1, e.2)

/-- The table with given entries. -/
def toValue (ps : Pairs) : Value :=
  if ps.all fun e => e.1.text?.isSome then .table ps.texts else .dictionary ps

end Pairs

namespace Value

/-- The entries of a table of any kind. -/
def pairs? : Value → Option Pairs
  | .table es => some (Pairs.ofEntries es)
  | .view es => some (Pairs.ofEntries es)
  | .dictionary es => some es
  | _ => Option.none

/-- Whether a value is a table of any kind. -/
def isTable (v : Value) : Bool := v.pairs?.isSome

/-- The entries of a table that may be written. -/
def ownPairs? : Value → Option Pairs
  | .table es => some (Pairs.ofEntries es)
  | .dictionary es => some es
  | _ => Option.none

end Value

end Pageloom
