import Pageloom.Reading
import Pageloom.Value.Key

/-!
# JSON

Style sheets may be written in JSON. The two infinities and the number that is
none are known by name; a name that is repeated in an object keeps its first
place and takes its last value. Half of a surrogate pair may be spelled alone, and
makes its text a broken one.

## Main definitions

* `Pageloom.Json.value` -- a value, and the characters after it
* `Pageloom.Json.read` -- the value that a text describes
-/

namespace Pageloom.Json

/-- The characters after any blanks and ends of lines. -/
def skipBlanks (cs : List Char) : List Char :=
  cs.dropWhile fun c => c = ' ' || c = '\t' || c = '\n' || c = '\r'

/-- The value of a hexadecimal digit. -/
def hexDigitValue? (c : Char) : Option Nat :=
  if c.isDigit then some (c.toNat - 48)
  else if 'a' ≤ c && c ≤ 'f' then some (c.toNat - 87)
  else if 'A' ≤ c && c ≤ 'F' then some (c.toNat - 55)
  else none

/-- The number that four hexadecimal digits give. -/
def unit? (cs : List Char) : Option Nat := do
  let ds ← (cs.take 4).mapM hexDigitValue?
  if ds.length = 4 then return ds.foldl (fun n d => n * 16 + d) 0 else none

/-- The second unit of a pair, if its escape follows. -/
def secondUnit? : List Char → Option Nat
  | '\\' :: 'u' :: rest => (unit? rest).filter fun m => 0xDC00 ≤ m && m < 0xE000
  | _ => none

/-- The piece of a code unit, with the unit after it if the two make one
character, and the number of characters that their digits and marks take. -/
def unitPiece (n : Nat) (rest : List Char) : Text.Piece × Nat :=
  if 0xD800 ≤ n && n < 0xDC00 then
    match secondUnit? rest with
    | some m => (.char (Char.ofNat (0x10000 + (n - 0xD800) * 0x400 + (m - 0xDC00))), 10)
    | none => (.half n, 4)
  else if 0xDC00 ≤ n && n < 0xE000 then (.half n, 4)
  else (.char (Char.ofNat n), 4)

/-- The piece of an escape, from after its backslash, and the number of characters
that it takes. -/
def escape : List Char → Option (Text.Piece × Nat)
  | [] => none
  | c :: rest =>
    if c = '"' || c = '\\' || c = '/' then some (.char c, 1)
    else if c = 'b' then some (.char '\x08', 1)
    else if c = 'f' then some (.char '\x0c', 1)
    else if c = 'n' then some (.char '\n', 1)
    else if c = 'r' then some (.char '\r', 1)
    else if c = 't' then some (.char '\t', 1)
    else if c = 'u' then do
      let (own, taken) := unitPiece (← unit? rest) (rest.drop 4)
      return (own, taken + 1)
    else none

/-- The pieces of a text, from after its opening quote. `skip` counts the
characters of an escape that are still to be passed over. -/
def pieces : (skip : Nat) → List Char → Option (List Text.Piece × List Char)
  | _, [] => none
  | skip + 1, _ :: rest => pieces skip rest
  | 0, c :: rest =>
    if c = '"' then some ([], rest)
    else if c = '\\' then do
      let (own, taken) ← escape rest
      let (ps, r) ← pieces taken rest
      return (own :: ps, r)
    else if c.toNat < 32 then none
    else do
      let (ps, r) ← pieces 0 rest
      return (.char c :: ps, r)

/-- A text, from after its opening quote. -/
def text (cs : List Char) : Option (Value × List Char) :=
  (pieces 0 cs).map fun t => (.ofPieces t.1, t.2)

/-- A run of digits, and what follows it. -/
def digits (cs : List Char) : List Char × List Char :=
  (cs.takeWhile Char.isDigit, cs.dropWhile Char.isDigit)

/-- The digits after a point, if a point with digits after it follows. -/
def fraction : List Char → List Char × List Char
  | '.' :: rest =>
    match digits rest with
    | ([], _) => ([], '.' :: rest)
    | t => t
  | cs => ([], cs)

/-- The exponent, if one follows. -/
def exponent? : List Char → Option (Int × List Char)
  | [] => none
  | c :: rest =>
    if c = 'e' || c = 'E' then
      let (negative, rest) := Double.takeSign rest
      match digits rest with
      | ([], _) => none
      | (ds, rest) =>
        let n : Int := Double.digitsValue ds
        some (if negative then -n else n, rest)
    else none

/-- The whole part of a number: zero, or digits that do not start with it. -/
def wholePart : List Char → Reading (List Char × List Char)
  | '0' :: rest => .ok (['0'], rest)
  | cs =>
    match digits cs with
    | ([], _) => .error .malformed
    | t => .ok t

/-- A number: an integer, unless a fraction or an exponent follows. -/
def number (cs : List Char) : Reading (Value × List Char) := do
  let (negative, rest) := match cs with
    | '-' :: rest => (true, rest)
    | cs => (false, cs)
  let (whole, rest) ← wholePart rest
  let (after, rest) := fraction rest
  let n := Double.digitsValue (whole ++ after)
  let point : Int := after.length
  match exponent? rest with
  | some (e, rest) => return (.real (Double.ofDecimal negative n (e - point)), rest)
  | none =>
    if after.isEmpty then return (.int (← Reading.integer negative whole n), rest)
    else return (.real (Double.ofDecimal negative n (-point)), rest)

/-- The values that are known by name. -/
def words : List (String × Value) :=
  [("null", .none), ("true", .bool true), ("false", .bool false), ("NaN", .real .nan),
    ("Infinity", .real (.infinite false)), ("-Infinity", .real (.infinite true))]

/-- A value that is known by name. -/
def word (cs : List Char) : Option (Value × List Char) :=
  words.findSome? fun w => (Text.dropLead? w.1.toList cs).map fun rest => (w.2, rest)

mutual

/-- A value, and the characters after it. -/
def value : (fuel depth : Nat) → List Char → Reading (Value × List Char)
  | 0, _, _ => .error .malformed
  | _, 0, _ => .error .tooDeep
  | fuel + 1, depth + 1, cs =>
    match cs with
    | '"' :: rest => Reading.ofOption (text rest)
    | '[' :: rest =>
      match skipBlanks rest with
      | ']' :: rest => .ok (.list [], rest)
      | rest => do
        let (vs, rest) ← items fuel depth rest
        return (.list vs, rest)
    | '\x7b' :: rest =>
      match skipBlanks rest with
      | '\x7d' :: rest => .ok (.table [], rest)
      | rest => do
        let (ms, rest) ← members fuel depth rest
        return ((Pairs.update [] ms).toValue, rest)
    | cs =>
      match word cs with
      | some t => .ok t
      | none => number cs

/-- The items of an array, from its first one on. -/
def items : (fuel depth : Nat) → List Char → Reading (List Value × List Char)
  | 0, _, _ => .error .malformed
  | fuel + 1, depth, cs => do
    let (v, rest) ← value fuel depth cs
    match skipBlanks rest with
    | ']' :: rest => return ([v], rest)
    | ',' :: rest =>
      let (vs, rest) ← items fuel depth (skipBlanks rest)
      return (v :: vs, rest)
    | _ => .error .malformed

/-- The members of an object, from the first one on. -/
def members : (fuel depth : Nat) → List Char → Reading (Pairs × List Char)
  | 0, _, _ => .error .malformed
  | fuel + 1, depth, cs =>
    match cs with
    | '"' :: rest => do
      let (name, rest) ← Reading.ofOption (text rest)
      match skipBlanks rest with
      | ':' :: rest =>
        let (v, rest) ← value fuel depth (skipBlanks rest)
        match skipBlanks rest with
        | '\x7d' :: rest => return ([(name, v)], rest)
        | ',' :: rest =>
          let (ms, rest) ← members fuel depth (skipBlanks rest)
          return ((name, v) :: ms, rest)
        | _ => .error .malformed
      | _ => .error .malformed
    | _ => .error .malformed

end

/-- The value that a text describes. -/
def read (s : String) : Reading Value := do
  let (v, rest) ← value (2 * s.length + 2) Reading.depthLimit (skipBlanks s.toList)
  if (skipBlanks rest).isEmpty then return v else .error .malformed

end Pageloom.Json
