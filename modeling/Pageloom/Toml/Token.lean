import Pageloom.Reading
import Pageloom.Value

/-!
# The small parts of TOML

Keys, texts, numbers, dates and times. Each reader takes the characters from
where its part starts and gives the part with the characters after it. Lines end
in line feeds.

## Main definitions

* `Pageloom.Toml.key` -- a dotted key
* `Pageloom.Toml.basicText`, `Pageloom.Toml.literalText` -- texts
* `Pageloom.Toml.number` -- integers and doubles
* `Pageloom.Toml.moment` -- dates and times
-/

namespace Pageloom.Toml

/-! ## Blanks and comments -/

/-- A space or a tab. -/
def isBlank (c : Char) : Bool := c = ' ' || c = '\t'

/-- The characters after any spaces and tabs. -/
def skipBlanks (cs : List Char) : List Char := cs.dropWhile isBlank

/-- A control character other than the tab; no comment and no text on one line
may hold one. -/
def isForbidden (c : Char) : Bool := (c.toNat < 32 || c.toNat = 127) && c ≠ '\t'

/-- The characters after a comment, from the end of its line on. -/
def skipComment : List Char → Option (List Char)
  | '#' :: rest =>
    if (rest.takeWhile (· ≠ '\n')).any isForbidden then none
    else some (rest.dropWhile (· ≠ '\n'))
  | cs => some cs

/-- The characters after any blanks, ends of lines and comments, from within a
comment or from outside. -/
def skipLines : (inComment : Bool) → List Char → Option (List Char)
  | _, [] => some []
  | true, c :: cs =>
    if c = '\n' then skipLines false cs
    else if isForbidden c then none
    else skipLines true cs
  | false, c :: cs =>
    if isBlank c || c = '\n' then skipLines false cs
    else if c = '#' then skipLines true cs
    else some (c :: cs)

/-! ## Texts -/

/-- The value of a digit of any base up to sixteen. -/
def digitValue (c : Char) : Nat :=
  if c.isDigit then c.toNat - 48
  else if 'a' ≤ c && c ≤ 'f' then c.toNat - 87
  else c.toNat - 55

/-- A hexadecimal digit. -/
def isHexDigit (c : Char) : Bool :=
  c.isDigit || ('a' ≤ c && c ≤ 'f') || ('A' ≤ c && c ≤ 'F')

/-- The value of digits in a base. -/
def valueIn (base : Nat) (ds : List Char) : Nat :=
  ds.foldl (fun n c => n * base + digitValue c) 0

/-- The character with a hexadecimal number of a given length. -/
def hexCharacter (length : Nat) (cs : List Char) : Option Char :=
  let ds := cs.take length
  let n := valueIn 16 ds
  if ds.length = length && ds.all isHexDigit && Nat.isValidChar n then some (Char.ofNat n)
  else none

/-- The blanks and ends of lines that a backslash at the end of a line folds, if it
stands there. -/
def fold? (cs : List Char) : Option (List Char) :=
  match skipBlanks cs with
  | '\n' :: _ => some (cs.takeWhile fun c => isBlank c || c = '\n')
  | _ => none

/-- What an escape stands for, from after its backslash, and the number of
characters that it takes. Only a text on several lines may fold lines. -/
def escape (multiline : Bool) : List Char → Option (List Char × Nat)
  | [] => none
  | c :: rest =>
    if c = 'b' then some (['\x08'], 1)
    else if c = 't' then some (['\t'], 1)
    else if c = 'n' then some (['\n'], 1)
    else if c = 'f' then some (['\x0c'], 1)
    else if c = 'r' then some (['\r'], 1)
    else if c = '"' then some (['"'], 1)
    else if c = '\\' then some (['\\'], 1)
    else if c = 'u' then (hexCharacter 4 rest).map fun own => ([own], 5)
    else if c = 'U' then (hexCharacter 8 rest).map fun own => ([own], 9)
    else if multiline then (fold? (c :: rest)).map fun folded => ([], folded.length)
    else none

/-- The characters of a text with escapes, from after its opening quote. One
quote ends a text on one line, and three a text on several lines. `skip` counts the
characters of an escape that are still to be passed over. -/
def basicCharacters (multiline : Bool) : (skip : Nat) → List Char → Option (List Char × List Char)
  | _, [] => none
  | skip + 1, _ :: rest => basicCharacters multiline skip rest
  | 0, '"' :: rest =>
    if !multiline then some ([], rest)
    else match rest with
      | '"' :: '"' :: more => some ([], more)
      | _ => do
        let (cs, r) ← basicCharacters multiline 0 rest
        return ('"' :: cs, r)
  | 0, '\\' :: rest => do
    let (own, taken) ← escape multiline rest
    let (cs, r) ← basicCharacters multiline taken rest
    return (own ++ cs, r)
  | 0, c :: rest =>
    if isForbidden c && !(multiline && c = '\n') then none
    else do
      let (cs, r) ← basicCharacters multiline 0 rest
      return (c :: cs, r)

/-- A text with escapes on one line, from after its opening quote. -/
def basicText (cs : List Char) : Option (String × List Char) :=
  (basicCharacters false 0 cs).map fun t => (String.ofList t.1, t.2)

/-- The mark of a text without escapes. -/
def apostrophe : Char := '\x27'

/-- A text without escapes on one line, from after its opening mark. -/
def literalText (cs : List Char) : Option (String × List Char) :=
  let body := cs.takeWhile (· ≠ apostrophe)
  match cs.drop body.length with
  | [] => none
  | _ :: rest => if body.any isForbidden then none else some (String.ofList body, rest)

/-- Up to two more marks may stand before the three that end a text on several
lines; they belong to the text. -/
def extraMarks (mark : Char) (t : List Char × List Char) : String × List Char :=
  let extra := (t.2.take 2).takeWhile (· = mark)
  (String.ofList (t.1 ++ extra), t.2.drop extra.length)

/-- The characters without the end of line that may follow the opening marks of a
text on several lines. -/
def skipFirstLineEnd : List Char → List Char
  | '\n' :: rest => rest
  | cs => cs

/-- A text with escapes on several lines, from after its opening quotes. -/
def basicLines (cs : List Char) : Option (String × List Char) :=
  (basicCharacters true 0 (skipFirstLineEnd cs)).map (extraMarks '"')

/-- The characters before and after the first three marks in a row. -/
def cutAtMarks : List Char → Option (List Char × List Char)
  | [] => none
  | c :: rest =>
    match Text.dropLead? [apostrophe, apostrophe, apostrophe] (c :: rest) with
    | some after => some ([], after)
    | none => (cutAtMarks rest).map fun t => (c :: t.1, t.2)

/-- A text without escapes on several lines, from after its opening marks. -/
def literalLines (cs : List Char) : Option (String × List Char) := do
  let (body, rest) ← cutAtMarks (skipFirstLineEnd cs)
  if body.any fun c => isForbidden c && c ≠ '\n' then none
  else return extraMarks apostrophe (body, rest)

/-! ## Keys -/

/-- A character of a key without quotes. -/
def isBare (c : Char) : Bool := c.isAlphanum || c = '-' || c = '_'

/-- One part of a key. -/
def keyPart : List Char → Option (String × List Char)
  | [] => none
  | c :: rest =>
    if c = '"' then basicText rest
    else if c = apostrophe then literalText rest
    else if isBare c then
      some (String.ofList ((c :: rest).takeWhile isBare), (c :: rest).dropWhile isBare)
    else none

/-- A dotted key, and the characters after it and the blanks that follow. -/
def dottedKey : (fuel : Nat) → List Char → Option (List String × List Char)
  | 0, _ => none
  | fuel + 1, cs => do
    let (part, rest) ← keyPart cs
    match skipBlanks rest with
    | '.' :: more =>
      let (parts, rest) ← dottedKey fuel (skipBlanks more)
      return (part :: parts, rest)
    | rest => return ([part], rest)

/-- A dotted key, and the characters after it and the blanks that follow. -/
def key (cs : List Char) : Option (List String × List Char) := dottedKey (cs.length + 1) cs

/-! ## Numbers -/

/-- An integer in a base, from after its mark. -/
def radixNumber (base : Nat) (isDigit : Char → Bool) (cs : List Char) :
    Option (Value × List Char) :=
  match Double.takeRun isDigit cs with
  | ([], _) => none
  | (ds, rest) => some (.int (valueIn base ds), rest)

/-- The whole part of a decimal: zero, or digits that do not start with it. -/
def wholePart : List Char → Option (List Char × List Char)
  | '0' :: rest => some (['0'], rest)
  | cs =>
    match Double.takeDigits cs with
    | ([], _) => none
    | (ds, rest) => some (ds, rest)

/-- The digits after a point, if a point with digits after it follows. -/
def fractionPart : List Char → List Char × List Char
  | '.' :: rest =>
    match Double.takeDigits rest with
    | ([], _) => ([], '.' :: rest)
    | (ds, rest) => (ds, rest)
  | cs => ([], cs)

/-- The exponent, if one follows. -/
def exponentPart (cs : List Char) : Option (Int × List Char) :=
  match cs with
  | [] => none
  | c :: rest =>
    if c = 'e' || c = 'E' then
      let (negative, rest) := Double.takeSign rest
      match Double.takeDigits rest with
      | ([], _) => none
      | (ds, rest) =>
        let n : Int := Double.digitsValue ds
        some (if negative then -n else n, rest)
    else none

/-- A decimal number: an integer, unless a fraction or an exponent follows. -/
def decimal (cs : List Char) : Reading (Value × List Char) := do
  let (negative, rest) := Double.takeSign cs
  let (whole, rest) ← Reading.ofOption (wholePart rest)
  let (fraction, rest) := fractionPart rest
  let digits := Double.digitsValue (whole ++ fraction)
  let point : Int := fraction.length
  match exponentPart rest with
  | some (e, rest) => return (.real (Double.ofDecimal negative digits (e - point)), rest)
  | none =>
    if fraction.isEmpty then return (.int (← Reading.integer negative whole digits), rest)
    else return (.real (Double.ofDecimal negative digits (-point)), rest)

/-- A number. Only a decimal one may have too many digits. -/
def number : List Char → Reading (Value × List Char)
  | '0' :: 'x' :: rest => Reading.ofOption (radixNumber 16 isHexDigit rest)
  | '0' :: 'o' :: rest => Reading.ofOption (radixNumber 8 (fun c => '0' ≤ c && c ≤ '7') rest)
  | '0' :: 'b' :: rest => Reading.ofOption (radixNumber 2 (fun c => c = '0' || c = '1') rest)
  | cs => decimal cs

/-- An infinity, or the number that is none. -/
def specialNumber (cs : List Char) : Option (Value × List Char) :=
  let (negative, rest) := Double.takeSign cs
  match rest with
  | 'i' :: 'n' :: 'f' :: rest => some (.real (.infinite negative), rest)
  | 'n' :: 'a' :: 'n' :: rest => some (.real .nan, rest)
  | _ => none

/-! ## Dates and times -/

/-- A number of a given count of digits. -/
def fixedNumber (count : Nat) (cs : List Char) : Option (Nat × List Char) :=
  let ds := cs.take count
  if ds.length = count && ds.all Char.isDigit then some (Double.digitsValue ds, cs.drop count)
  else none

/-- A given character. -/
def expect (c : Char) : List Char → Option (List Char)
  | d :: rest => if d = c then some rest else none
  | [] => none

/-- The microseconds of a fraction of a second, if one follows. Digits beyond the
sixth are dropped. -/
def microseconds : List Char → Nat × List Char
  | '.' :: rest =>
    let ds := rest.takeWhile Char.isDigit
    if ds.isEmpty then (0, '.' :: rest)
    else
      let six := ds.take 6
      (Double.digitsValue six * Nat.pow 10 (6 - six.length), rest.drop ds.length)
  | cs => (0, cs)

/-- A time of day. -/
def clock (cs : List Char) : Option (Clock × List Char) := do
  let (hour, rest) ← fixedNumber 2 cs
  let rest ← expect ':' rest
  let (minute, rest) ← fixedNumber 2 rest
  let rest ← expect ':' rest
  let (second, rest) ← fixedNumber 2 rest
  if 23 < hour || 59 < minute || 59 < second then none
  else
    let (micro, rest) := microseconds rest
    return (⟨hour, minute, second, micro⟩, rest)

/-- A date. The calendar may still not have it. -/
def day (cs : List Char) : Option (Day × List Char) := do
  let (year, rest) ← fixedNumber 4 cs
  let rest ← expect '-' rest
  let (month, rest) ← fixedNumber 2 rest
  let rest ← expect '-' rest
  let (d, rest) ← fixedNumber 2 rest
  if month = 0 || 12 < month || d = 0 || 31 < d then none
  else return (⟨year, month, d⟩, rest)

/-- An offset from universal time in minutes, if one follows. -/
def offset (cs : List Char) : Option Int × List Char :=
  match cs with
  | [] => (none, [])
  | c :: rest =>
    if c = 'Z' || c = 'z' then (some 0, rest)
    else if c = '+' || c = '-' then
      let read : Option (Nat × List Char) := do
        let (hours, rest) ← fixedNumber 2 rest
        let rest ← expect ':' rest
        let (minutes, rest) ← fixedNumber 2 rest
        if 23 < hours || 59 < minutes then none else return (hours * 60 + minutes, rest)
      match read with
      | some (n, rest) => (some (if c = '-' then -(n : Int) else n), rest)
      | none => (none, cs)
    else (none, cs)

/-- A date, with a time if one follows, from after the date. -/
def momentOn (d : Day) (cs : List Char) : Moment × List Char :=
  match cs with
  | [] => (.date d, [])
  | c :: rest =>
    if c = 'T' || c = 't' || c = ' ' then
      match clock rest with
      | some (time, rest) =>
        let (shift, rest) := offset rest
        (.both d time shift, rest)
      | none => (.date d, cs)
    else (.date d, cs)

/-- A date, a time of day, or both. The result is `some none` for a date that the
calendar does not have, and `none` where there is no date and no time. -/
def moment (cs : List Char) : Option (Option (Moment × List Char)) :=
  match day cs with
  | some (d, rest) => some (if d.valid then some (momentOn d rest) else none)
  | none => (clock cs).map fun t => some (.time t.1, t.2)

end Pageloom.Toml
