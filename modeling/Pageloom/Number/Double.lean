import Pageloom.Text.Digit

/-!
# Binary floating-point numbers

A double is kept in exact form: a sign, a natural mantissa and a power of two.
Reading a decimal is exact arithmetic followed by one rounding, so what a
number means and how it is rounded can be stated without any machine operation.

## Main definitions

* `Pageloom.Double` -- a double-precision number
* `Pageloom.Double.ofRatio` -- the double nearest to a quotient, ties to even
* `Pageloom.Double.ofDecimal` -- the double nearest to a decimal
* `Pageloom.Double.read?` -- read the usual notations, infinities and `nan`
-/

namespace Pageloom

/-- A double-precision number. A finite one is `mantissa * 2 ^ exponent`, with a
sign that is kept also for zero. -/
inductive Double
  | nan
  | infinite (negative : Bool)
  | finite (negative : Bool) (mantissa : Nat) (exponent : Int)
  deriving DecidableEq

namespace Double

/-- The exponent of the smallest positive double. -/
def leastExponent : Int := -1074

/-- The largest exponent of a finite double. -/
def greatestExponent : Int := 971

/-- A quotient rounded to a natural number, a half going to the even neighbour. -/
def roundDiv (num den : Nat) : Nat :=
  let q := num / den
  let r := num % den
  if 2 * r < den then q
  else if den < 2 * r then q + 1
  else if q % 2 = 0 then q else q + 1

/-- The power of two with an exponent that is not negative. -/
def twoPow (e : Int) : Nat := Nat.pow 2 e.toNat

/-- The power of ten with an exponent that is not negative. -/
def tenPow (e : Int) : Nat := Nat.pow 10 e.toNat

/-- The quotient `num / den` divided by `2 ^ e`, as a numerator and a denominator. -/
def scaled (num den : Nat) (e : Int) : Nat × Nat :=
  if 0 ≤ e then (num, den * twoPow e) else (num * twoPow (-e), den)

/-- The double nearest to `num / den`, ties to even. The exponent is the one for
which the mantissa has 53 bits, or the least one for a smaller number. -/
def ofRatio (negative : Bool) (num den : Nat) : Double :=
  if num = 0 then .finite negative 0 leastExponent
  else
    let guess : Int := (Nat.log2 num : Int) - (Nat.log2 den : Int) - 52
    let below := scaled num den guess
    let full := if below.1 / below.2 < twoPow 52 then guess - 1 else guess
    let e := max full leastExponent
    let place := scaled num den e
    let m := roundDiv place.1 place.2
    let (m, e) := if m = twoPow 53 then (twoPow 52, e + 1) else (m, e)
    if greatestExponent < e then .infinite negative else .finite negative m e

/-- The double nearest to `digits * 10 ^ exponent`. Numbers far outside the
range of doubles are settled by their magnitude alone. -/
def ofDecimal (negative : Bool) (digits : Nat) (exponent : Int) : Double :=
  let magnitude := ((Nat.toDigits 10 digits).length : Int) + exponent
  if digits = 0 || magnitude < -400 then .finite negative 0 leastExponent
  else if 400 < magnitude then .infinite negative
  else if 0 ≤ exponent then ofRatio negative (digits * tenPow exponent) 1
  else ofRatio negative digits (tenPow (-exponent))

/-- The value of a run of decimal digits. -/
def digitsValue (cs : List Char) : Nat := cs.foldl (fun n c => n * 10 + (c.toNat - 48)) 0

/-- A run of digits of some kind, single underscores between digits being passed
over, and what follows it. -/
def takeRun (isDigit : Char → Bool) : List Char → List Char × List Char
  | [] => ([], [])
  | c :: '_' :: d :: more =>
    if !isDigit c then ([], c :: '_' :: d :: more)
    else if isDigit d then
      let (ds, r) := takeRun isDigit (d :: more)
      (c :: ds, r)
    else ([c], '_' :: d :: more)
  | c :: rest =>
    if isDigit c then
      let (ds, r) := takeRun isDigit rest
      (c :: ds, r)
    else ([], c :: rest)

/-- A run of decimal digits, and what follows it. -/
def takeDigits (cs : List Char) : List Char × List Char := takeRun Char.isDigit cs

/-- A sign, if there is one, and what follows it. -/
def takeSign : List Char → Bool × List Char
  | '-' :: rest => (true, rest)
  | '+' :: rest => (false, rest)
  | cs => (false, cs)

/-- An unsigned decimal: digits with at most one point among them, at least one
digit, and at most one exponent. -/
def readUnsigned? (negative : Bool) (cs : List Char) : Option Double :=
  let (whole, rest) := takeDigits cs
  let (fraction, rest) := match rest with
    | '.' :: more => takeDigits more
    | _ => ([], rest)
  if whole.isEmpty && fraction.isEmpty then none
  else
    let digits := digitsValue (whole ++ fraction)
    let point : Int := fraction.length
    match rest with
    | [] => some (ofDecimal negative digits (-point))
    | c :: more =>
      if c = 'e' || c = 'E' then
        let (down, more) := takeSign more
        match takeDigits more with
        | (d :: ds, []) =>
          let e : Int := digitsValue (d :: ds)
          some (ofDecimal negative digits ((if down then -e else e) - point))
        | _ => none
      else none

/-- Read a number in the usual notations: surrounding blanks are ignored, a sign
may stand in front, digits may be those of any script, and `inf`, `infinity` and
`nan` are known in any case. -/
def read? (s : String) : Option Double :=
  let blank (c : Char) : Bool := c = ' ' || (0x09 ≤ c.toNat && c.toNat ≤ 0x0D)
  let cs := (((Text.plainNumeral s.toList).dropWhile blank).reverse.dropWhile blank).reverse
  let (negative, cs) := takeSign cs
  let word := String.ofList (cs.map Char.toLower)
  if word = "inf" || word = "infinity" then some (.infinite negative)
  else if word = "nan" then some .nan
  else readUnsigned? negative cs

/-- Whether a double is the given integer. -/
def isInt (x : Double) (n : Int) : Bool :=
  match x with
  | .finite negative m e =>
    let signed : Int := if negative then -(m : Int) else m
    if 0 ≤ e then n = signed * twoPow e else n * twoPow (-e) = signed
  | _ => false

/-- Equality of two doubles as numbers: the two zeros are one, and what is no
number differs from everything. -/
def same : Double → Double → Bool
  | .finite a m e, .finite b k f =>
    let low := min e f
    m * twoPow (e - low) = k * twoPow (f - low) && (a = b || m = 0)
  | .infinite a, .infinite b => a = b
  | _, _ => false

/-- Whether a number counts as nothing where a condition is asked for. -/
def isZero : Double → Bool
  | .finite _ 0 _ => true
  | _ => false

end Double

end Pageloom
