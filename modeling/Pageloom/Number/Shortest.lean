import Pageloom.Number.Double

/-!
# Shortest decimals

The text of a double is the decimal with the fewest digits that reads back to
it, and of those the nearest one. The reals that round to a double form an
interval around it; for one, two, up to seventeen digits the two neighbours of
the double on that decimal grid are tested for lying in the interval.

Numbers from `0.0001` up to, but not including, `10 ^ 16` are written
positionally with at least one digit after the point. All others have an
exponent with a sign and at least two digits.

## Main definitions

* `Pageloom.Double.shortest` -- the digits and the place of the decimal point
* `Pageloom.Double.text` -- a double as text
-/

namespace Pageloom

namespace Double

/-- The number of decimal digits of a natural number, none for zero. -/
def digitCount (n : Nat) : Nat := if n = 0 then 0 else (Nat.toDigits 10 n).length

/-- The exponent `k` with `10 ^ k ≤ num / den < 10 ^ (k + 1)`, for a positive quotient. -/
def decimalExponent (num den : Nat) : Int :=
  if den ≤ num then (digitCount (num / den) : Int) - 1
  else -(digitCount ((den + num - 1) / num - 1) : Int)

/-- Compare `c * 10 ^ k` with `num / den`. -/
def compareGrid (c : Nat) (k : Int) (num den : Nat) : Ordering :=
  if 0 ≤ k then compare (c * tenPow k * den) num
  else compare (c * den) (num * tenPow (-k))

/-- The floor of `num / den / 10 ^ k`. -/
def floorGrid (k : Int) (num den : Nat) : Nat :=
  if 0 ≤ k then num / (den * tenPow k) else num * tenPow (-k) / den

/-- Whether the lower neighbour `c` on the grid is nearer to `num / den` than
`c + 1`; a tie goes to the even one. -/
def lowerIsNearer (c : Nat) (k : Int) (num den : Nat) : Bool :=
  -- the middle between the neighbours, in halves of a grid step
  match compareGrid (2 * c + 1) k (2 * num) den with
  | .gt => true
  | .lt => false
  | .eq => c % 2 = 0

/-- Drop the zeros at the end of a digit string, counting them. -/
def dropZeros : (fuel digits : Nat) → Int → Nat × Int
  | 0, digits, k => (digits, k)
  | fuel + 1, digits, k =>
    if digits ≠ 0 && digits % 10 = 0 then dropZeros fuel (digits / 10) (k + 1) else (digits, k)

/-- Search the decimal grids from the coarsest, given the number of digits
already tried and how many more may be tried. -/
def searchGrids (value lo hi : Nat) (den : Nat) (closed : Bool) (top : Int) :
    (fuel tried : Nat) → Nat × Int
  | 0, tried => (floorGrid (top - tried) value den, top - tried)
  | fuel + 1, tried =>
    let k := top - tried
    let c := floorGrid k value den
    let inside (c : Nat) : Bool :=
      match compareGrid c k lo den, compareGrid c k hi den with
      | .lt, _ => false
      | _, .gt => false
      | .eq, _ => closed
      | _, .eq => closed
      | _, _ => true
    match inside c, inside (c + 1) with
    | true, true => if lowerIsNearer c k value den then (c, k) else (c + 1, k)
    | true, false => (c, k)
    | false, true => (c + 1, k)
    | false, false => searchGrids value lo hi den closed top fuel (tried + 1)

/-- The digits and the decimal exponent of the shortest decimal that reads back
to `mantissa * 2 ^ exponent`. The ends of the interval of reals that round to it
belong to it when the mantissa is even; below a power of two the interval is
narrower. Everything is counted in quarters of the last binary place. -/
def shortest (mantissa : Nat) (exponent : Int) : Nat × Int :=
  let narrow := mantissa = twoPow 52 && leastExponent < exponent
  let value := 4 * mantissa
  let lo := value - (if narrow then 1 else 2)
  let hi := value + 2
  let q := exponent - 2
  let up := if 0 ≤ q then twoPow q else 1
  let den := if 0 ≤ q then 1 else twoPow (-q)
  let top := decimalExponent (value * up) den
  let found := searchGrids (value * up) (lo * up) (hi * up) den (mantissa % 2 = 0) top 17 0
  dropZeros 20 found.1 found.2

/-- An exponent with its sign and at least two digits. -/
def exponentText (e : Int) : String :=
  let digits := Nat.repr e.natAbs
  let padded := if digits.length < 2 then "0" ++ digits else digits
  (if e < 0 then "e-" else "e+") ++ padded

/-- A positive finite number, given its digits and the exponent of the last of them. -/
def decimalText (digits : Nat) (k : Int) : String :=
  let ds := Nat.toDigits 10 digits
  let point : Int := ds.length + k
  if -4 < point && point ≤ 16 then
    if point ≤ 0 then
      "0." ++ String.ofList (List.replicate (-point).toNat '0' ++ ds)
    else if (ds.length : Int) ≤ point then
      String.ofList (ds ++ List.replicate (point.toNat - ds.length) '0') ++ ".0"
    else
      String.ofList (ds.take point.toNat ++ '.' :: ds.drop point.toNat)
  else
    let lead := match ds with
      | [] => []
      | [d] => [d]
      | d :: rest => d :: '.' :: rest
    String.ofList lead ++ exponentText (point - 1)

/-- A double as text. -/
def text : Double → String
  | .nan => "nan"
  | .infinite negative => if negative then "-inf" else "inf"
  | .finite negative mantissa exponent =>
    let sign := if negative then "-" else ""
    if mantissa = 0 then sign ++ "0.0"
    else
      let (digits, k) := shortest mantissa exponent
      sign ++ decimalText digits k

/-- A double in a script: the names of the special values are the script's own. -/
def literal : Double → String
  | .nan => "NaN"
  | .infinite negative => if negative then "-Infinity" else "Infinity"
  | x => text x

end Double

end Pageloom
