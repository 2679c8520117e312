import Pageloom.Text.LetterCase.Table

/-!
# Lower case

The lower-case form of a text, by the full Unicode rules: nearly every
character has a form of its own, the dotted capital I becomes two characters,
and a capital sigma becomes the final form at the end of a word. A sigma ends a
word when a letter with case stands before it and none stands after it,
characters that case ignores being passed over on both sides.

## Main definitions

* `Pageloom.Text.lowerChar` -- the lower-case form of one character, away from its neighbours
* `Pageloom.Text.lower` -- the lower-case form of a text
-/

namespace Pageloom.Text

namespace LetterCase

/-- Whether a number lies in one of the ranges. -/
def inRanges (ranges : List (Nat × Nat)) (n : Nat) : Bool :=
  ranges.any fun r => r.1 ≤ n && n ≤ r.2

/-- Whether the nearest character that is not passed over carries case. -/
def nextIsCased : List Char → Bool
  | [] => false
  | c :: rest =>
    if inRanges passedOverRanges c.toNat then nextIsCased rest else inRanges casedRanges c.toNat

end LetterCase

open LetterCase

/-- The lower-case form of one character, away from its neighbours. -/
def lowerChar (c : Char) : List Char :=
  let n := c.toNat
  if n < 0x80 then
    if 'A' ≤ c && c ≤ 'Z' then [Char.ofNat (n + 32)] else [c]
  else if n = 0x130 then ['i', Char.ofNat 0x307]
  else
    match lowerRuns.find? fun r => r.1 ≤ n && n ≤ r.2.1 && (n - r.1) % r.2.2.1 = 0 with
    | some r => [Char.ofNat (r.2.2.2 + (n - r.1))]
    | none => [c]

/-- The lower-case form of a text, given the characters already passed, the
nearest first. -/
def lowerFrom : (before : List Char) → List Char → List Char
  | _, [] => []
  | before, c :: rest =>
    let form :=
      if c.toNat = 0x3A3 then
        if nextIsCased before && !nextIsCased rest then [Char.ofNat 0x3C2] else [Char.ofNat 0x3C3]
      else lowerChar c
    form ++ lowerFrom (c :: before) rest

/-- The lower-case form of a text. -/
def lower (s : String) : String := String.ofList (lowerFrom [] s.toList)

end Pageloom.Text
