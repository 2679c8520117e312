/-!
# Small edits of text

Cutting and replacing, on lists of characters so that each law is an induction
on the text.

## Main definitions

* `Pageloom.Text.dropLead?` -- what follows a given beginning
* `Pageloom.Text.replaceAll` -- replace every occurrence, scanning from the left
* `Pageloom.Text.stripTrailing` -- drop a character from the end
* `Pageloom.Text.join` -- texts with a separator between them
-/

namespace Pageloom.Text

/-- What follows `lead` at the beginning of a text, if the text begins with it. -/
def dropLead? : (lead text : List Char) → Option (List Char)
  | [], text => some text
  | _ :: _, [] => none
  | a :: lead, c :: text => if a = c then dropLead? lead text else none

/-- Whether a text begins with `lead`. -/
def startsWith (text lead : String) : Bool := (dropLead? lead.toList text.toList).isSome

/-- Whether characters occur in others, one after the other. -/
def occurs (part : List Char) : List Char → Bool
  | [] => part.isEmpty
  | c :: cs => (dropLead? part (c :: cs)).isSome || occurs part cs

/-- Whether a text occurs in another one. -/
def contains (text part : String) : Bool := occurs part.toList text.toList

/-- Whether a text ends with `tail`. -/
def endsWith (text tail : String) : Bool :=
  (dropLead? tail.toList.reverse text.toList.reverse).isSome

/-- Replace every occurrence of the characters `old`, scanning from the left, and
leave the replacement unscanned. `skip` counts the characters of an occurrence
that are still to be passed over. An empty `old` occurs nowhere. -/
def replaceFrom (old new : List Char) : (skip : Nat) → List Char → List Char
  | _, [] => []
  | skip + 1, _ :: rest => replaceFrom old new skip rest
  | 0, c :: rest =>
    if old ≠ [] && (dropLead? old (c :: rest)).isSome then
      new ++ replaceFrom old new (old.length - 1) rest
    else c :: replaceFrom old new 0 rest

/-- Replace every occurrence of `old` by `new`, scanning from the left. -/
def replaceAll (text old new : String) : String :=
  String.ofList (replaceFrom old.toList new.toList 0 text.toList)

/-- Drop every `c` from the end of a text. -/
def stripTrailing (text : String) (c : Char) : String :=
  String.ofList (text.toList.reverse.dropWhile (· == c)).reverse

/-- Texts with a separator between them. -/
def join (separator : String) (parts : List String) : String := separator.intercalate parts

/-- Cut a text at the first occurrence of a character: what precedes it, and
what follows it if it occurs. -/
def cutAt (c : Char) : List Char → List Char × Option (List Char)
  | [] => ([], none)
  | d :: rest =>
    if d = c then ([], some rest)
    else
      let (before, after) := cutAt c rest
      (d :: before, after)

end Pageloom.Text
