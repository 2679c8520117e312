/-!
# Terminal control sequences

Printed text is not meant for a terminal, so control sequences are taken out of
it: an escape character, an opening bracket, any digits, semicolons and question
marks, and a letter. An escape character that begins no such sequence stays.

## Main definitions

* `Pageloom.Text.sequenceLength?` -- the length of a sequence at the front
* `Pageloom.Text.stripSequences` -- a text without its sequences
-/

namespace Pageloom.Text

/-- Whether a character may stand between the bracket and the letter. -/
def isSequenceParameter (c : Char) : Bool := c.isDigit || c = ';' || c = '?'

/-- The length of the control sequence that a text begins with. -/
def sequenceLength? : List Char → Option Nat
  | '\x1b' :: '[' :: rest =>
    match rest.dropWhile isSequenceParameter with
    | c :: _ => if c.isAlpha then some ((rest.takeWhile isSequenceParameter).length + 3) else none
    | [] => none
  | _ => none

/-- A text without its control sequences. `skip` counts the characters of a
sequence that are still to be passed over. -/
def stripSequencesFrom : (skip : Nat) → List Char → List Char
  | _, [] => []
  | skip + 1, _ :: rest => stripSequencesFrom skip rest
  | 0, c :: rest =>
    match sequenceLength? (c :: rest) with
    | some n => stripSequencesFrom (n - 1) rest
    | none => c :: stripSequencesFrom 0 rest

/-- A text without its control sequences. -/
def stripSequences (s : String) : String := String.ofList (stripSequencesFrom 0 s.toList)

end Pageloom.Text
