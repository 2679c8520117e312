import Pageloom.Value.Key
import Pageloom.Value.Text

/-!
# References

A value that begins with the sigil, and goes on after it, is not text but the
name of a parameter whose value is filled in when the page is live.

A sigil is a text, as a rule. Settings may hold another value of one item: a
tuple of one text is compared as that text is, and counts as one character; a
value of any other kind cannot be compared with a text at all.

## Main definitions

* `Pageloom.Cue` -- what references begin with
* `Pageloom.referenceName?` -- the name a value refers to
* `Pageloom.Sigil` -- the sigil of a build
* `Pageloom.Sigil.forValues` -- what the references among given values begin with
-/

namespace Pageloom

/-- The sigil of a build that sets none. -/
def standardSigil : String := "$"

/-- What references begin with: a text, and the number of characters that stand
before the name. -/
structure Cue where
  lead : String
  width : Nat
  deriving DecidableEq

/-- The cue of a text, all of which stands before the name. -/
def Cue.ofText (s : String) : Cue := ⟨s, s.length⟩

/-- The name a value refers to: what follows the sigil, if anything does. An
empty sigil makes every value that is not empty a reference. -/
def referenceName? (cue : Cue) (value : String) : Option String :=
  if Text.startsWith value cue.lead && cue.width < value.length then
    some (String.ofList (value.toList.drop cue.width))
  else none

/-- The sigil of a build: `plain` is what stands before the name of a parameter,
unless the sigil has no text, and `cue?` is what references begin with, unless no
value can be one. -/
structure Sigil where
  cue? : Option Cue
  plain : String
  isWritable : Bool := true
  deriving DecidableEq

namespace Sigil

/-- A text as a sigil. -/
def ofText (s : String) : Sigil := { cue? := some (.ofText s), plain := s }

/-- What references begin with under a sigil: itself, or the only item of a tuple. -/
def cueOf? : Value → Option Cue
  | .tuple [v] => v.words?.map fun s => ⟨s, 1⟩
  | v => v.words?.map Cue.ofText

/-- A value as a sigil. -/
def ofValue (v : Value) : Sigil :=
  { cue? := cueOf? v, plain := v.plain, isWritable := v.hasText }

/-- What the references among given values begin with. A sigil that cannot be
compared with a value is a fault as soon as there is one. -/
def forValues (s : Sigil) (values : List String) : Except Fault Cue :=
  match s.cue? with
  | some cue => .ok cue
  | none => if values.isEmpty then .ok (.ofText "") else .error .wrongKind

end Sigil

end Pageloom
