/-!
# Identity tokens

Every element carries a token that ties its markup to the script that rebuilds
it. Tokens are a fixed text followed by a running number, so two tokens of one
counter differ until it is reset.

## Main definitions

* `Pageloom.Counter` -- a source of tokens
* `Pageloom.Counter.next` -- the next token
* `Pageloom.Counter.issued` -- how many tokens were given out
-/

namespace Pageloom

/-- A source of tokens: the text in front of the number, the number it starts
after, and the last number given out. -/
structure Counter where
  lead : String
  start : Int
  last : Int
  deriving DecidableEq

namespace Counter

/-- The text in front of a token's number, unless a build sets its own. -/
def standardLead : String := "df-el-"

/-- A counter that has given out nothing yet. -/
def fresh (lead : String) (start : Int) : Counter := ⟨lead, start, start⟩

/-- The next token, and the counter after it. -/
def next (c : Counter) : String × Counter :=
  let n := c.last + 1
  (c.lead ++ Int.repr n, { c with last := n })

/-- Start over. -/
def reset (c : Counter) : Counter := { c with last := c.start }

/-- The number of tokens given out since the last start. -/
def issued (c : Counter) : Int := c.last - c.start

end Counter

end Pageloom
