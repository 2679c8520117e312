import Pageloom.Collection
import Pageloom.Session

/-!
# Previews

A session in which every component of a build has its factory, made of the same
steps that its script holds.

## Main definitions

* `Pageloom.Settings.preview` -- the session
-/

namespace Pageloom

/-- A session with the factories of given components. -/
def Settings.preview (s : Settings) (components : List Component) (session : Session) :
    Except Fault Session :=
  components.foldlM (fun session c => do
    let steps ← s.compile c.body
    return session.register c.boundary.key ⟨.steps c.boundary.parameters steps, false⟩) session

end Pageloom
