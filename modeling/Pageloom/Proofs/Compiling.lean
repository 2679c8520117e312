import Pageloom.Proofs.Outcome
import Pageloom.Settings

/-!
# When a body can be compiled

Compiling takes three things: the variables must have names, the values must be comparable with
the sigil, and every click handler must have a call expression. A body that has all this is
compiled to the plain steps, and later proofs are about these.

## Main definitions

* `Pageloom.Settings.compile_eq_ok` -- what a body that was compiled is like
* `Pageloom.Settings.compile_of_cue` -- the steps of a body all of whose click handlers have
  call expressions
-/

namespace Pageloom

theorem Element.succeedsIf_checkClick (e : Element) :
    SucceedsIf (e.isWritable = true) e.checkClick := by
  unfold checkClick
  split
  · exact .ok ‹_› ()
  · exact .inr ⟨‹_›, rfl⟩

theorem Sigil.forValues_of_cue {sigil : Sigil} {cue : Cue} (h : sigil.cue? = some cue)
    (values : List String) : sigil.forValues values = .ok cue := by
  simp only [forValues, h]

namespace Body

variable {sigil : Sigil} {cue : Cue}

mutual

/-- Where the sigil can be compared with values, only click handlers matter. -/
theorem succeedsIf_check (hcue : sigil.cue? = some cue) :
    ∀ b : Body, SucceedsIf (b.isWritable = true) (b.check sigil)
  | .element e cs => by
    rw [check, Sigil.forValues_of_cue hcue]
    exact (e.succeedsIf_checkClick.bind fun _ => succeedsIf_checkAll hcue cs).congr
      (by simp [isWritable])
  | .call _ _ => .ok rfl ()

theorem succeedsIf_checkAll (hcue : sigil.cue? = some cue) :
    ∀ cs : List Body, SucceedsIf (areWritable cs = true) (checkAll sigil cs)
  | [] => .ok rfl ()
  | c :: cs => by
    rw [checkAll]
    exact ((succeedsIf_check hcue c).bind fun _ => succeedsIf_checkAll hcue cs).congr
      (by simp [areWritable])

end

mutual

theorem isWritable_of_check : ∀ {b : Body}, b.check sigil = .ok () → b.isWritable = true
  | .element e cs, h => by
    rw [check] at h
    obtain ⟨_, _, h⟩ := except_bind_eq_ok.mp h
    obtain ⟨_, hclick, h⟩ := except_bind_eq_ok.mp h
    rcases e.succeedsIf_checkClick with ⟨hown, _⟩ | ⟨_, hfault⟩
    · simp [isWritable, hown, areWritable_of_checkAll h]
    · cases hclick.symm.trans hfault
  | .call _ _, _ => rfl

theorem areWritable_of_checkAll : ∀ {cs : List Body}, checkAll sigil cs = .ok () →
    areWritable cs = true
  | [], _ => rfl
  | c :: cs, h => by
    rw [checkAll] at h
    obtain ⟨_, hfirst, h⟩ := except_bind_eq_ok.mp h
    simp [areWritable, isWritable_of_check hfirst, areWritable_of_checkAll h]

end

end Body

namespace Settings

variable {settings : Settings} {b : Body}

/-- A body that was compiled has the plain steps, for some sigil. -/
theorem compile_eq_ok {steps : List Instruction} (h : settings.compile b = .ok steps) :
    ∃ lead cue, settings.variableLead.plainText = .ok lead ∧
      settings.sigilOf.forValues b.values = .ok cue ∧ b.isWritable = true ∧
      steps = b.compile lead cue := by
  obtain ⟨lead, hlead, h⟩ := except_bind_eq_ok.mp h
  obtain ⟨_, hcheck, h⟩ := except_bind_eq_ok.mp h
  obtain ⟨cue, hcue, h⟩ := except_bind_eq_ok.mp h
  cases h
  exact ⟨lead, cue, hlead, hcue, Body.isWritable_of_check hcheck, rfl⟩

/-- **Where variables can be named and values compared with the sigil**, a body is compiled to the
plain steps if its click handlers have call expressions, and not otherwise. -/
theorem compile_of_cue {cue : Cue} (hcue : settings.sigilOf.cue? = some cue)
    (hlead : settings.variableLead.hasText = true) (b : Body) :
    settings.compile b = if b.isWritable then .ok (b.compile settings.variableLead.plain cue)
      else .error .wrongValue := by
  simp only [compile, Value.plainText, hlead, Sigil.forValues_of_cue hcue]
  rcases b.succeedsIf_check hcue with ⟨hwritable, _, hcheck⟩ | ⟨hnot, hcheck⟩
  · rw [hwritable, hcheck]
    rfl
  · rw [if_neg hnot, hcheck]
    rfl

end Settings

end Pageloom
