import Pageloom.Proofs.LiveLinks

/-!
# Failed mounts

A mount comes to nothing where its target or its factory is missing, and it fails where the
factory fails, at whatever step and however deep in nested calls. By then nodes may have been
made, filled and linked. None of them was there before, and no node that was there before has
got to know them, so they are lost, and the session goes on as if the call had not been made. The
one thing that stays is what is remarked.

## Main definitions

* `Pageloom.Session.Intact` -- a session that is as it was
* `Pageloom.Document.Works.read_eq` -- what new nodes cannot change
* `Pageloom.Session.failed_mount_intact` -- a failed mount leaves the session intact
-/

namespace Pageloom

/-! ## Pages with more nodes -/

namespace Document

variable {S : Nat → Prop} {d e : Document}

/-- Where links lead to cells that are there, reading fails by not coming to an end. -/
theorem readWithin_eq_endless (hd : d.Sided S) {fault : Fault} : ∀ {depth i : Nat},
    i < d.cells.size → d.readWithin depth i = .error fault → fault = .endless
  | 0, _, _, h => by
    cases h
    rfl
  | depth + 1, i, hi, h => by
    obtain ⟨c, hc⟩ : ∃ c, d.cells[i]? = some c := ⟨_, Array.getElem?_eq_getElem hi⟩
    simp only [readWithin, hc] at h
    cases hchildren : c.children.mapM fun j => d.readWithin depth j with
    | ok trees =>
      rw [hchildren] at h
      cases h
    | error fault' =>
      rw [hchildren] at h
      cases h
      obtain ⟨j, hj, hread⟩ := mapM_eq_error hchildren
      exact readWithin_eq_endless hd (hd i j ⟨c, hc, .inl hj⟩).1 hread

namespace Works

variable (hwork : Works (d.cells.size ≤ ·) d e) (hd : d.Sided S)

include hwork hd

theorem grows : d.Grows e := by
  intro i c hc
  have hi : i < d.cells.size := (Array.getElem?_eq_some_iff.mp hc).1
  rw [hwork.same hd.above i (Nat.not_le_of_lt hi), hc]

/-- What can be read from an old cell is read as before. -/
theorem read_eq {i : Nat} (hi : i < d.cells.size) : e.read i = d.read i := by
  have hsided : e.Sided (d.cells.size ≤ ·) := hwork.sided hd.above
  have hsame : ∀ j, ¬ d.cells.size ≤ j → e.cells[j]? = d.cells[j]? := hwork.same hd.above
  have hold : ¬ d.cells.size ≤ i := Nat.not_le_of_lt hi
  cases hread : d.read i with
  | ok tree =>
    exact ((holds_of_readWithin hread).onSide hd.above.compl hsame hold).read
  | error fault =>
    cases hread' : e.read i with
    | ok tree =>
      -- A tree that can be read now could be read before.
      have hheld := (holds_of_readWithin hread').onSide hsided.compl
        (fun j hj => (hsame j hj).symm) hold
      rw [hheld.read] at hread
      cases hread
    | error fault' =>
      rw [readWithin_eq_endless hd hi hread,
        readWithin_eq_endless hsided (Nat.lt_of_lt_of_le hi hwork.size_le) hread']

end Works

end Document

/-! ## Intact sessions -/

/-- A session is as it was: every node says the same and has the same links, the tree of every
node is the same, and so are the registry, the cache and the requests. There may be more nodes,
remarks and recorded calls. -/
structure Session.Intact (s t : Session) : Prop where
  cells : s.document.Grows t.document
  trees : ∀ i < s.document.cells.size, t.document.read i = s.document.read i
  rest : t = { s with stage := t.stage, notices := t.notices }

theorem Session.intact_of_works {S : Nat → Prop} {s : Session} {stage : Stage}
    (hs : s.document.Sided S)
    (hwork : Document.Works (s.document.cells.size ≤ ·) s.document stage.document) :
    s.Intact { s with stage } :=
  ⟨hwork.grows hs, fun _ hi => hwork.read_eq hs hi, rfl⟩

theorem Session.intact_live {α : Type} {S : Nat → Prop} {s : Session} {x : Live α}
    {R : α → Stage → Prop} (hs : s.document.Sided S)
    (hx : Live.Ends s.document.cells.size s.stage R (x s.stage)) :
    s.Intact ((Sitting.live x).after s) := by
  unfold Sitting.after Sitting.live
  cases hresult : x s.stage with
  | ok a stage =>
    rw [hresult] at hx
    exact intact_of_works hs hx.1
  | error fault stage =>
    rw [hresult] at hx
    exact intact_of_works hs hx

theorem Session.intact_remark (s : Session) (n : Notice) : s.Intact (s.remark n) :=
  ⟨fun _ _ hc => hc, fun _ _ => rfl, rfl⟩

namespace Sitting

variable {key parent : String} {arguments : List Value} {s t : Session}

/-- A mount that comes to nothing remarks why. -/
theorem mount_eq_none (h : mount key parent arguments s = .ok none t) :
    (s.document.findById parent = .ok none ∧ t = s.remark (.targetMissing parent)) ∨
      (s.registry.get? key = none ∧ t = s.remark (.componentMissing key)) := by
  unfold mount at h
  cases hfind : s.document.findById parent with
  | error fault =>
    rw [bind_of_error (inspect_of_error hfind)] at h
    cases h
  | ok found =>
    rw [bind_of_ok (inspect_of_ok hfind)] at h
    cases found with
    | none =>
      cases h
      exact .inl ⟨rfl, rfl⟩
    | some target =>
      simp only at h
      rw [bind_of_ok (show (get : Sitting Session) s = .ok s s from rfl)] at h
      cases hget : s.registry.get? key with
      | none =>
        rw [hget] at h
        cases h
        exact .inr ⟨rfl, rfl⟩
      | some registration =>
        simp only [hget] at h
        obtain ⟨i, u, -, h⟩ := bind_eq_ok.mp h
        obtain ⟨j, v, -, h⟩ := bind_eq_ok.mp h
        obtain ⟨_, w, -, h⟩ := bind_eq_ok.mp h
        cases h

/-- A mount fails as its factory does, and keeps what the factory left. -/
theorem mount_of_call_error {target : Nat} {registration : Registration} {fault : Fault}
    {stage : Stage} (hfind : s.document.findById parent = .ok (some target))
    (hget : s.registry.get? key = some registration) (hcached : s.cache.get? key = none)
    (hcall : s.registry.call key registration arguments s.stage = .error fault stage) :
    mount key parent arguments s = .error fault { s with stage } := by
  have hmade : made key registration arguments s = .error fault { s with stage } := by
    rcases made_cases key registration arguments s with
      ⟨i, u, hprepared, -⟩ | ⟨fault', stage', -, hcall', hmade⟩
    · cases hprepared with
      | cached hi => exact absurd (hcached.symm.trans hi) (by simp)
      | made stage' _ hok => exact absurd (hcall.symm.trans hok) (by simp)
    · rw [hcall] at hcall'
      cases hcall'
      exact hmade
  unfold mount
  rw [bind_of_ok (inspect_of_ok hfind)]
  simp only
  rw [bind_of_ok (show (get : Sitting Session) s = .ok s s from rfl), hget]
  exact bind_of_error hmade

end Sitting

namespace Session

/-- **A failed mount leaves the session intact.** Whatever was done on a page before, a mount that
comes to nothing says so and changes nothing else. A mount whose factory fails, in its own steps
or in those of a factory that it calls, fails in the same way. Every node is then as it was, and so
are the tree of every node, the registry, the cache and the requests. Running instructions, with
or without success, never changes a node that was there before. -/
theorem failed_mount_intact (loader : Option Loader) (deeds : List Deed) (key parent : String)
    (arguments : List Value) :
    let s := performAll deeds { loader }
    (∀ t, Sitting.mount key parent arguments s = .ok none t → s.Intact t ∧
      (s.document.findById parent = .ok none ∧ t = s.remark (.targetMissing parent) ∨
        s.registry.get? key = none ∧ t = s.remark (.componentMissing key))) ∧
    (∀ target registration fault stage, s.document.findById parent = .ok (some target) →
      s.registry.get? key = some registration → s.cache.get? key = none →
      s.registry.call key registration arguments s.stage = .error fault stage →
        Sitting.mount key parent arguments s = .error fault { s with stage } ∧
          s.Intact { s with stage }) ∧
    ∀ (r : Registry) (bindings : Bindings) (steps : List Instruction),
      s.Intact ((Sitting.live (r.instantiate bindings steps)).after s) := by
  intro s
  have hsided : s.document.Sided fun _ => True :=
    (performAll_edits deeds { loader }).works.sided (Document.sided_empty _)
  refine ⟨fun t h => ?_, fun target registration fault stage hfind hget hcached hcall => ?_,
    fun r bindings steps => ?_⟩
  · have hnone := Sitting.mount_eq_none h
    refine ⟨?_, hnone⟩
    rcases hnone with ⟨-, rfl⟩ | ⟨-, rfl⟩ <;> exact s.intact_remark _
  · refine ⟨Sitting.mount_of_call_error hfind hget hcached hcall, intact_of_works hsided ?_⟩
    have hends := s.registry.call_makesNew key registration arguments s.stage
    rwa [hcall] at hends
  · exact intact_live hsided (r.instantiate_makesNew bindings steps s.stage)

-- The inner factory fails after the outer one has put a node of its own below another one.
example :
    let deeds : List Deed := [.addTarget "slot" "div",
      .act (.register "inner" ⟨.steps [] [.createElement "x" "b", .appendChild "x" "y"], false⟩),
      .act (.register "outer" ⟨.steps [] [.createElement "x" "p", .createElement "y" "i",
        .appendChild "x" "y", .invokeFactory "z" "inner" [], .giveNode "x"], false⟩)]
    let s := performAll deeds {}
    let t := s.perform (.act (.mount "outer" "slot" []))
    (t.document.html 0).toOption = some "<body>\n<div id=\"slot\"></div>\n</body>" ∧
      t.cache.length = 0 ∧ s.document.cells.size = 2 ∧ t.document.cells.size = 5 := by
  decide +kernel

end Session

end Pageloom
