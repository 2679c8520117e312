import Pageloom.Proofs.Layers
import Pageloom.Proofs.Returns

/-!
# How calls and builds end

When a callable has given a node, the builder finishes it: an inline callable leaves its hooks to a
component or lets them wait, any other makes a boundary or adds its hooks to the one that it gave.
The root of a build is made in the same way around what its entry gave. What each of these does to
a workshop where it succeeds is told here once, case by case.

## Main definitions

* `Pageloom.Build.Finishes` -- what becomes of a value that a callable gave
* `Pageloom.Build.finish_eq_ok` -- finishing is one of these
* `Pageloom.Program.recordEntry` -- an entry is called, with a record
* `Pageloom.Program.renderRoot_eq_ok` -- how the root of a build is made
-/

namespace Pageloom

/-! ## What the steps at the end of a call do -/

namespace Forest

theorem has_of_component_root? {f : Forest} {j r : Nat} (h : f.root? j = some r) :
    f.Has (.component j) := by
  obtain ⟨k, hk, _⟩ := Option.bind_eq_some_iff.mp h
  exact has_component.mpr ⟨k, hk⟩

theorem boundaryOf_eq_ok {f : Forest} {j r : Nat} {b : Boundary}
    (h : f.boundaryOf j = .ok (b, r)) : f.root? j = some r ∧ b.hooks = f.hooks j := by
  unfold boundaryOf at h
  cases hk : f.components[j]? with
  | none =>
    rw [hk] at h
    cases h
  | some k =>
    rw [hk] at h
    cases hroot : f.root j with
    | error fault =>
      rw [hroot] at h
      cases h
    | ok r' =>
      rw [hroot] at h
      cases h
      exact ⟨rootOf_component.mp hroot, by simp [hooks, hk]⟩

/-- Hooks can be added at once. -/
theorem addHooks_addHooks (f : Forest) (i : Nat) (hooks hooks' : List Value) :
    (f.addHooks i hooks).addHooks i hooks' = f.addHooks i (hooks ++ hooks') := by
  simp only [addHooks, modifyComponent, Forest.mk.injEq, true_and]
  refine Array.ext_getElem? fun j => ?_
  rw [Array.getElem?_modify, Array.getElem?_modify, Array.getElem?_modify]
  split <;> simp [Option.map_map, Function.comp_def]

end Forest

namespace Build

variable {seat : Seat} {w v : Workshop}

/-- A claim that finds hooks waiting divides them. -/
theorem claim_eq_ok {c : Nat} {a : Unit} (h : claim seat c w = .ok a v) :
    ((w.builder seat).waiting = [] ∧ v = w) ∨ ∃ r, w.forest.root c = .ok r ∧
      v = { w.withWaiting seat ((w.builder seat).waiting.filter fun entry =>
              !(w.forest.ownElements r).contains entry.1) with
            forest := w.forest.addHooks c (((w.builder seat).waiting.filter fun entry =>
              (w.forest.ownElements r).contains entry.1).flatMap Prod.snd) } := by
  obtain ⟨_, _, hget, h⟩ := bind_eq_ok.mp h
  cases hget
  by_cases hempty : (w.builder seat).waiting.isEmpty = true
  · simp only [hempty, if_true] at h
    cases h
    exact .inl ⟨List.isEmpty_iff.mp hempty, rfl⟩
  · simp only [hempty] at h
    obtain ⟨r, u, hlift, h⟩ := bind_eq_ok.mp h
    obtain ⟨hroot, rfl⟩ := lift_eq_ok.mp hlift
    obtain ⟨_, u, hmodify, h⟩ := bind_eq_ok.mp h
    cases hmodify
    cases modifyForest_eq_ok h
    refine .inr ⟨r, hroot, ?_⟩
    rw [List.partition_eq_filter_filter]
    cases seat <;> rfl

theorem has_of_boundNames {sigil : Sigil} {e : Nat} {names : List String}
    (h : boundNames sigil e w = .ok names v) : v = w ∧ w.forest.Has (.element e) := by
  obtain ⟨hv, n, _, hread, _⟩ := boundNames_read h
  refine ⟨hv, ?_⟩
  rw [Forest.readChecked] at hread
  cases hsize : w.forest.elements.size with
  | zero =>
    rw [hsize] at hread
    cases hread
  | succ depth =>
    rw [hsize, Forest.readWithin] at hread
    cases hc : w.forest.elements[e]? with
    | none =>
      rw [hc] at hread
      cases hread
    | some c => exact Forest.has_element.mpr ⟨c, hc⟩

/-- What becomes of a value that a callable gave. -/
inductive Finishes (seat : Seat) (name : String) (hooks : List Value) (w : Workshop) :
    NodeId → Workshop → Prop
  /-- An inline callable lends its hooks to the component that it gave. -/
  | lend {j : Nat} (inline : isInlineName name = true) :
      Finishes seat name hooks w (.component j) { w with forest := w.forest.addHooks j hooks }
  /-- An inline callable without hooks leaves everything as it is. -/
  | pass {e : Nat} (inline : isInlineName name = true) (none : hooks = []) :
      Finishes seat name hooks w (.element e) w
  /-- The hooks of an inline callable wait for the boundary around the element that it gave. -/
  | wait {e : Nat} (inline : isInlineName name = true) (some : hooks ≠ []) :
      Finishes seat name hooks w (.element e)
        (w.withWaiting seat ((w.builder seat).waiting ++ [(e, hooks)]))
  /-- A component that was given gets the hooks, and claims those that wait for it. -/
  | give {j : Nat} {v : Workshop} (plain : isInlineName name = false)
      (claimed : claim seat j { w with forest := w.forest.addHooks j hooks } = .ok () v) :
      Finishes seat name hooks w (.component j) v
  /-- An element that was given becomes the root of a component. -/
  | wrap {e : Nat} {names : List String} {g : Forest} {v : Workshop}
      (plain : isInlineName name = false) (has : w.forest.Has (.element e))
      (made : w.forest.addComponent e name names = .ok (g, w.forest.components.size))
      (claimed : claim seat w.forest.components.size
        { w with forest := g.addHooks w.forest.components.size hooks } = .ok () v) :
      Finishes seat name hooks w (.element e) v

theorem hooked_eq_ok {c : Nat} {hooks : List Value} {x : Value}
    (h : (do
      modifyForest fun f => f.addHooks c hooks
      claim seat c
      nodeValue (.component c) : Build Value) w = .ok x v) :
    claim seat c { w with forest := w.forest.addHooks c hooks } = .ok () v ∧
      x.nodeId? = some (.component c) := by
  obtain ⟨_, u, hmodify, h⟩ := bind_eq_ok.mp h
  cases modifyForest_eq_ok hmodify
  obtain ⟨_, u, hclaim, h⟩ := bind_eq_ok.mp h
  obtain ⟨rfl, rfl⟩ := nodeValue_eq_ok h
  exact ⟨hclaim, rfl⟩

theorem wrap_eq_ok {e i : Nat} {key : String} {parameters : List String}
    (h : Build.wrap e key parameters w = .ok i v) :
    ∃ g, w.forest.addComponent e key parameters = .ok (g, i) ∧ v = { w with forest := g } := by
  obtain ⟨g, u, hforest, h⟩ := bind_eq_ok.mp h
  obtain ⟨rfl, rfl⟩ := forest_eq_ok hforest
  obtain ⟨made, u', hlift, h⟩ := bind_eq_ok.mp h
  obtain ⟨hadd, rfl⟩ := lift_eq_ok.mp hlift
  obtain ⟨_, u', hmodify, h⟩ := bind_eq_ok.mp h
  cases modifyForest_eq_ok hmodify
  cases h
  exact ⟨made.1, hadd, rfl⟩

theorem finish_eq_ok {name : String} {hooks : List Value} {result x : Value}
    (h : finish seat name hooks result w = .ok x v) :
    ∃ id, result.nodeId? = some id ∧ Finishes seat name hooks w id v := by
  unfold finish at h
  cases hname : isInlineName name with
  | true =>
    rw [hname, if_pos rfl] at h
    unfold splice at h
    split at h
    · next j _ =>
      cases h
      exact ⟨.component j, rfl, .lend hname⟩
    · next e _ =>
      refine ⟨.element e, rfl, ?_⟩
      cases hooks with
      | nil =>
        cases h
        exact .pass hname rfl
      | cons hook rest =>
        cases h
        exact .wait hname (List.cons_ne_nil _ _)
    · cases h
  | false =>
    rw [hname, if_neg (by simp)] at h
    unfold enclose at h
    split at h
    · next j _ => exact ⟨.component j, rfl, .give hname (hooked_eq_ok h).1⟩
    · next e _ =>
      refine ⟨.element e, rfl, ?_⟩
      obtain ⟨_, _, hget, h⟩ := bind_eq_ok.mp h
      cases hget
      obtain ⟨names, u, hnames, hrest⟩ := bind_eq_ok.mp h
      obtain ⟨hu, hhas⟩ := has_of_boundNames hnames
      subst hu
      obtain ⟨i, _, hwrap, hrest⟩ := bind_eq_ok.mp hrest
      obtain ⟨g, hadd, rfl⟩ := wrap_eq_ok hwrap
      obtain ⟨_, rfl, _⟩ := Forest.addComponent_eq_ok hadd
      exact .wrap hname hhas hadd (hooked_eq_ok hrest).1
    · cases h

end Build

/-! ## The root of a build -/

namespace Program

/-- What an entry is called with: a placeholder for each of its parameters. -/
def placeholders (p : Program) (c : Callable) (w : Workshop) : List Value :=
  (p.parameters c).map fun name => .text (w.own.sigil.plain ++ name)

/-- Call an entry as the root of a build does, with a record. -/
def recordEntry (p : Program) (c : Callable) (w : Workshop) :
    EStateM.Result Fault Workshop (Value × List Return) :=
  match p.recordWithin callDepth c (p.placeholders c w) ({ w with active := .own }, []) with
  | .ok result s => .ok (result, s.2) s.1
  | .error fault s => .error fault s.1

variable {p : Program} {c : Callable} {start u v : Workshop} {result x : Value}
  {returns : List Return} {key : Option String}

theorem recordEntry_eq_ok : p.recordEntry c start = .ok (result, returns) u ↔
    p.recordWithin callDepth c (p.placeholders c start) ({ start with active := .own }, []) =
      .ok result (u, returns) := by
  unfold recordEntry
  cases p.recordWithin callDepth c (p.placeholders c start) ({ start with active := .own }, []) with
  | ok made s => simp [Prod.ext_iff, and_left_comm, and_comm]
  | error fault s => simp

theorem call_of_recordEntry (h : p.recordEntry c start = .ok (result, returns) u) :
    p.call c (p.placeholders c start) { start with active := .own } = .ok result u :=
  (p.erases_recordWithin callDepth c _).of_ok (recordEntry_eq_ok.mp h)

theorem exists_recordEntry
    (h : p.call c (p.placeholders c start) { start with active := .own } = .ok result u) :
    ∃ returns, p.recordEntry c start = .ok (result, returns) u :=
  ((p.erases_recordWithin callDepth c _).exists_ok h []).imp fun _ => recordEntry_eq_ok.mpr

/-- **An entry attends to an invariant** that holds once the builder of the build serves. -/
theorem Attending.recordEntry {Serves : Seat → Prop} {I J : Workshop → List Return → Prop}
    (h : p.Attending Serves I J) (hstart : I { start with active := .own } [])
    (hrecord : p.recordEntry c start = .ok (result, returns) u) : I u returns := by
  have hleaves := h.recordWithin callDepth c (p.placeholders c start) _ [] hstart
  rwa [recordEntry_eq_ok.mp hrecord] at hleaves

/-- The root of a build is made around the element that the entry gave, or around the root of the
component that it gave, whose hooks it takes over. -/
theorem renderRoot_eq_ok (h : p.renderRoot (.callable c) key start = .ok x v) :
    ∃ result u e copied name g,
      p.call c (p.placeholders c start) { start with active := .own } = .ok result u ∧
      (result.nodeId? = some (.element e) ∧ copied = [] ∨
        ∃ r, result.nodeId? = some (.component r) ∧ u.forest.root? r = some e ∧
          copied = u.forest.hooks r) ∧
      (key = none → name = c.name) ∧
      u.forest.addComponent e name (p.parameters c) = .ok (g, u.forest.components.size) ∧
      Build.claim .own u.forest.components.size
        { u with
          active := start.active
          forest := g.addHooks u.forest.components.size (copied ++ p.hooks c) } = .ok () v ∧
      x.nodeId? = some (.component u.forest.components.size) := by
  unfold renderRoot Build.renderRoot at h
  obtain ⟨_, _, hget, h⟩ := bind_eq_ok.mp h
  cases hget
  obtain ⟨arguments, _, hlift, h⟩ := bind_eq_ok.mp h
  obtain ⟨harguments, rfl⟩ := Build.lift_eq_ok.mp hlift
  cases Sigil.placeholders_eq_ok harguments
  obtain ⟨result, _, hserving, h⟩ := bind_eq_ok.mp h
  obtain ⟨u, hcall, rfl⟩ := Build.serving_eq_ok hserving
  split at h
  · next r _ =>
    obtain ⟨_, _, hforest, h⟩ := bind_eq_ok.mp h
    obtain ⟨rfl, rfl⟩ := Build.forest_eq_ok hforest
    obtain ⟨core, _, hlift, h⟩ := bind_eq_ok.mp h
    obtain ⟨hboundary, rfl⟩ := Build.lift_eq_ok.mp hlift
    obtain ⟨i, _, hwrap, h⟩ := bind_eq_ok.mp h
    obtain ⟨g, hadd, rfl⟩ := Build.wrap_eq_ok hwrap
    obtain ⟨_, rfl, _⟩ := Forest.addComponent_eq_ok hadd
    obtain ⟨_, _, hmodify, h⟩ := bind_eq_ok.mp h
    cases Build.modifyForest_eq_ok hmodify
    obtain ⟨hclaim, hx⟩ := Build.hooked_eq_ok h
    obtain ⟨hroot, hhooks⟩ := Forest.boundaryOf_eq_ok hboundary
    refine ⟨_, u, core.2, core.1.hooks, _, g, hcall, .inr ⟨r, rfl, hroot, hhooks⟩, ?_, hadd, ?_, hx⟩
    · rintro rfl
      rfl
    · rw [← Forest.addHooks_addHooks]
      exact hclaim
  · next e _ =>
    obtain ⟨i, _, hwrap, h⟩ := bind_eq_ok.mp h
    obtain ⟨g, hadd, rfl⟩ := Build.wrap_eq_ok hwrap
    obtain ⟨_, rfl, _⟩ := Forest.addComponent_eq_ok hadd
    obtain ⟨hclaim, hx⟩ := Build.hooked_eq_ok h
    refine ⟨_, u, e, [], _, g, hcall, .inl ⟨rfl, rfl⟩, ?_, hadd, hclaim, hx⟩
    rintro rfl
    rfl
  · cases h

end Program

end Pageloom
