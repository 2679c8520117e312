import Pageloom.Collection
import Pageloom.Proofs.Operations

/-!
# What evaluation may do to a workshop

Authored code touches a workshop by the operations of builders, and by naming values.
Whatever holds between a workshop and the one that each small change leaves, and can be put
together from step to step, holds between a workshop and the one that evaluation leaves.
This counts for failures as well. Every property of evaluation that is about workshops and
not about values is an instance.

## Main definitions

* `Pageloom.Program.Conduct` -- what is asked of each way of touching a workshop
* `Pageloom.Program.Conduct.callWithin` -- what follows for calls to any depth
* `Pageloom.Program.Conduct.eval` -- what follows for expressions
* `Pageloom.Program.Reaches` -- workshops that expressions leave one after the other
* `Pageloom.Program.RootConduct.renderRoot` -- what follows for the entries of a build
-/

namespace Pageloom

/-- A workshop in which nothing was made yet. -/
structure Workshop.IsFresh (w : Workshop) : Prop where
  forest : w.forest = .empty
  waiting : ∀ seat, (w.builder seat).waiting = []

theorem Workshop.isFresh_default : ({} : Workshop).IsFresh :=
  ⟨rfl, fun seat => by cases seat <;> rfl⟩

namespace Program

/-- How authored code of a program may change a workshop: `R` holds between the workshop
before and the one after, and can be put together from step to step. While an element is made
something stronger may be kept up. -/
structure Conduct (p : Program) (R : Workshop → Workshop → Prop) : Prop where
  refl : ∀ w, R w w
  trans : ∀ {w u v}, R w u → R u v → R w v
  names : ∀ w names, R w { w with names }
  raise : ∀ w seat, ∃ S, Build.Raising seat w S ∧ ∀ v, S v → R w v
  lend : ∀ {depth c arguments w u handle j},
    p.callWithin depth c arguments w = .ok (.node handle) u → handle.id = .component j →
    ∀ v, R v { v with forest := v.forest.addHooks j (p.hooks c) }
  wait : ∀ {c : Callable} w seat e, isInlineName c.name = true → p.hooks c ≠ [] →
    R w (w.withWaiting seat ((w.builder seat).waiting ++ [(e, p.hooks c)]))
  wrap : ∀ {depth c arguments w u v handle e names g i},
    p.callWithin depth c arguments w = .ok (.node handle) u → R w v →
    Build.boundNames (v.builder w.active).sigil e v = .ok names v →
    v.forest.addComponent e c.name names = .ok (g, i) →
    R v { v with forest := g.addHooks i (p.hooks c) }
  claim : ∀ w seat i waiting hooks, waiting ⊆ (w.builder seat).waiting →
    (∀ hook ∈ hooks, ∃ entry ∈ (w.builder seat).waiting, hook ∈ entry.2) →
    R w { w.withWaiting seat waiting with
      forest := (w.withWaiting seat waiting).forest.addHooks i hooks }

namespace Conduct

variable {p : Program} {R : Workshop → Workshop → Prop} {F : Fault → Prop} {depth : Nat}
  {frame : Frame}

theorem claiming (h : p.Conduct R) (w : Workshop) (seat : Seat) : Build.Claiming seat (R w) :=
  fun u i waiting hooks hwaiting hhooks hu =>
    h.trans hu (h.claim u seat i waiting hooks hwaiting fun hook hhook =>
      (hhooks hook hhook).imp fun _ hentry => ⟨hentry.1, hentry.2.1⟩)

theorem element (h : p.Conduct R) (hF : BuildFaults F) (w : Workshop) (seat : Seat) (tag : String)
    (props : Value) (children : List Value) :
    Ended (R w) F (Build.element seat tag props children w) := by
  obtain ⟨S, hS, hR⟩ := h.raise w seat
  exact (hS.element hF tag props children).imp hR

theorem fragment (h : p.Conduct R) (hF : BuildFaults F) (w : Workshop) (seat : Seat)
    (props : Value) : Ended (R w) F (Build.fragment seat props w) := by
  obtain ⟨S, hS, hR⟩ := h.raise w seat
  exact (hS.fragment hF props).imp hR

/-- Finishing what a component gave. -/
theorem finish (h : p.Conduct R) (hF : BuildFaults F) {c : Callable} {arguments : List Value}
    {w u : Workshop} {result : Value} (hcall : p.callWithin depth c arguments w = .ok result u)
    (hu : R w u) : Ended (R w) F (Build.finish w.active c.name (p.hooks c) result u) := by
  refine Build.Enclosing.finish ⟨?_, ?_, ?_, h.claiming w w.active⟩ hF hu
  · rintro v handle j rfl hid hv
    exact h.trans hv (h.lend hcall hid v)
  · exact fun _ _ hinline hhooks hv => h.trans hv (h.wait _ _ _ hinline hhooks)
  · rintro v handle e names g i rfl _ hv hnames hadd
    exact h.trans hv (h.wrap hcall hv hnames hadd)

theorem follow (h : p.Conduct R) {α : Type} {w u : Workshop} (hwu : R w u)
    {r : EStateM.Result Fault Workshop α} (hr : Ended (R u) F r) : Ended (R w) F r :=
  hr.imp fun _ huv => h.trans hwu huv

theorem component (h : p.Conduct R) (hF : BuildFaults F) (ref : String) (w : Workshop) :
    Ended (R w) F (p.component ref w) := by
  unfold Program.component
  cases Entries.get? p ref with
  | some d => exact h.refl w
  | none => exact ⟨h.refl w, hF.unknownName ref⟩

theorem node (h : p.Conduct R) (hF : BuildFaults F)
    (hcall : ∀ c arguments w, Ended (R w) F (p.callWithin depth c arguments w))
    (type props : Value) (children : List Value) (w : Workshop) :
    Ended (R w) F (Build.node (p.author (p.callWithin depth)) w.active type props children w) := by
  unfold Build.node
  split
  · exact h.element hF w _ _ props children
  · exact h.element hF w _ _ props children
  · next c =>
    refine (Ended.lift (h.refl w) fun fault hfault => hF.merge hfault).bind
      fun merged u hlift _ => ?_
    obtain ⟨_, rfl⟩ := Build.lift_eq_ok.mp hlift
    split
    · exact h.fragment hF w _ merged
    · exact (hcall c [merged] w).bind fun result u hresult hwu => h.finish hF hresult hwu
  · exact ⟨h.refl w, hF.notBuildable _⟩

mutual

theorem evalIn (h : p.Conduct R) (hF : BuildFaults F)
    (hcall : ∀ c arguments w, Ended (R w) F (p.callWithin depth c arguments w)) :
    ∀ (e : Expr) (w : Workshop), Ended (R w) F (Program.evalIn p (p.callWithin depth) frame e w)
  | .value v, w => h.refl w
  | .list items, w => (evalAll h hF hcall items w).bind fun _ _ _ hu => hu
  | .tuple items, w => (evalAll h hF hcall items w).bind fun _ _ _ hu => hu
  | .table entries, w => (evalEntries h hF hcall entries w).bind fun _ _ _ hu => hu
  | .view entries, w => (evalEntries h hF hcall entries w).bind fun _ _ _ hu => hu
  | .handler kind fields, w => by
    refine (evalEntries h hF hcall fields w).bind fun xs u _ hu => ?_
    cases Handler.ofFields? kind (Entries.ofPairs xs) with
    | some handler => exact hu
    | none => exact ⟨hu, hF.invalidHandler⟩
  | .build type given children, w => by
    refine (evalIn h hF hcall type w).bind fun t w1 _ h1 => ?_
    refine (h.follow h1 (evalIn h hF hcall given w1)).bind fun g w2 _ h2 => ?_
    refine (h.follow h2 (evalAll h hF hcall children w2)).bind fun cs w3 _ h3 => ?_
    exact h.follow h3 (h.node hF hcall t g cs w3)
  | .component ref, w => h.component hF ref w
  | .callFragment given, w => by
    refine (evalIn h hF hcall given w).bind fun g u _ hu => ?_
    exact h.follow hu (h.fragment hF u _ g)
  | .prop name fallback, w => by
    simp only [Program.evalIn]
    cases frame.prop? name with
    | some v => exact h.refl w
    | none => exact evalIn h hF hcall fallback w
  | .props, w => h.refl w
  | .param name, w => h.refl w
  | .bind name e, w => by
    refine (evalIn h hF hcall e w).bind fun v u _ hu => ?_
    exact h.trans hu (h.names u (u.names.set name v))
  | .ref name, w => h.refl w
  | .seq items, w => (evalAll h hF hcall items w).bind fun _ _ _ hu => hu

theorem evalAll (h : p.Conduct R) (hF : BuildFaults F)
    (hcall : ∀ c arguments w, Ended (R w) F (p.callWithin depth c arguments w)) :
    ∀ (es : List Expr) (w : Workshop),
      Ended (R w) F (Program.evalAll p (p.callWithin depth) frame es w)
  | [], w => h.refl w
  | e :: es, w => by
    refine (evalIn h hF hcall e w).bind fun v u _ hu => ?_
    exact (h.follow hu (evalAll h hF hcall es u)).bind fun _ _ _ hv => hv

theorem evalEntries (h : p.Conduct R) (hF : BuildFaults F)
    (hcall : ∀ c arguments w, Ended (R w) F (p.callWithin depth c arguments w)) :
    ∀ (es : List (String × Expr)) (w : Workshop),
      Ended (R w) F (Program.evalEntries p (p.callWithin depth) frame es w)
  | [], w => h.refl w
  | (k, e) :: es, w => by
    refine (evalIn h hF hcall e w).bind fun v u _ hu => ?_
    exact (h.follow hu (evalEntries h hF hcall es u)).bind fun _ _ _ hv => hv

end

/-- **Calls keep to a conduct**, to whatever depth they may nest. -/
theorem callWithin (h : p.Conduct R) (hF : BuildFaults F) : ∀ (depth : Nat) (c : Callable)
    (arguments : List Value) (w : Workshop), Ended (R w) F (p.callWithin depth c arguments w)
  | 0, _, _, w => ⟨h.refl w, hF.endless⟩
  | depth + 1, c, arguments, w => by
    cases c with
    | idle => exact h.refl w
    | fragment => exact h.fragment hF w _ _
    | fragmentOf seat => exact h.fragment hF w seat _
    | component ref name isObject =>
      simp only [Program.callWithin]
      cases Entries.get? p ref with
      | some d => exact evalIn h hF (callWithin h hF depth) d.body w
      | none => exact ⟨h.refl w, hF.unknownName ref⟩
    | inherent name =>
      simp only [Program.callWithin]
      cases hname : Inherent.ofName? name with
      | some i => exact Ended.lift (h.refl w) fun fault hfault => hF.inherent hname hfault
      | none => exact ⟨h.refl w, hF.unknownName name⟩

/-- **Expressions keep to a conduct.** -/
theorem eval (h : p.Conduct R) (hF : BuildFaults F) (e : Expr) (w : Workshop) :
    Ended (R w) F (p.eval e w) :=
  evalIn h hF (h.callWithin hF callDepth) e w

end Conduct

/-- A workshop can be left by evaluating expressions one after the other, whether each of them
gives a value or fails. -/
inductive Reaches (p : Program) (w : Workshop) : Workshop → Prop
  | refl : Reaches p w w
  | value {u v : Workshop} {e : Expr} {x : Value} (earlier : Reaches p w u)
      (last : p.eval e u = .ok x v) : Reaches p w v
  | fault {u v : Workshop} {e : Expr} {fault : Fault} (earlier : Reaches p w u)
      (last : p.eval e u = .error fault v) : Reaches p w v

/-- **Everything that is evaluated keeps to a conduct.** -/
theorem Conduct.reaches {p : Program} {R : Workshop → Workshop → Prop} (h : p.Conduct R)
    {w v : Workshop} (hreach : p.Reaches w v) : R w v := by
  induction hreach with
  | refl => exact h.refl w
  | @value u v e x _ last ih =>
    have hlast := h.eval buildFaults_any e u
    rw [last] at hlast
    exact h.trans ih hlast
  | @fault u v e fault _ last ih =>
    have hlast := h.eval buildFaults_any e u
    rw [last] at hlast
    exact h.trans ih hlast.1

/-- How the entries of a build may change a workshop. -/
structure RootConduct (p : Program) (R : Workshop → Workshop → Prop) : Prop
    extends p.Conduct R where
  active : ∀ w seat, R w { w with active := seat }
  root : ∀ {arguments u v w c handle e g i}, p.call c arguments u = .ok (.node handle) v →
    handle.id = .element e → w.forest.addComponent e c.name (p.parameters c) = .ok (g, i) →
    R w { w with forest := g.addHooks i (p.hooks c) }
  around : ∀ {arguments u v w c handle j b e g i}, p.call c arguments u = .ok (.node handle) v →
    handle.id = .component j → w.forest.boundaryOf j = .ok (b, e) →
    w.forest.addComponent e c.name (p.parameters c) = .ok (g, i) →
    R w { w with forest := (g.addHooks i b.hooks).addHooks i (p.hooks c) }

namespace RootConduct

variable {p : Program} {R : Workshop → Workshop → Prop} {F : Fault → Prop}

/-- **Entries keep to a conduct.** -/
theorem renderRoot (h : p.RootConduct R) (hF : BuildFaults F) (entry : Value) (w : Workshop) :
    Ended (R w) F (p.renderRoot entry none w) := by
  have hrooting : ∀ c : Callable, Build.Rooting (p.author p.call) c (R w) := fun c =>
    { active := fun seat hu => h.trans hu (h.active _ seat)
      wrap := fun hcall hid hu hadd => h.trans hu (h.root hcall hid hadd)
      around := fun hcall hid hu hb hadd => h.trans hu (h.around hcall hid hb hadd)
      claim := h.claiming w .own }
  have hcall : ∀ c arguments, Ended (R w) F (p.call c arguments { w with active := .own }) :=
    fun c arguments => h.follow (h.active w .own) (h.callWithin hF callDepth c arguments _)
  cases entry with
  | callable c => exact (hrooting c).renderRoot hF (h.refl w) (hcall c)
  | _ => exact ⟨h.refl w, hF.notCallable _⟩

end RootConduct

end Program

end Pageloom
