import Pageloom.Artifacts
import Pageloom.Proofs.Closure
import Pageloom.Proofs.Finishing

/-!
# Which hooks are called once a page has loaded

A page calls the hooks of the components that a collection keeps, and a collection keeps the
first component of each key. A component begins with the hooks of the callable that made it.
Others may be brought to it later: an inline callable leaves its hooks to the boundary around what
it gave, and a callable that gives a component made by another one adds its hooks to that one.
Content is compared without hooks, so nothing is remarked where such a hook is on a later component
only, and the hook is never called. The same goes for two callables of one name of which only the
later one has the hook. These are the only hooks that a collection can lose, and what is to blame
is always a callable that was called in it, or in what was evaluated before.

## Main definitions

* `Pageloom.Forest.Encloses` -- the elements that the boundary of a component holds
* `Pageloom.Program.Course` -- evaluations one after the other, with what callables gave
* `Pageloom.Program.reaches_iff_exists_course` -- the workshops that courses lead to
* `Pageloom.Program.Brought` -- hooks that come to a component from elsewhere
* `Pageloom.Program.Varies` -- how components of one key come to hold different hooks
* `Pageloom.Program.Sourced` -- workshops in which every hook can be traced back
* `Pageloom.Program.attending_sourced` -- evaluation keeps a workshop so
* `Pageloom.Program.hook_called_or_varies` -- what a collection can lose
-/

namespace Pageloom

/-! ## Boundaries of a forest -/

namespace Forest

variable {f g : Forest} {b : Boundary} {i j root : Nat} {key : String} {parameters : List String}
  {hooks : List Value}

/-- The component of a number has a boundary. -/
def HasBoundary (f : Forest) (i : Nat) (b : Boundary) : Prop :=
  ∃ k : ComponentCell, f.components[i]? = some k ∧ k.boundary = b

theorem HasBoundary.unique {b' : Boundary} (h : f.HasBoundary i b) (h' : f.HasBoundary i b') :
    b = b' := by
  obtain ⟨k, hk, rfl⟩ := h
  obtain ⟨k', hk', rfl⟩ := h'
  rw [Option.some.inj (hk.symm.trans hk')]

theorem hasBoundary_of_boundaryOf {r : Nat} (h : f.boundaryOf i = .ok (b, r)) :
    f.HasBoundary i b := by
  unfold boundaryOf at h
  split at h
  · next k hk =>
    cases hroot : f.root i with
    | ok e =>
      rw [hroot] at h
      cases h
      exact ⟨k, hk, rfl⟩
    | error fault =>
      rw [hroot] at h
      cases h
  · cases h

theorem hasBoundary_modifyComponent {change : ComponentCell → ComponentCell}
    (h : (f.modifyComponent i change).HasBoundary j b) :
    f.HasBoundary j b ∨ j = i ∧ ∃ k, f.components[i]? = some k ∧ (change k).boundary = b := by
  obtain ⟨k, hk, rfl⟩ := h
  rw [modifyComponent, Array.getElem?_modify] at hk
  split at hk
  · next hij =>
    obtain ⟨l, hl, rfl⟩ := Option.map_eq_some_iff.mp hk
    exact .inr ⟨hij.symm, l, hij ▸ hl, rfl⟩
  · exact .inl ⟨k, hk, rfl⟩

theorem hasBoundary_addHooks (h : (f.addHooks i hooks).HasBoundary j b) :
    f.HasBoundary j b ∨
      j = i ∧ ∃ b', f.HasBoundary i b' ∧ b = { b' with hooks := b'.hooks ++ hooks } := by
  rcases hasBoundary_modifyComponent h with h | ⟨hj, k, hk, rfl⟩
  · exact .inl h
  · exact .inr ⟨hj, k.boundary, ⟨k, hk, rfl⟩, rfl⟩

theorem hasBoundary_addChild {parent : Nat} {id : NodeId} (hadd : f.addChild parent id = .ok g)
    (h : g.HasBoundary j b) : f.HasBoundary j b := by
  obtain ⟨_, _, _, rfl⟩ := addChild_eq_ok hadd
  cases id with
  | element i => exact h
  | component i =>
    have h : (f.modifyComponent i fun k => { k with parent := some parent }).HasBoundary j b := h
    rcases hasBoundary_modifyComponent h with h | ⟨rfl, k, hk, rfl⟩
    · exact h
    · exact ⟨k, hk, rfl⟩

theorem hasBoundary_addComponent (hadd : f.addComponent root key parameters = .ok (g, i))
    (h : (g.addHooks i hooks).HasBoundary j b) :
    f.HasBoundary j b ∨ j = i ∧ b.key = key ∧ b.hooks = hooks := by
  obtain ⟨_, rfl, rfl⟩ := addComponent_eq_ok hadd
  obtain ⟨k, hk, rfl⟩ := h
  rw [addHooks, modifyComponent, modifyElement, Array.getElem?_modify, Array.getElem?_push] at hk
  by_cases hj : j = f.components.size
  · rw [if_pos hj.symm, if_pos hj] at hk
    cases hk
    exact .inr ⟨hj, rfl, rfl⟩
  · rw [if_neg (Ne.symm hj), if_neg hj] at hk
    exact .inl ⟨k, hk, rfl⟩

/-! ### What boundaries hold -/

/-- The boundary of a component holds an element: going from the root of the component to a child
that is an element, and on, leads there. -/
def Encloses (f : Forest) (i e : Nat) : Prop :=
  ∃ r, f.root? i = some r ∧ Relation.ReflTransGen (fun a b => b ∈ f.inner a) r e

/-- In a linked forest these are the elements from which a way upwards leads to the root. -/
theorem Linked.encloses_iff (h : f.Linked) {e : Nat} : f.Encloses i e ↔ f.Surrounds i e := by
  have hswap : f.Upwards = Function.swap fun a b => b ∈ f.inner a := by
    funext a b
    exact propext (h.upwards_iff.trans mem_inner.symm)
  unfold Encloses Surrounds
  rw [hswap]
  exact exists_congr fun r => and_congr_right fun _ => Relation.reflTransGen_swap.symm

/-- The search from an element finds nothing that is not reached from it. -/
theorem reached_of_mem_ownElementsWithin {e : Nat} : ∀ {bound : Nat} {todo : List Nat},
    e ∈ f.ownElementsWithin bound todo →
      ∃ i ∈ todo, Relation.ReflTransGen (fun a b => b ∈ f.inner a) i e
  | 0, _, h => by cases h
  | _ + 1, [], h => by cases h
  | bound + 1, i :: rest, h => by
    rw [ownElementsWithin_cons, List.mem_cons] at h
    rcases h with rfl | h
    · exact ⟨_, List.mem_cons_self, .refl⟩
    · obtain ⟨j, hj, hreached⟩ := reached_of_mem_ownElementsWithin h
      rcases List.mem_append.mp hj with hinner | hrest
      · exact ⟨i, List.mem_cons_self, .head hinner hreached⟩
      · exact ⟨j, List.mem_cons_of_mem _ hrest, hreached⟩

theorem reached_of_mem_ownElements {e : Nat} (h : e ∈ f.ownElements i) :
    Relation.ReflTransGen (fun a b => b ∈ f.inner a) i e := by
  obtain ⟨j, hj, hreached⟩ := reached_of_mem_ownElementsWithin h
  cases List.mem_singleton.mp hj
  exact hreached

/-- A forest in which everything is linked that another one links. -/
structure Widens (f g : Forest) : Prop where
  root : ∀ {i r}, f.root? i = some r → g.root? i = some r
  children : ∀ i, f.children i ⊆ g.children i

theorem Widens.refl : f.Widens f := ⟨id, fun _ => List.Subset.refl _⟩

theorem Widens.trans {k : Forest} (hfg : f.Widens g) (hgk : g.Widens k) : f.Widens k :=
  ⟨fun h => hgk.root (hfg.root h), fun i => List.Subset.trans (hfg.children i) (hgk.children i)⟩

theorem Encloses.widen {e : Nat} (h : f.Encloses i e) (hfg : f.Widens g) : g.Encloses i e := by
  obtain ⟨r, hr, hreached⟩ := h
  exact ⟨r, hfg.root hr, Relation.ReflTransGen.mono
    (fun a _ hab => mem_inner.mpr (hfg.children a (mem_inner.mp hab))) _ _ hreached⟩

theorem widens_of_views (hroot : g.root? = f.root?) (hchildren : g.children = f.children) :
    f.Widens g :=
  ⟨fun h => hroot ▸ h, fun _ => hchildren ▸ List.Subset.refl _⟩

theorem widens_addHooks (f : Forest) (i : Nat) (hooks : List Value) :
    f.Widens (f.addHooks i hooks) :=
  widens_of_views (f.addHooks_views i hooks).2.1 rfl

theorem widens_addElement (f : Forest) (tag token : String) :
    f.Widens (f.addElement tag token).1 :=
  widens_of_views rfl (children_addElement f tag token)

theorem widens_modifyElement (f : Forest) (i : Nat) {change : ElementCell → ElementCell}
    (h : ∀ c, (change c).children = c.children) : f.Widens (f.modifyElement i change) :=
  widens_of_views rfl (children_modifyElement f i h)

theorem widens_addChild {parent : Nat} {id : NodeId} (hadd : f.addChild parent id = .ok g) :
    f.Widens g := by
  obtain ⟨_, _, _, rfl⟩ := addChild_eq_ok hadd
  refine ⟨fun h => by rwa [root?_link], fun q => ?_⟩
  rw [link_eq, ← show (f.place parent id).children = f.children from f.children_place]
  unfold children
  rw [elements_modifyElement]
  split
  · cases (f.place parent id).elements[q]? <;> simp
  · exact List.Subset.refl _

theorem widens_addComponent (hadd : f.addComponent root key parameters = .ok (g, i)) :
    f.Widens g := by
  obtain ⟨_, rfl, rfl⟩ := addComponent_eq_ok hadd
  refine Widens.trans ?_ (widens_modifyElement _ root ?_)
  · refine ⟨fun {j r} h => ?_, fun _ => List.Subset.refl _⟩
    obtain ⟨k, hk, hroot⟩ := Option.bind_eq_some_iff.mp h
    have hne := (Array.getElem?_eq_some_iff.mp hk).1.ne
    rw [root?, Array.getElem?_push, if_neg hne, hk]
    exact hroot
  · exact fun _ => rfl

/-- The boundaries of a tree that is read are that of its root and those of components. -/
theorem entered_of_readWithin {enter : Nat → Except Fault (Boundary × Nat)}
    {check : ElementCell → Except Fault Unit} : ∀ {depth i : Nat} {b : Option Boundary} {n : Node},
      f.readWithin enter check depth b i = .ok n → ∀ m ∈ n.preorder, ∀ b', m.boundary = some b' →
        b = some b' ∨ ∃ j r, enter j = .ok (b', r)
  | 0, _, _, _, h => by cases h
  | depth + 1, i, b, n, h => by
    rw [readWithin] at h
    split at h
    · next c _ =>
      obtain ⟨_, _, h⟩ := except_bind_eq_ok.mp h
      obtain ⟨ns, hchildren, h⟩ := except_bind_eq_ok.mp h
      cases h
      intro m hm b' hb'
      rw [Node.preorder, List.mem_cons] at hm
      rcases hm with rfl | hm
      · exact .inl hb'
      · rw [Node.preorderAll_eq_flatMap, List.mem_flatMap] at hm
        obtain ⟨child, hchild, hm⟩ := hm
        obtain ⟨id, _, hid⟩ := exists_of_mem_mapM hchildren hchild
        right
        cases id with
        | element j =>
          rcases entered_of_readWithin hid m hm b' hb' with hnone | hentered
          · cases hnone
          · exact hentered
        | component j =>
          dsimp only at hid
          split at hid
          · next b'' r hj =>
            rcases entered_of_readWithin hid m hm b' hb' with hsome | hentered
            · cases hsome
              exact ⟨j, r, hj⟩
            · exact hentered
          · cases hid
    · cases h

theorem hasBoundary_of_component {c : Component} (h : f.component i = .ok c) :
    f.HasBoundary i c.boundary := by
  obtain ⟨core, hboundary, h⟩ := except_bind_eq_ok.mp h
  obtain ⟨tree, _, h⟩ := except_bind_eq_ok.mp h
  cases h
  exact hasBoundary_of_boundaryOf hboundary

/-- Whatever is in the tree of a component that was read has the boundary of a component. -/
theorem hasBoundary_of_mem_all {c d : Component} (h : f.component i = .ok c) (hd : d ∈ c.all) :
    ∃ j, f.HasBoundary j d.boundary := by
  have hown := hasBoundary_of_component h
  obtain ⟨core, hboundary, h⟩ := except_bind_eq_ok.mp h
  obtain ⟨tree, hread, h⟩ := except_bind_eq_ok.mp h
  cases h
  rcases Component.mem_all.mp hd with rfl | ⟨n, hn, hb, _⟩
  · exact ⟨i, hown⟩
  · rcases entered_of_readWithin hread n (Node.mem_preorder_nested hn) _ hb with hnone | ⟨j, r, hj⟩
    · cases hnone
    · exact ⟨j, hasBoundary_of_boundaryOf hj⟩

end Forest

/-! ## Courses -/

namespace Program

open Recorded

/-- Expressions are evaluated one after the other, whether each of them gives a value or fails,
with a record of what callables gave. -/
inductive Course (p : Program) (start : Workshop) : Workshop → List Return → Prop
  | refl : Course p start start []
  | value {u v : Workshop} {e : Expr} {x : Value} {returns returns' : List Return}
      (earlier : Course p start u returns)
      (last : p.recordEval e (u, returns) = .ok x (v, returns')) : Course p start v returns'
  | fault {u v : Workshop} {e : Expr} {fault : Fault} {returns returns' : List Return}
      (earlier : Course p start u returns)
      (last : p.recordEval e (u, returns) = .error fault (v, returns')) : Course p start v returns'

/-- A course leads to a workshop that evaluation reaches. -/
theorem Course.reaches {p : Program} {start w : Workshop} {before : List Return}
    (h : p.Course start w before) : p.Reaches start w := by
  induction h with
  | refl => exact .refl
  | @value u v e x returns returns' _ last ih => exact ih.value ((p.erases_recordEval e).of_ok last)
  | @fault u v e fault returns returns' _ last ih =>
    exact ih.fault ((p.erases_recordEval e).of_error last)

/-- **Every workshop that evaluation reaches has a course**, and no other has one. -/
theorem reaches_iff_exists_course {p : Program} {start w : Workshop} :
    p.Reaches start w ↔ ∃ before, p.Course start w before := by
  refine ⟨fun h => ?_, fun h => h.elim fun _ hcourse => hcourse.reaches⟩
  induction h with
  | refl => exact ⟨[], .refl⟩
  | @value u v e x _ last ih =>
    obtain ⟨returns, hcourse⟩ := ih
    obtain ⟨returns', hrun⟩ := (p.erases_recordEval e).exists_ok last returns
    exact ⟨returns', hcourse.value hrun⟩
  | @fault u v e fault _ last ih =>
    obtain ⟨returns, hcourse⟩ := ih
    obtain ⟨returns', hrun⟩ := (p.erases_recordEval e).exists_error last returns
    exact ⟨returns', hcourse.fault hrun⟩

/-- What holds at the start of a course, and is attended to, holds at its end. -/
theorem Attending.course {p : Program} {Serves : Seat → Prop} {I : Workshop → List Return → Prop}
    (h : p.Attending Serves I I) {start w : Workshop} {before : List Return}
    (hcourse : p.Course start w before) (hstart : I start []) : I w before := by
  induction hcourse with
  | refl => exact hstart
  | @value u v e x returns returns' _ last ih =>
    have hleaves := h.recordEval e u returns ih
    rwa [last] at hleaves
  | @fault u v e fault returns returns' _ last ih =>
    have hleaves := h.recordEval e u returns ih
    rwa [last] at hleaves

/-- Entries are called in order, each as the root of a build, with a record of what callables
gave. -/
inductive RunsAll (p : Program) : List Value → Workshop → List Return → Workshop → Prop
  | nil (w : Workshop) : RunsAll p [] w [] w
  | cons {c : Callable} {entries : List Value} {w u v w' : Workshop} {result x : Value}
      {given returns : List Return} (record : p.recordEntry c w = .ok (result, given) u)
      (root : p.renderRoot (.callable c) none w = .ok x v) (rest : RunsAll p entries v returns w') :
      RunsAll p (.callable c :: entries) w (given ++ returns) w'

/-! ## Where hooks come from -/

variable {p : Program} {entries : List Value} {ids : List Nat} {ran ran' : List Return}
  {b : Boundary} {c : Callable} {f g : Forest} {i : Nat} {key : String} {hook : Value}
  {hooks : List Value} {w u v : Workshop}

/-- An inline callable that has a hook gave an element, and left the hook to the boundary around
it. -/
def LeftAt (p : Program) (ran : List Return) (e : Nat) (hook : Value) : Prop :=
  ∃ r ∈ ran, isInlineName r.callable.name = true ∧ r.result.nodeId? = some (.element e) ∧
    hook ∈ p.hooks r.callable

/-- A hook that a callable brought to a component which another one made. -/
inductive Brought (p : Program) (ran : List Return) (f : Forest) (i : Nat) (hook : Value) : Prop
  /-- It was left at an element that the boundary of the component holds. -/
  | inline {e : Nat} (left : p.LeftAt ran e hook) (within : f.Encloses i e)
  /-- A callable gave the component, and lent it the hook. -/
  | lent {r : Return} (mem : r ∈ ran) (gives : r.result.nodeId? = some (.component i))
      (holds : hook ∈ p.hooks r.callable)

/-- A callable was called: it gave something, or it is an entry. -/
def Called (ran : List Return) (entries : List Value) (c : Callable) : Prop :=
  (∃ r ∈ ran, r.callable = c) ∨ Value.callable c ∈ entries

/-- How some components of a key, and others not, come to hold a hook. -/
inductive Varies (p : Program) (ran : List Return) (entries : List Value) (f : Forest)
    (key : String) (hook : Value) : Prop
  /-- The hook came to a component of the key from elsewhere. -/
  | brought {i : Nat} {b : Boundary} (has : f.HasBoundary i b) (same : b.key = key)
      (brought : p.Brought ran f i hook)
  /-- Of two callables with the name of the key, one has the hook and the other has not. -/
  | differs {r : Return} {c : Callable} (mem : r ∈ ran) (name : r.callable.name = key)
      (holds : hook ∈ p.hooks r.callable) (called : Called ran entries c) (other : c.name = key)
      (lacks : hook ∉ p.hooks c)

/-- A boundary begins with the hooks of a callable of its name that was called. Unless an entry made
it, all its hooks are such hooks, or were brought to it. -/
structure Stems (p : Program) (entries : List Value) (ids : List Nat) (ran : List Return)
    (f : Forest) (i : Nat) (b : Boundary) : Prop where
  maker : ∃ c, Called ran entries c ∧ c.name = b.key ∧ p.hooks c ⊆ b.hooks
  source : i ∈ ids ∨ ∀ hook ∈ b.hooks, p.Brought ran f i hook ∨
    ∃ r ∈ ran, r.callable.name = b.key ∧ hook ∈ p.hooks r.callable

/-- Every boundary of a workshop can be traced back, and only hooks of inline callables wait. -/
structure Sourced (p : Program) (entries : List Value) (ids : List Nat) (w : Workshop)
    (ran : List Return) : Prop where
  boundary : ∀ i b, w.forest.HasBoundary i b → p.Stems entries ids ran w.forest i b
  waiting : ∀ seat, ∀ entry ∈ (w.builder seat).waiting, ∀ hook ∈ entry.2,
    p.LeftAt ran entry.1 hook

theorem LeftAt.mono {e : Nat} (h : p.LeftAt ran e hook) (hran : ran ⊆ ran') :
    p.LeftAt ran' e hook :=
  h.imp fun _ hr => ⟨hran hr.1, hr.2⟩

theorem Brought.mono (h : p.Brought ran f i hook) (hran : ran ⊆ ran') (hfg : f.Widens g) :
    p.Brought ran' g i hook := by
  cases h with
  | inline left within => exact .inline (left.mono hran) (within.widen hfg)
  | lent mem gives holds => exact .lent (hran mem) gives holds

theorem Called.mono (h : Called ran entries c) (hran : ran ⊆ ran') : Called ran' entries c :=
  h.imp_left (Exists.imp fun _ hr => ⟨hran hr.1, hr.2⟩)

theorem Stems.mono (h : p.Stems entries ids ran f i b) (hran : ran ⊆ ran') (hfg : f.Widens g) :
    p.Stems entries ids ran' g i b where
  maker := h.maker.imp fun _ hc => ⟨hc.1.mono hran, hc.2⟩
  source := h.source.imp_right fun hsource hook hhook => (hsource hook hhook).imp
    (fun hbrought => hbrought.mono hran hfg) (Exists.imp fun _ hr => ⟨hran hr.1, hr.2⟩)

/-- Hooks that are brought to a boundary. -/
theorem Stems.append (h : p.Stems entries ids ran f i b)
    (hhooks : ∀ hook ∈ hooks, p.Brought ran f i hook) :
    p.Stems entries ids ran f i { b with hooks := b.hooks ++ hooks } where
  maker := by
    obtain ⟨c, hcalled, hname, hown⟩ := h.maker
    exact ⟨c, hcalled, hname, fun hook hhook => List.mem_append_left _ (hown hhook)⟩
  source := by
    refine h.source.imp_right fun hsource hook hhook => ?_
    rcases List.mem_append.mp hhook with hold | hnew
    · exact hsource hook hold
    · exact .inl (hhooks hook hnew)

namespace Sourced

theorem ofFresh (h : w.IsFresh) : p.Sourced entries ids w [] where
  boundary := by
    rintro i b ⟨k, hk, _⟩
    rw [h.forest] at hk
    simp [Forest.empty] at hk
  waiting seat entry hentry := by
    rw [h.waiting] at hentry
    cases hentry

theorem mono (h : p.Sourced entries ids w ran) (hran : ran ⊆ ran') : p.Sourced entries ids w ran' :=
  ⟨fun i b hb => (h.boundary i b hb).mono hran .refl,
    fun seat entry hentry hook hhook => (h.waiting seat entry hentry hook hhook).mono hran⟩

/-- A boundary that a later workshop has, and had before. -/
theorem later (h : p.Sourced entries ids w ran) (hwidens : w.forest.Widens g)
    (hb : w.forest.HasBoundary i b) : p.Stems entries ids ran g i b :=
  (h.boundary i b hb).mono (List.Subset.refl _) hwidens

/-- A workshop with the same hooks waiting. -/
theorem congr (h : p.Sourced entries ids w ran)
    (hboundary : ∀ i b, v.forest.HasBoundary i b → p.Stems entries ids ran v.forest i b)
    (hwaiting : ∀ seat, (v.builder seat).waiting = (w.builder seat).waiting) :
    p.Sourced entries ids v ran :=
  ⟨hboundary, fun seat => hwaiting seat ▸ h.waiting seat⟩

theorem withWaiting (h : p.Sourced entries ids w ran) {seat : Seat}
    {waiting : List (Nat × List Value)}
    (hwaiting : ∀ entry ∈ waiting, ∀ hook ∈ entry.2, p.LeftAt ran entry.1 hook) :
    p.Sourced entries ids (w.withWaiting seat waiting) ran where
  boundary i b hb := by
    rw [Workshop.forest_withWaiting] at hb ⊢
    exact h.boundary i b hb
  waiting other := by
    rw [Workshop.waiting_withWaiting]
    split
    · exact hwaiting
    · exact h.waiting other

theorem addHooks (h : p.Sourced entries ids w ran) {i : Nat}
    (hhooks : ∀ hook ∈ hooks, p.Brought ran w.forest i hook) :
    p.Sourced entries ids { w with forest := w.forest.addHooks i hooks } ran := by
  have hwidens := w.forest.widens_addHooks i hooks
  refine h.congr (fun j b hb => ?_) fun _ => rfl
  rcases Forest.hasBoundary_addHooks hb with hold | ⟨rfl, b', hb', rfl⟩
  · exact h.later hwidens hold
  · exact (h.later hwidens hb').append fun hook hhook =>
      (hhooks hook hhook).mono (List.Subset.refl _) hwidens

theorem addComponent (h : p.Sourced entries ids w ran) {root i : Nat} {parameters : List String}
    {g : Forest} (hadd : w.forest.addComponent root key parameters = .ok (g, i))
    (hnew : ∀ b : Boundary, b.key = key → b.hooks = hooks →
      p.Stems entries ids ran (g.addHooks i hooks) i b) :
    p.Sourced entries ids { w with forest := g.addHooks i hooks } ran := by
  refine h.congr (fun j b hb => ?_) fun _ => rfl
  rcases Forest.hasBoundary_addComponent hadd hb with hold | ⟨rfl, hkey, hhooks⟩
  · exact h.later ((Forest.widens_addComponent hadd).trans (g.widens_addHooks i hooks)) hold
  · exact hnew b hkey hhooks

theorem claiming (p : Program) (entries : List Value) (ids : List Nat) (ran : List Return)
    (seat : Seat) : Build.Claiming seat fun w => p.Sourced entries ids w ran := by
  intro w i waiting hooks hwaiting hhooks h
  have hfew : p.Sourced entries ids (w.withWaiting seat waiting) ran :=
    h.withWaiting fun entry hentry => h.waiting seat entry (hwaiting hentry)
  refine hfew.addHooks fun hook hhook => ?_
  obtain ⟨entry, hentry, hmem, root, hroot, hheld⟩ := hhooks hook hhook
  rw [Workshop.forest_withWaiting]
  exact .inline (h.waiting seat entry hentry hook hmem)
    ⟨root, Forest.rootOf_component.mp hroot, Forest.reached_of_mem_ownElements hheld⟩

theorem spend (h : p.Sourced entries ids w ran) (seat : Seat) (counter : Counter) :
    p.Sourced entries ids (w.setBuilder seat { w.builder seat with counter }) ran := by
  refine h.congr ?_ fun other => ?_
  · cases seat <;> exact h.boundary
  · cases other <;> cases seat <;> rfl

theorem filling (h : p.Sourced entries ids w ran) (seat : Seat) :
    Build.Filling seat w fun v => p.Sourced entries ids v ran where
  start tag token counter := by
    refine (h.spend seat counter).congr (fun i b hb => ?_) fun other => ?_
    · exact h.later (w.forest.widens_addElement tag token) hb
    · cases other <;> cases seat <;> rfl
  write hu hchange := hu.congr
    (fun _ _ hb => hu.later (Forest.widens_modifyElement _ _ fun c => (hchange.links c).2.1) hb)
    fun _ => rfl
  child hu hadd := hu.congr
    (fun _ _ hb => hu.later (Forest.widens_addChild hadd) (Forest.hasBoundary_addChild hadd hb))
    fun _ => rfl
  remark _ hu := hu.congr hu.boundary fun _ => rfl

/-- Finishing what a callable gave, once this is on record. -/
theorem enclosing {r : Return} (hr : r ∈ ran) (seat : Seat) :
    Build.Enclosing seat r.callable.name (p.hooks r.callable) r.result
      fun w => p.Sourced entries ids w ran where
  lend {w handle j} hresult hid h := h.addHooks fun hook hhook =>
    .lent hr (show r.result.nodeId? = some (.component j) by rw [hresult, ← hid]; rfl) hhook
  wait {w handle e} hresult hid hinline _ h := by
    refine h.withWaiting fun entry hentry hook hhook => ?_
    rcases List.mem_append.mp hentry with hold | hnew
    · exact h.waiting seat entry hold hook hhook
    · cases List.mem_singleton.mp hnew
      exact ⟨r, hr, hinline,
        show r.result.nodeId? = some (.element e) by rw [hresult, ← hid]; rfl, hhook⟩
  wrap _ _ h _ hadd := h.addComponent hadd fun b hkey hhooks =>
    { maker := ⟨r.callable, .inl ⟨r, hr, rfl⟩, hkey.symm, fun hook hhook => hhooks ▸ hhook⟩
      source := .inr fun hook hhook => .inr ⟨r, hr, hkey.symm, hhooks ▸ hhook⟩ }
  claim := claiming p entries ids ran seat

end Sourced

/-- **Evaluation keeps every hook traceable**, whatever was on record before. -/
theorem attending_sourced (p : Program) (entries : List Value) (ids : List Nat)
    (before : List Return) : p.Attending (fun _ => True)
      (fun w returns => p.Sourced entries ids w (before ++ returns))
      fun w returns => p.Sourced entries ids w (before ++ returns) where
  active _ := trivial
  weaken := id
  names _ h := h.congr h.boundary fun _ => rfl
  raise seat h := ⟨_, h.filling seat, fun _ hv => hv⟩
  spend seat counter h := h.spend seat counter
  finish {w returns seat} c result _ h := by
    have hlater : p.Sourced entries ids w (before ++ (returns ++ [⟨c, result, w⟩])) := by
      rw [← List.append_assoc]
      exact h.mono (List.subset_append_left _ _)
    have henclosing : Build.Enclosing seat c.name (p.hooks c) result fun v =>
        p.Sourced entries ids v (before ++ (returns ++ [⟨c, result, w⟩])) :=
      Sourced.enclosing (r := ⟨c, result, w⟩) (by simp) seat
    have hended := henclosing.finish buildFaults_any hlater
    refine leaves_ofBuild (fun x v hrun => ?_) (fun fault v hrun => ?_) <;> rw [hrun] at hended
    · exact hended
    · exact hended.1

/-! ## Entries -/

/-- The root of a build has the hooks of its entry. -/
theorem Sourced.root (h : p.Sourced entries ids u ran) (hentry : Value.callable c ∈ entries)
    (hid : u.forest.components.size ∈ ids) {e : Nat} {copied : List Value} {g : Forest}
    {active : Seat}
    (hadd : u.forest.addComponent e c.name (p.parameters c) = .ok (g, u.forest.components.size))
    (hclaim : Build.claim .own u.forest.components.size { u with
      active
      forest := g.addHooks u.forest.components.size (copied ++ p.hooks c) } = .ok () v) :
    p.Sourced entries ids v ran := by
  have hmade : p.Sourced entries ids
      { u with forest := g.addHooks u.forest.components.size (copied ++ p.hooks c) } ran :=
    h.addComponent hadd fun b hkey hhooks =>
      { maker := ⟨c, .inr hentry, hkey.symm, fun hook hhook => by
          rw [hhooks]
          exact List.mem_append_right _ hhook⟩
        source := .inl hid }
  have hended := (Sourced.claiming p entries ids ran .own).claim buildFaults_any
    u.forest.components.size { u with
      active
      forest := g.addHooks u.forest.components.size (copied ++ p.hooks c) }
    (hmade.congr hmade.boundary fun _ => rfl)
  rwa [hclaim] at hended

/-- **Calling entries keeps every hook traceable.** -/
theorem GivesAll.runsAll {some : List Value} {few : List Nat} {keys : List String}
    (h : p.GivesAll some w few keys v) (hentries : some ⊆ entries) (hids : few ⊆ ids)
    {before : List Return} (hw : p.Sourced entries ids w before) :
    ∃ returns, p.RunsAll some w returns v ∧ p.Sourced entries ids v (before ++ returns) := by
  induction h generalizing before with
  | nil w => exact ⟨[], .nil w, by rwa [List.append_nil]⟩
  | @cons entry some w u v i few key keys first rest ih =>
    obtain ⟨hentry, hsome⟩ := List.cons_subset.mp hentries
    obtain ⟨hi, hfew⟩ := List.cons_subset.mp hids
    obtain ⟨shown, b, r, hroot, _⟩ := first
    obtain ⟨c, rfl⟩ : ∃ c, entry = .callable c := by
      cases entry with
      | callable c => exact ⟨c, rfl⟩
      | _ => cases hroot
    obtain ⟨result, u', e, copied, name, g, hcall, _, hname, hadd, hclaim, hx⟩ :=
      renderRoot_eq_ok hroot
    cases hname rfl
    cases Option.some.inj hx
    obtain ⟨given, hrecord⟩ := exists_recordEntry hcall
    have hgiven : p.Sourced entries ids u' (before ++ given) := by
      refine (p.attending_sourced entries ids before).recordEntry ?_ hrecord
      rw [List.append_nil]
      exact hw.congr hw.boundary fun _ => rfl
    obtain ⟨returns, hruns, hv⟩ := ih hsome hfew (hgiven.root hentry hi hadd hclaim)
    exact ⟨given ++ returns, .cons hrecord hroot hruns, by rwa [← List.append_assoc]⟩

end Program

/-! ## Calls of a page -/

/-- A page that was made calls the hooks of its components in order. -/
theorem Settings.artifacts_eq_ok {settings : Settings} {components : List Component}
    {styles : Value} {files : Files} {notices : List Notice} {a : Artifacts}
    (h : settings.artifacts components styles files = (notices, .ok a)) :
    ∃ page : Page, a.html = page.text ∧
      (components.flatMap fun c => c.boundary.hooks).mapM Value.expression = .ok page.calls := by
  cases components with
  | nil => cases h
  | cons root rest =>
    simp only [artifacts] at h
    split at h
    · cases h
    · obtain ⟨assets, _, h⟩ := except_bind_eq_ok.mp (congrArg Prod.snd h)
      obtain ⟨title, _, h⟩ := except_bind_eq_ok.mp h
      obtain ⟨calls, hcalls, h⟩ := except_bind_eq_ok.mp h
      obtain ⟨lang, _, h⟩ := except_bind_eq_ok.mp h
      cases h
      exact ⟨_, rfl, hcalls⟩

namespace Program

variable {p : Program} {start w w' : Workshop} {entries : List Value} {components : List Component}
  {before : List Return}

/-- Of two boundaries of one key, a hook of the one is a hook of the other, or it varies, unless an
entry made the first one. -/
theorem Stems.mem_hooks_or_varies {ids : List Nat} {ran : List Return} {f : Forest} {i j : Nat}
    {b d : Boundary} {hook : Value} (hb : p.Stems entries ids ran f i b) (hi : f.HasBoundary i b)
    (hd : p.Stems entries ids ran f j d) (hkey : d.key = b.key) (hhook : hook ∈ b.hooks) :
    i ∈ ids ∨ hook ∈ d.hooks ∨ p.Varies ran entries f b.key hook := by
  refine hb.source.imp_right fun hsource => ?_
  rcases hsource hook hhook with hbrought | ⟨r, hr, hname, hholds⟩
  · exact .inr (.brought hi rfl hbrought)
  · obtain ⟨c, hcalled, hother, hown⟩ := hd.maker
    by_cases hheld : hook ∈ p.hooks c
    · exact .inl (hown hheld)
    · exact .inr (.differs hr hname hholds hcalled (hother.trans hkey) hheld)

end Program

end Pageloom
