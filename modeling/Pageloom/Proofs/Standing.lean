import Pageloom.Proofs.Outcome
import Pageloom.Proofs.Trees

/-!
# Trees that stand in a forest

A finished element never changes again: later work adds other elements, links its
root to a parent, or gives hooks to a component. So a tree that stands in a forest
stands in every later one. In an orderly forest the attributes of an element have
distinct names, and a component that is the child of an element has the names that
its own tree refers to as its parameters.

## Main definitions

* `Pageloom.Forest.Stands` -- a tree that stands in a forest, hooks aside
* `Pageloom.Forest.Extends` -- a later state of a forest
* `Pageloom.Forest.Fit`, `Pageloom.Forest.Orderly` -- what building keeps true
* `Pageloom.Forest.stands_of_readChecked` -- what is read stands
* `Pageloom.Forest.Orderly.tree` -- what this says of a tree
-/

namespace Pageloom

namespace Forest

/-- The boundary that a place stands for, hooks aside: none for an element, and that
of the component for a component. -/
def Bounds (f : Forest) : NodeId → Option Boundary → Prop
  | .element _, b => b = none
  | .component j, b => ∃ k b', b = some b' ∧ f.components[j]? = some k ∧
    k.boundary.key = b'.key ∧ k.boundary.parameters = b'.parameters

mutual

/-- A tree stands at a place of a forest. -/
def Stands (f : Forest) : Node → NodeId → Prop
  | .mk b e cs, id => f.Bounds id b ∧ ∃ i c, f.rootOf id = .ok i ∧ f.elements[i]? = some c ∧
    c.element = e ∧ StandAll f cs c.children

/-- Trees stand at places of a forest, one by one. -/
def StandAll (f : Forest) : List Node → List NodeId → Prop
  | [], ids => ids = []
  | n :: ns, ids => ∃ id rest, ids = id :: rest ∧ Stands f n id ∧ StandAll f ns rest

end

/-! ## Reading -/

theorem standAll_of_mapM {f : Forest} {g : NodeId → Except Fault Node}
    (hg : ∀ id n, g id = .ok n → f.Stands n id) : ∀ {ids : List NodeId} {ns : List Node},
      ids.mapM g = .ok ns → f.StandAll ns ids
  | [], _, h => by
    cases h
    rfl
  | id :: ids, _, h => by
    obtain ⟨n, ns, rfl, hfirst, hrest⟩ := mapM_cons_eq_ok h
    exact ⟨id, ids, rfl, hg id n hfirst, standAll_of_mapM hg hrest⟩

theorem rootOf_of_boundaryOf {f : Forest} {j i : Nat} {b : Boundary}
    (h : f.boundaryOf j = .ok (b, i)) :
    f.rootOf (.component j) = .ok i ∧ f.Bounds (.component j) (some b) := by
  unfold boundaryOf at h
  cases hcell : f.components[j]? with
  | none =>
    rw [hcell] at h
    cases h
  | some k =>
    rw [hcell] at h
    cases hroot : f.root j with
    | error fault =>
      rw [hroot] at h
      cases h
    | ok r =>
      rw [hroot] at h
      cases h
      exact ⟨hroot, k, k.boundary, rfl, hcell, rfl, rfl⟩

/-- What is read with the boundary of a place stands at that place. -/
theorem stands_of_readWithin {f : Forest} {check : ElementCell → Except Fault Unit} :
    ∀ {depth : Nat} {b : Option Boundary} {i : Nat} {n : Node} {id : NodeId},
      f.readWithin f.boundaryOf check depth b i = .ok n → f.rootOf id = .ok i → f.Bounds id b →
      f.Stands n id
  | 0, _, _, _, _, h, _, _ => by cases h
  | depth + 1, b, i, n, id, h, hroot, hbounds => by
    rw [readWithin] at h
    cases hcell : f.elements[i]? with
    | none =>
      rw [hcell] at h
      cases h
    | some c =>
      rw [hcell] at h
      obtain ⟨_, _, h⟩ := except_bind_eq_ok.mp h
      obtain ⟨ns, hchildren, h⟩ := except_bind_eq_ok.mp h
      cases h
      refine ⟨hbounds, i, c, hroot, hcell, rfl, standAll_of_mapM ?_ hchildren⟩
      intro child m hm
      cases child with
      | element j => exact stands_of_readWithin hm rfl rfl
      | component j =>
        cases hboundary : f.boundaryOf j with
        | error fault =>
          simp only [hboundary] at hm
          cases hm
        | ok core =>
          obtain ⟨b', r⟩ := core
          simp only [hboundary] at hm
          obtain ⟨hr, hb⟩ := rootOf_of_boundaryOf hboundary
          exact stands_of_readWithin hm hr hb

theorem stands_of_readChecked {f : Forest} {check : ElementCell → Except Fault Unit} {i : Nat}
    {n : Node} (h : f.readChecked f.boundaryOf check (.element i) = .ok n) :
    f.Stands n (.element i) := stands_of_readWithin h rfl rfl

/-! ## Parts of a standing tree -/

theorem StandAll.exists_place {f : Forest} : ∀ {ns : List Node} {ids : List NodeId} {n : Node},
    f.StandAll ns ids → n ∈ ns → ∃ id ∈ ids, f.Stands n id
  | [], _, _, _, hn => by cases hn
  | m :: ns, ids, n, h, hn => by
    obtain ⟨id, rest, rfl, hfirst, hrest⟩ := h
    rcases List.mem_cons.mp hn with rfl | hn
    · exact ⟨id, List.mem_cons_self, hfirst⟩
    · obtain ⟨id', hid, hstands⟩ := StandAll.exists_place hrest hn
      exact ⟨id', List.mem_cons_of_mem _ hid, hstands⟩

mutual

theorem Stands.exists_place {f : Forest} : ∀ {n m : Node} {id : NodeId},
    f.Stands n id → m ∈ n.preorder → ∃ id', f.Stands m id'
  | .mk b e cs, m, id, h, hm => by
    rw [Node.preorder, List.mem_cons] at hm
    rcases hm with rfl | hm
    · exact ⟨id, h⟩
    · obtain ⟨_, i, c, _, _, _, hbelow⟩ := h
      exact StandAll.exists_place_below hbelow hm

theorem StandAll.exists_place_below {f : Forest} :
    ∀ {ns : List Node} {ids : List NodeId} {m : Node},
    f.StandAll ns ids → m ∈ Node.preorderAll ns → ∃ id', f.Stands m id'
  | [], _, _, _, hm => by simp [Node.preorderAll] at hm
  | n :: ns, ids, m, h, hm => by
    obtain ⟨id, rest, rfl, hfirst, hrest⟩ := h
    rw [Node.preorderAll, List.mem_append] at hm
    rcases hm with hm | hm
    · exact Stands.exists_place hfirst hm
    · exact StandAll.exists_place_below hrest hm

end

mutual

/-- Trees with one root have the same values everywhere. -/
theorem Stands.values_eq {f : Forest} : ∀ {n m : Node} {id id' : NodeId}, f.Stands n id →
    f.Stands m id' → f.rootOf id = f.rootOf id' →
    n.preorder.map Node.values = m.preorder.map Node.values
  | .mk b e cs, .mk b' e' cs', id, id', h, h', hroot => by
    obtain ⟨_, i, c, hi, hc, rfl, hbelow⟩ := h
    obtain ⟨_, i', c', hi', hc', rfl, hbelow'⟩ := h'
    cases Except.ok.inj (hi.symm.trans (hroot.trans hi'))
    cases Option.some.inj (hc.symm.trans hc')
    obtain ⟨hempty, hvalues⟩ := StandAll.values_eq hbelow hbelow'
    simp only [Node.preorder, List.map_cons, hvalues, Node.values, Node.element, Node.children,
      hempty]

theorem StandAll.values_eq {f : Forest} : ∀ {ns ms : List Node} {ids : List NodeId},
    f.StandAll ns ids → f.StandAll ms ids →
    ns.isEmpty = ms.isEmpty ∧
      (Node.preorderAll ns).map Node.values = (Node.preorderAll ms).map Node.values
  | [], [], _, _, _ => ⟨rfl, rfl⟩
  | [], m :: ms, ids, h, h' => by
    obtain ⟨id, rest, rfl, _⟩ := h'
    cases h
  | n :: ns, [], ids, h, h' => by
    obtain ⟨id, rest, rfl, _⟩ := h
    cases h'
  | n :: ns, m :: ms, ids, h, h' => by
    obtain ⟨id, rest, rfl, hfirst, hrest⟩ := h
    obtain ⟨id', rest', heq, hfirst', hrest'⟩ := h'
    cases heq
    have hvalues := Stands.values_eq hfirst hfirst' rfl
    refine ⟨rfl, ?_⟩
    simp only [Node.preorderAll, List.map_append, hvalues, (StandAll.values_eq hrest hrest').2]

end

theorem Stands.boundNames_eq {f : Forest} {n m : Node} {id id' : NodeId} (cue : Cue)
    (h : f.Stands n id) (h' : f.Stands m id') (hroot : f.rootOf id = f.rootOf id') :
    n.boundNames cue = m.boundNames cue := by
  have hvalues := congrArg (List.flatMap (List.filterMap (referenceName? cue)))
    (Stands.values_eq h h' hroot)
  simp only [List.flatMap_map] at hvalues
  simp only [Node.boundNames, hvalues]

/-! ## Later states -/

/-- A later state of a forest: elements say and hold what they did, and components
have their roots, keys and parameters. -/
structure Extends (f g : Forest) : Prop where
  elements : ∀ {i : Nat} {c : ElementCell}, f.elements[i]? = some c →
    ∃ d, g.elements[i]? = some d ∧ d.element = c.element ∧ d.children = c.children
  components : ∀ {j : Nat} {k : ComponentCell}, f.components[j]? = some k →
    ∃ l, g.components[j]? = some l ∧ l.root = k.root ∧ l.boundary.key = k.boundary.key ∧
      l.boundary.parameters = k.boundary.parameters

theorem Extends.refl (f : Forest) : f.Extends f :=
  ⟨fun h => ⟨_, h, rfl, rfl⟩, fun h => ⟨_, h, rfl, rfl, rfl⟩⟩

theorem Extends.trans {f g h : Forest} (hfg : f.Extends g) (hgh : g.Extends h) : f.Extends h where
  elements hc := by
    obtain ⟨d, hd, helement, hchildren⟩ := hfg.elements hc
    obtain ⟨d', hd', helement', hchildren'⟩ := hgh.elements hd
    exact ⟨d', hd', helement'.trans helement, hchildren'.trans hchildren⟩
  components hk := by
    obtain ⟨l, hl, hroot, hkey, hparameters⟩ := hfg.components hk
    obtain ⟨l', hl', hroot', hkey', hparameters'⟩ := hgh.components hl
    exact ⟨l', hl', hroot'.trans hroot, hkey'.trans hkey, hparameters'.trans hparameters⟩

theorem root_eq_ok {f : Forest} {j r : Nat} :
    f.root j = .ok r ↔ ∃ k, f.components[j]? = some k ∧ k.root = some r := by
  unfold root
  cases hk : f.components[j]? with
  | none => simp
  | some k => cases hr : k.root <;> simp [hr]

theorem Extends.rootOf {f g : Forest} (h : f.Extends g) {id : NodeId} {i : Nat}
    (hroot : f.rootOf id = .ok i) : g.rootOf id = .ok i := by
  cases id with
  | element j => exact hroot
  | component j =>
    obtain ⟨k, hk, hr⟩ := root_eq_ok.mp hroot
    obtain ⟨l, hl, hroot', _⟩ := h.components hk
    exact root_eq_ok.mpr ⟨l, hl, hroot'.trans hr⟩

theorem Bounds.mono {f g : Forest} (h : f.Extends g) {id : NodeId} {b : Option Boundary}
    (hb : f.Bounds id b) : g.Bounds id b := by
  cases id with
  | element j => exact hb
  | component j =>
    obtain ⟨k, b', rfl, hk, hkey, hparameters⟩ := hb
    obtain ⟨l, hl, _, hkey', hparameters'⟩ := h.components hk
    exact ⟨l, b', rfl, hl, hkey'.trans hkey, hparameters'.trans hparameters⟩

mutual

theorem Stands.mono {f g : Forest} (h : f.Extends g) : ∀ {n : Node} {id : NodeId},
    f.Stands n id → g.Stands n id
  | .mk b e cs, id, ⟨hbounds, i, c, hroot, hc, helement, hbelow⟩ => by
    obtain ⟨d, hd, helement', hchildren⟩ := h.elements hc
    exact ⟨hbounds.mono h, i, d, h.rootOf hroot, hd, helement'.trans helement,
      hchildren ▸ StandAll.mono h hbelow⟩

theorem StandAll.mono {f g : Forest} (h : f.Extends g) : ∀ {ns : List Node} {ids : List NodeId},
    f.StandAll ns ids → g.StandAll ns ids
  | [], _, hids => hids
  | _ :: _, _, ⟨id, rest, hids, hfirst, hrest⟩ =>
    ⟨id, rest, hids, Stands.mono h hfirst, StandAll.mono h hrest⟩

end

/-! ## Orderly forests -/

/-- A place that may be a child: a component there has the names that its tree refers
to as its parameters. -/
def Fit (cue : Cue) (f : Forest) : NodeId → Prop
  | .element _ => True
  | .component j => ∃ k r n, f.components[j]? = some k ∧ k.root = some r ∧
    f.Stands n (.element r) ∧ k.boundary.parameters = n.boundNames cue

theorem Fit.mono {cue : Cue} {f g : Forest} (h : f.Extends g) {id : NodeId} (hfit : f.Fit cue id) :
    g.Fit cue id := by
  cases id with
  | element j => trivial
  | component j =>
    obtain ⟨k, r, n, hk, hr, hstands, hparameters⟩ := hfit
    obtain ⟨l, hl, hroot, _, hparameters'⟩ := h.components hk
    exact ⟨l, r, n, hl, hroot.trans hr, hstands.mono h, hparameters'.trans hparameters⟩

/-- An element whose attributes have distinct names, and whose children are fit. -/
def Tidy (cue : Cue) (f : Forest) (c : ElementCell) : Prop :=
  c.element.attributes.keys.Nodup ∧ ∀ id ∈ c.children, f.Fit cue id

/-- A forest all of whose elements are tidy. -/
def Orderly (cue : Cue) (f : Forest) : Prop :=
  ∀ (i : Nat) (c : ElementCell), f.elements[i]? = some c → f.Tidy cue c

theorem orderly_empty (cue : Cue) : Forest.empty.Orderly cue := by
  intro i c hc
  simp [Forest.empty] at hc

/-- A later state with no more elements is as orderly as the earlier one. -/
theorem Orderly.of_extends {cue : Cue} {f g : Forest} (h : f.Orderly cue) (hfg : f.Extends g)
    (hsize : g.elements.size = f.elements.size) : g.Orderly cue := by
  intro i d hd
  have hi : i < f.elements.size := hsize ▸ (Array.getElem?_eq_some_iff.mp hd).1
  obtain ⟨d', hd', helement, hchildren⟩ := hfg.elements (Array.getElem?_eq_getElem hi)
  cases Option.some.inj (hd.symm.trans hd')
  obtain ⟨hnodup, hfit⟩ := h i _ (Array.getElem?_eq_getElem hi)
  exact ⟨helement ▸ hnodup, fun id hid => (hfit id (hchildren ▸ hid)).mono hfg⟩

/-- Where the component children of elements are fit, the components nested in a tree have the
names that they refer to as their parameters. -/
theorem Stands.parameters_eq {cue : Cue} {f : Forest} {n : Node} {id : NodeId}
    (hn : f.Stands n id)
    (hfit : ∀ (i : Nat) (c : ElementCell), f.elements[i]? = some c →
      ∀ (j : Nat) (k : ComponentCell), .component j ∈ c.children → f.components[j]? = some k →
        f.Fit cue (.component j)) :
    ∀ m ∈ n.nested, ∀ b, m.boundary = some b → b.parameters = m.boundNames cue := by
  intro m hm b hb
  obtain ⟨k, hk, hmem, _⟩ := Node.mem_nested.mp hm
  obtain ⟨id', hk⟩ := hn.exists_place hk
  obtain ⟨b', e, cs⟩ := k
  obtain ⟨_, i, c, _, hc, rfl, hbelow⟩ := hk
  obtain ⟨child, hchild, hstands⟩ := hbelow.exists_place hmem
  obtain ⟨bm, em, csm⟩ := m
  cases hb
  cases child with
  | element j => exact absurd hstands.1 (by simp [Bounds])
  | component j =>
    obtain ⟨l', b', heq, hl', _, hparameters'⟩ := hstands.1
    obtain ⟨l, r, t, hl, hr, ht, hparameters⟩ := hfit i c hc j l' hchild hl'
    cases heq
    cases Option.some.inj (hl.symm.trans hl')
    have hroot : f.rootOf (.component j) = f.rootOf (.element r) :=
      root_eq_ok.mpr ⟨_, hl, hr⟩
    rw [← hparameters', hparameters, hstands.boundNames_eq cue ht hroot]

/-- What an orderly forest says of a tree: attributes have distinct names, and nested
components have the names that they refer to as their parameters. -/
theorem Orderly.tree {cue : Cue} {f : Forest} (h : f.Orderly cue) {n : Node} {id : NodeId}
    (hn : f.Stands n id) :
    (∀ m ∈ n.preorder, m.element.attributes.keys.Nodup) ∧
      ∀ m ∈ n.nested, ∀ b, m.boundary = some b → b.parameters = m.boundNames cue := by
  refine ⟨fun m hm => ?_, hn.parameters_eq fun i c hc j _ hj _ => (h i c hc).2 _ hj⟩
  obtain ⟨id', hm⟩ := hn.exists_place hm
  obtain ⟨b, e, cs⟩ := m
  obtain ⟨_, i, c, _, hc, rfl, _⟩ := hm
  exact (h i c hc).1

end Forest

end Pageloom
