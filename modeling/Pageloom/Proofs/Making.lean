import Pageloom.Proofs.Building

/-!
# Calls that make and link nodes

Nodes are made and linked by three calls: one makes an element, one makes a component
around a node, and one adds a child. A call may be refused, and calls go on after that.

A forest is looked at through five views: the parent of a node, the children and the
owner of an element, and the root and the inside of a component. There is one lemma for
each call that says what becomes of the views; nothing later looks at the cells.

## Main definitions

* `Pageloom.Making` -- the calls
* `Pageloom.Workshop.make`, `Pageloom.Workshop.makeAll` -- calls one after the other
* `Pageloom.Workshop.NamesAll` -- calls that are about nodes that were made before
* `Pageloom.Forest.children`, `Pageloom.Forest.owner?`, `Pageloom.Forest.root?` -- views
* `Pageloom.Forest.Above` -- the step upwards across boundaries
-/

namespace Pageloom

/-! ## Calls -/

/-- A call that makes or links nodes. -/
inductive Making
  /-- Make an element. -/
  | element (tag token : String)
  /-- Make a component around a node. -/
  | component (root : NodeId) (key : String) (parameters : List String)
  /-- Add a value as a child of an element. -/
  | child (parent : Nat) (value : Value)

namespace Forest

/-- A node that was made. -/
def Has (f : Forest) : NodeId → Prop
  | .element i => i < f.elements.size
  | .component j => j < f.components.size

instance (f : Forest) : DecidablePred f.Has
  | .element i => inferInstanceAs (Decidable (i < f.elements.size))
  | .component j => inferInstanceAs (Decidable (j < f.components.size))

end Forest

namespace Making

/-- Carry out a call. -/
def run : Making → Build Unit
  | element tag token => Build.modifyForest fun f => (f.addElement tag token).1
  | component root key parameters => do
    let _ ← Build.wrapNode root key parameters
  | child parent value => Build.changeForest fun f => f.addValue parent value

/-- The nodes that a call is about were made before. -/
def Names (f : Forest) : Making → Prop
  | element _ _ => True
  | component root _ _ => f.Has root
  | child parent (.node h) => f.Has (.element parent) ∧ f.Has h.id
  | child parent _ => f.Has (.element parent)

instance (f : Forest) (m : Making) : Decidable (m.Names f) := by
  unfold Names
  split <;> infer_instance

end Making

namespace Workshop

/-- The workshop after a call, whether the call succeeds or not. -/
def make (w : Workshop) (m : Making) : Workshop :=
  match m.run w with
  | .ok _ v => v
  | .error _ v => v

/-- The workshop after calls, one after the other. -/
def makeAll : List Making → Workshop → Workshop
  | [], w => w
  | m :: ms, w => makeAll ms (w.make m)

/-- Every call is about nodes that were made before it. -/
def NamesAll : List Making → Workshop → Prop
  | [], _ => True
  | m :: ms, w => m.Names w.forest ∧ NamesAll ms (w.make m)

instance decidableNamesAll : (ms : List Making) → (w : Workshop) → Decidable (NamesAll ms w)
  | [], _ => inferInstanceAs (Decidable True)
  | m :: ms, w =>
    have := decidableNamesAll ms (w.make m)
    inferInstanceAs (Decidable (m.Names w.forest ∧ NamesAll ms (w.make m)))

end Workshop

namespace Forest

/-! ## Views -/

/-- The children of an element. -/
def children (f : Forest) (i : Nat) : List NodeId :=
  (f.elements[i]?.map ElementCell.children).getD []

/-- The component that an element belongs to as its root. -/
def owner? (f : Forest) (i : Nat) : Option Nat := f.elements[i]?.bind ElementCell.owner

/-- The root of a component, where it has one. -/
def root? (f : Forest) (j : Nat) : Option Nat := f.components[j]?.bind ComponentCell.root

/-- The element `p` stands directly above the element `i`. -/
def Above (f : Forest) (i p : Nat) : Prop := f.above? i = some p

theorem above?_eq (f : Forest) (i : Nat) : f.above? i =
    (f.parent? (.element i)).or ((f.owner? i).bind fun o => f.parent? (.component o)) := by
  simp only [above?, parent?, owner?]
  cases f.elements[i]? with
  | none => rfl
  | some c => cases hparent : c.parent <;> simp [hparent]

theorem has_element {f : Forest} {i : Nat} :
    f.Has (.element i) ↔ ∃ c, f.elements[i]? = some c := by
  simp [Has, Array.getElem?_eq_some_iff]

theorem has_component {f : Forest} {j : Nat} :
    f.Has (.component j) ↔ ∃ k, f.components[j]? = some k := by
  simp [Has, Array.getElem?_eq_some_iff]

theorem has_of_mem_children {f : Forest} {p : Nat} {id : NodeId} (h : id ∈ f.children p) :
    f.Has (.element p) := by
  unfold children at h
  cases hcell : f.elements[p]? with
  | none => simp [hcell] at h
  | some c => exact (Array.getElem?_eq_some_iff.mp hcell).1

theorem root_of_root? {f : Forest} {j r : Nat} (h : f.root? j = some r) : f.root j = .ok r := by
  unfold root? at h
  obtain ⟨k, hk, hr⟩ := Option.bind_eq_some_iff.mp h
  exact root_eq_ok.mpr ⟨k, hk, hr⟩

/-! ### What an element more changes

A new cell says of itself what a missing cell says: it has no parent, no children and no
owner. The views are therefore the same functions as before. -/

section

variable (f : Forest) (tag token : String)

theorem elements_addElement (i : Nat) : (f.addElement tag token).1.elements[i]? =
    if i = f.elements.size then some { element := { tag, token } } else f.elements[i]? :=
  Array.getElem?_push

theorem parent?_addElement : (f.addElement tag token).1.parent? = f.parent? := by
  funext id
  cases id with
  | component j => rfl
  | element i =>
    simp only [parent?, elements_addElement]
    split
    · next h => simp [h]
    · rfl

theorem children_addElement : (f.addElement tag token).1.children = f.children := by
  funext i
  simp only [children, elements_addElement]
  split
  · next h => simp [h]
  · rfl

theorem owner?_addElement : (f.addElement tag token).1.owner? = f.owner? := by
  funext i
  simp only [owner?, elements_addElement]
  split
  · next h => simp [h]
  · rfl

end

/-! ### What a change of one cell changes -/

section

variable (f : Forest) (i : Nat) {change : ElementCell → ElementCell}

theorem parent?_modifyElement (h : ∀ c, (change c).parent = c.parent) :
    (f.modifyElement i change).parent? = f.parent? := by
  funext id
  cases id with
  | component j => rfl
  | element q =>
    simp only [parent?, elements_modifyElement]
    split
    · cases f.elements[q]? <;> simp [h]
    · rfl

theorem children_modifyElement (h : ∀ c, (change c).children = c.children) :
    (f.modifyElement i change).children = f.children := by
  funext q
  simp only [children, elements_modifyElement]
  split
  · cases f.elements[q]? <;> simp [h]
  · rfl

theorem owner?_modifyElement (h : ∀ c, (change c).owner = c.owner) :
    (f.modifyElement i change).owner? = f.owner? := by
  funext q
  simp only [owner?, elements_modifyElement]
  split
  · cases f.elements[q]? <;> simp [h]
  · rfl

end

/-! ### What a component more changes -/

/-- A forest with one component more. -/
def withComponent (f : Forest) (k : ComponentCell) : Forest :=
  { f with components := f.components.push k }

theorem components_withComponent (f : Forest) (k : ComponentCell) (q : Nat) :
    (f.withComponent k).components[q]? =
      if q = f.components.size then some k else f.components[q]? := Array.getElem?_push

theorem parent?_withComponent (f : Forest) {k : ComponentCell} (hk : k.parent = none) :
    (f.withComponent k).parent? = f.parent? := by
  funext id
  cases id with
  | element i => rfl
  | component q =>
    simp only [parent?, components_withComponent]
    split
    · next h => simp [h, hk]
    · rfl

theorem root?_withComponent (f : Forest) (k : ComponentCell) (q : Nat) :
    (f.withComponent k).root? q = if q = f.components.size then k.root else f.root? q := by
  simp only [root?, components_withComponent]
  split <;> rfl

theorem around?_withComponent (f : Forest) (k : ComponentCell) (q : Nat) :
    (f.withComponent k).around? q = if q = f.components.size then k.around else f.around? q := by
  simp only [around?, components_withComponent]
  split <;> rfl

theorem root?_size (f : Forest) : f.root? f.components.size = none := by simp [root?]

section

variable {f g : Forest} {key : String} {parameters : List String} {j : Nat}

/-- A component around an element: it is the owner of its root from now on. -/
theorem addComponent_views {r : Nat} (hr : f.Has (.element r))
    (h : f.addComponent r key parameters = .ok (g, j)) :
    f.parent? (.element r) = none ∧ g.parent? = f.parent? ∧ g.children = f.children ∧
      (∀ i, g.owner? i = if i = r then some f.components.size else f.owner? i) ∧
      (∀ q, g.root? q = if q = f.components.size then some r else f.root? q) ∧
      ∀ q, g.around? q = if q = f.components.size then none else f.around? q := by
  obtain ⟨hfree, rfl⟩ : f.parent? (.element r) = none ∧
      g = (f.withComponent
        { root := some r
          boundary := { key, parameters, number := f.components.size } }).modifyElement r fun c =>
        { c with owner := some f.components.size } := by
    obtain ⟨hfree, _, rfl⟩ := addComponent_eq_ok h
    exact ⟨hfree, rfl⟩
  refine ⟨hfree, ?_, ?_, fun i => ?_, root?_withComponent f _, around?_withComponent f _⟩
  · refine (parent?_modifyElement _ r ?_).trans (parent?_withComponent f rfl)
    exact fun _ => rfl
  · refine children_modifyElement _ r ?_
    exact fun _ => rfl
  · obtain ⟨c, hc⟩ := has_element.mp hr
    simp only [owner?, elements_modifyElement, withComponent, eq_comm (a := i)]
    split
    · next heq => simp [← heq, hc]
    · rfl

/-- A component around a component has no root, and no other node knows of it. -/
theorem addAround_views {inner : Nat} (h : f.addAround inner key parameters = .ok (g, j)) :
    g.parent? = f.parent? ∧ g.children = f.children ∧ g.owner? = f.owner? ∧ g.root? = f.root? ∧
      ∀ q, g.around? q = if q = f.components.size then some inner else f.around? q := by
  obtain rfl : g = f.withComponent
      { root := none, boundary := { key, parameters, number := f.components.size },
        around := some inner } := by
    unfold addAround at h
    cases hparent : f.parent? (.component inner) with
    | some p =>
      rw [hparent] at h
      cases h
    | none =>
      rw [hparent] at h
      cases h
      rfl
  refine ⟨parent?_withComponent f rfl, rfl, rfl, funext fun q => ?_, around?_withComponent f _⟩
  rw [root?_withComponent]
  split
  · next hq => rw [hq, root?_size]
  · rfl

end

/-! ### What a link changes -/

section

variable (f : Forest) {p : Nat} {child : NodeId}

/-- The first half of a link: the child knows its parent. -/
def place (p : Nat) : NodeId → Forest
  | .element i => f.modifyElement i fun c => { c with parent := some p }
  | .component j => f.modifyComponent j fun c => { c with parent := some p }

theorem link_eq (p : Nat) (child : NodeId) : f.link p child =
    (f.place p child).modifyElement p fun c => { c with children := c.children ++ [child] } := by
  cases child <;> rfl

theorem parent?_place (hchild : f.Has child) (id : NodeId) :
    (f.place p child).parent? id = if id = child then some p else f.parent? id := by
  cases child with
  | element i =>
    obtain ⟨c, hc⟩ := has_element.mp hchild
    cases id with
    | component q => simp [place, parent?, modifyElement]
    | element q =>
      simp only [place, parent?, elements_modifyElement, NodeId.element.injEq, eq_comm (a := q)]
      split
      · next h => simp [← h, hc]
      · rfl
  | component j =>
    obtain ⟨k, hk⟩ := has_component.mp hchild
    cases id with
    | element q => simp [place, parent?, modifyComponent]
    | component q =>
      simp only [place, parent?, modifyComponent, Array.getElem?_modify, NodeId.component.injEq,
        eq_comm (a := q)]
      split
      · next h => simp [← h, hk]
      · rfl

theorem parent?_link (hchild : f.Has child) (id : NodeId) :
    (f.link p child).parent? id = if id = child then some p else f.parent? id := by
  rw [link_eq, ← parent?_place f hchild]
  refine congrFun (parent?_modifyElement _ p ?_) id
  exact fun _ => rfl

theorem children_place : (f.place p child).children = f.children := by
  cases child with
  | element i => exact children_modifyElement f i fun _ => rfl
  | component j => rfl

theorem children_link (hp : f.Has (.element p)) (q : Nat) :
    (f.link p child).children q = if q = p then f.children p ++ [child] else f.children q := by
  have hcell : ∃ c, (f.place p child).elements[p]? = some c := by
    refine has_element.mp ?_
    cases child with
    | element i => simpa [Has, place] using hp
    | component j => exact hp
  obtain ⟨c, hc⟩ := hcell
  have hcells : (f.link p child).elements[q]? =
      if p = q then (f.place p child).elements[q]?.map fun c =>
        { c with children := c.children ++ [child] } else (f.place p child).elements[q]? := by
    rw [link_eq, elements_modifyElement]
  rw [← show (f.place p child).children = f.children from f.children_place]
  simp only [children, hcells, eq_comm (a := q)]
  split
  · next h => simp [← h, hc]
  · rfl

theorem owner?_link : (f.link p child).owner? = f.owner? := by
  have hplace : (f.place p child).owner? = f.owner? := by
    cases child with
    | element i => exact owner?_modifyElement f i fun _ => rfl
    | component j => rfl
  rw [link_eq, ← hplace]
  refine owner?_modifyElement _ p ?_
  exact fun _ => rfl

theorem root?_link : (f.link p child).root? = f.root? := by
  funext q
  cases child with
  | element i => rfl
  | component j =>
    simp only [link, root?, modifyElement, modifyComponent, Array.getElem?_modify]
    split
    · cases f.components[q]? <;> rfl
    · rfl

theorem around?_link : (f.link p child).around? = f.around? := by
  funext q
  cases child with
  | element i => rfl
  | component j =>
    simp only [link, around?, modifyElement, modifyComponent, Array.getElem?_modify]
    split
    · cases f.components[q]? <;> rfl
    · rfl

end

end Forest

/-! ## Outcomes of calls -/

namespace Build

variable {w v : Workshop}

theorem lift_eq_error {α : Type} {x : Except Fault α} {fault : Fault}
    (h : lift x w = .error fault v) : v = w := by
  cases x with
  | ok a => cases h
  | error e =>
    cases h
    rfl

theorem changeForest_eq_error {change : Forest → Except Fault Forest} {fault : Fault}
    (h : changeForest change w = .error fault v) : v = w := by
  rcases bind_eq_error.mp h with h | ⟨g, u, hforest, h⟩
  · cases h
  · obtain ⟨rfl, rfl⟩ := forest_eq_ok hforest
    rcases bind_eq_error.mp h with h | ⟨g', u, _, h⟩
    · exact lift_eq_error h
    · cases h

/-- Making a component adds it to the forest, and does nothing else. -/
theorem addTo_eq_ok (add : Forest → Except Fault (Forest × Nat)) {j : Nat}
    (h : (do
      let (f, i) ← lift (add (← forest))
      modifyForest fun _ => f
      return i : Build Nat) w = .ok j v) :
    ∃ g, add w.forest = .ok (g, j) ∧ v = { w with forest := g } := by
  obtain ⟨f, u, hforest, h⟩ := bind_eq_ok.mp h
  obtain ⟨rfl, rfl⟩ := forest_eq_ok hforest
  obtain ⟨⟨g, i⟩, u, hlift, h⟩ := bind_eq_ok.mp h
  obtain ⟨hadd, rfl⟩ := lift_eq_ok.mp hlift
  cases h
  exact ⟨g, hadd, rfl⟩

theorem addTo_eq_error (add : Forest → Except Fault (Forest × Nat)) {fault : Fault}
    (h : (do
      let (f, i) ← lift (add (← forest))
      modifyForest fun _ => f
      return i : Build Nat) w = .error fault v) : v = w := by
  rcases bind_eq_error.mp h with h | ⟨f, u, hforest, h⟩
  · cases h
  · obtain ⟨rfl, rfl⟩ := forest_eq_ok hforest
    rcases bind_eq_error.mp h with h | ⟨g, u, _, h⟩
    · exact lift_eq_error h
    · cases h

theorem wrapNode_element_eq_ok {r j : Nat} {key : String} {parameters : List String}
    (h : wrapNode (.element r) key parameters w = .ok j v) :
    ∃ g, w.forest.addComponent r key parameters = .ok (g, j) ∧ v = { w with forest := g } :=
  addTo_eq_ok (fun f => f.addComponent r key parameters) h

theorem wrapNode_component_eq_ok {inner j : Nat} {key : String} {parameters : List String}
    (h : wrapNode (.component inner) key parameters w = .ok j v) :
    ∃ g, w.forest.addAround inner key parameters = .ok (g, j) ∧ v = { w with forest := g } :=
  addTo_eq_ok (fun f => f.addAround inner key parameters) h

theorem wrapNode_eq_error {root : NodeId} {key : String} {parameters : List String} {fault : Fault}
    (h : wrapNode root key parameters w = .error fault v) : v = w := by
  cases root with
  | element r => exact addTo_eq_error (fun f => f.addComponent r key parameters) h
  | component inner => exact addTo_eq_error (fun f => f.addAround inner key parameters) h

end Build

end Pageloom
