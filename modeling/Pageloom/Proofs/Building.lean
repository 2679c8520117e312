import Pageloom.Proofs.Standing
import Pageloom.Proofs.ValueNodes

/-!
# Building keeps a forest orderly

What builders do to a forest, one operation after the other: an element is made and
filled while nothing else is under way, so that it is finished before any component
is made around it. A component takes its parameters from the tree that stands below
it at that time, and that tree stays as it is.

## Main definitions

* `Pageloom.Forest.Grown` -- a forest with one element under way
* `Pageloom.Workshop.Like`, `Pageloom.Workshop.Settles` -- what an operation keeps
* `Pageloom.Build.element_grown`, `Pageloom.Build.finish_settles` -- the operations
-/

namespace Pageloom

namespace Forest

/-! ## Changes of a forest -/

theorem elements_modifyElement (f : Forest) (i j : Nat) (change : ElementCell → ElementCell) :
    (f.modifyElement i change).elements[j]? =
      if i = j then f.elements[j]?.map change else f.elements[j]? :=
  Array.getElem?_modify

@[simp] theorem size_modifyElement (f : Forest) (i : Nat) (change : ElementCell → ElementCell) :
    (f.modifyElement i change).elements.size = f.elements.size := Array.size_modify

theorem extends_modifyElement (f : Forest) (i : Nat) {change : ElementCell → ElementCell}
    (h : ∀ c, (change c).element = c.element ∧ (change c).children = c.children) :
    f.Extends (f.modifyElement i change) where
  elements {j c} hc := by
    rw [elements_modifyElement, hc]
    by_cases hij : i = j
    · exact ⟨change c, by simp [hij], h c⟩
    · exact ⟨c, by simp [hij], rfl, rfl⟩
  components hk := ⟨_, hk, rfl, rfl, rfl⟩

/-- Whatever is written to an element that is new, the elements before it are as they were. -/
theorem Extends.modifyNew {f g : Forest} (h : f.Extends g) (change : ElementCell → ElementCell) :
    f.Extends (g.modifyElement f.elements.size change) where
  elements {j c} hc := by
    have hj := (Array.getElem?_eq_some_iff.mp hc).1
    rw [elements_modifyElement, if_neg (by omega)]
    exact h.elements hc
  components := h.components

theorem extends_modifyComponent (f : Forest) (i : Nat) {change : ComponentCell → ComponentCell}
    (h : ∀ k, (change k).root = k.root ∧ (change k).boundary.key = k.boundary.key ∧
      (change k).boundary.parameters = k.boundary.parameters) :
    f.Extends (f.modifyComponent i change) where
  elements hc := ⟨_, hc, rfl, rfl⟩
  components {j k} hk := by
    have hcells : (f.modifyComponent i change).components[j]? =
        if i = j then f.components[j]?.map change else f.components[j]? := Array.getElem?_modify
    rw [hcells, hk]
    by_cases hij : i = j
    · exact ⟨change k, by simp [hij], h k⟩
    · exact ⟨k, by simp [hij], rfl, rfl, rfl⟩

theorem extends_addHooks (f : Forest) (i : Nat) (hooks : List Value) :
    f.Extends (f.addHooks i hooks) := extends_modifyComponent f i fun _ => ⟨rfl, rfl, rfl⟩

theorem extends_addElement (f : Forest) (tag token : String) :
    f.Extends (f.addElement tag token).1 where
  elements {i c} hc := by
    have hi := (Array.getElem?_eq_some_iff.mp hc).1
    refine ⟨c, ?_, rfl, rfl⟩
    rw [addElement, Array.getElem?_push_lt hi, ← hc, Array.getElem?_eq_getElem hi]
  components hk := ⟨_, hk, rfl, rfl, rfl⟩

/-- A child that is added has no place and does not stand above its parent. -/
theorem addChild_eq_ok {f g : Forest} {parent : Nat} {child : NodeId}
    (h : f.addChild parent child = .ok g) : ∃ target, f.attachable child = .ok target ∧
      (∀ i, target = some i → i ∉ f.ancestors parent) ∧ g = f.link parent child := by
  obtain ⟨target, htarget, h⟩ := except_bind_eq_ok.mp h
  split at h
  · cases h
  · next hapart =>
    cases h
    refine ⟨target, htarget, ?_, rfl⟩
    rintro i rfl
    simpa using hapart

/-- A component is made around an element without a parent, and comes after the components that
are there. -/
theorem addComponent_eq_ok {f g : Forest} {root i : Nat} {key : String} {parameters : List String}
    (h : f.addComponent root key parameters = .ok (g, i)) :
    f.parent? (.element root) = none ∧ i = f.components.size ∧
      g = modifyElement
        { f with
          components := f.components.push
            { root := some root, boundary := { key, parameters, number := f.components.size } } }
        root fun c => { c with owner := some f.components.size } := by
  unfold addComponent at h
  cases hparent : f.parent? (.element root) with
  | some p =>
    rw [hparent] at h
    cases h
  | none =>
    rw [hparent] at h
    cases h
    exact ⟨rfl, rfl, rfl⟩

/-- A component that is made has the given root and parameters. -/
theorem extends_addComponent {f g : Forest} {root i : Nat} {key : String} {parameters : List String}
    (h : f.addComponent root key parameters = .ok (g, i)) :
    f.Extends g ∧ g.elements.size = f.elements.size ∧
      ∃ k, g.components[i]? = some k ∧ k.root = some root ∧ k.boundary.parameters = parameters := by
  obtain ⟨_, rfl, rfl⟩ := addComponent_eq_ok h
  refine ⟨⟨fun {j c} hc => ?_, fun {j k} hk => ?_⟩, size_modifyElement _ _ _, _,
    Array.getElem?_push_size, rfl, rfl⟩
  · rw [elements_modifyElement, hc]
    by_cases hj : root = j
    · exact ⟨{ c with owner := some f.components.size }, by simp [hj], rfl, rfl⟩
    · exact ⟨c, by simp [hj], rfl, rfl⟩
  · have hj := (Array.getElem?_eq_some_iff.mp hk).1
    refine ⟨k, ?_, rfl, rfl, rfl⟩
    rw [modifyElement, Array.getElem?_push_lt hj, ← hk, Array.getElem?_eq_getElem hj]

/-! ## An element under way -/

/-- A forest with one element more than another, which is tidy. -/
structure Grown (cue : Cue) (f g : Forest) : Prop where
  later : f.Extends g
  size : g.elements.size = f.elements.size + 1
  tidy : ∀ c, g.elements[f.elements.size]? = some c → f.Tidy cue c

namespace Grown

variable {cue : Cue} {f g h : Forest}

theorem orderly (hg : Grown cue f g) (hf : f.Orderly cue) : g.Orderly cue := by
  intro i c hc
  have hi := (Array.getElem?_eq_some_iff.mp hc).1
  rw [hg.size] at hi
  have htidy : f.Tidy cue c := by
    rcases Nat.lt_succ_iff_lt_or_eq.mp hi with hlt | rfl
    · obtain ⟨d, hd, helement, hchildren⟩ := hg.later.elements (Array.getElem?_eq_getElem hlt)
      cases Option.some.inj (hc.symm.trans hd)
      obtain ⟨hnodup, hfit⟩ := hf i _ (Array.getElem?_eq_getElem hlt)
      exact ⟨helement ▸ hnodup, fun id hid => hfit id (hchildren ▸ hid)⟩
    · exact hg.tidy c hc
  exact ⟨htidy.1, fun id hid => (htidy.2 id hid).mono hg.later⟩

theorem start (f : Forest) (tag token : String) : Grown cue f (f.addElement tag token).1 where
  later := extends_addElement f tag token
  size := Array.size_push _
  tidy c hc := by
    rw [addElement, Array.getElem?_push_size] at hc
    cases hc
    exact ⟨List.nodup_nil, by simp⟩

theorem modify (hg : Grown cue f g) {change : ElementCell → ElementCell}
    (hchange : ∀ c, f.Tidy cue c → f.Tidy cue (change c)) :
    Grown cue f (g.modifyElement f.elements.size change) where
  later := hg.later.modifyNew change
  size := by rw [size_modifyElement, hg.size]
  tidy c hc := by
    rw [elements_modifyElement, if_pos rfl] at hc
    obtain ⟨d, hd, rfl⟩ := Option.map_eq_some_iff.mp hc
    exact hchange d (hg.tidy d hd)

theorem extend (hg : Grown cue f g) (hgh : g.Extends h)
    (hsize : h.elements.size = g.elements.size) : Grown cue f h where
  later := hg.later.trans hgh
  size := hsize.trans hg.size
  tidy c hc := by
    have hi : f.elements.size < g.elements.size := by rw [hg.size]; omega
    obtain ⟨d, hd, helement, hchildren⟩ := hgh.elements (Array.getElem?_eq_getElem hi)
    cases Option.some.inj (hc.symm.trans hd)
    obtain ⟨hnodup, hfit⟩ := hg.tidy _ (Array.getElem?_eq_getElem hi)
    exact ⟨helement ▸ hnodup, fun id hid => hfit id (hchildren ▸ hid)⟩

theorem addChild (hg : Grown cue f g) {id : NodeId} (hid : f.Fit cue id)
    (h' : g.addChild f.elements.size id = .ok h) : Grown cue f h := by
  obtain ⟨_, _, _, rfl⟩ := addChild_eq_ok h'
  have hchild : ∀ c, f.Tidy cue c → f.Tidy cue { c with children := c.children ++ [id] } := by
    intro c hc
    refine ⟨hc.1, fun id' hid' => ?_⟩
    rcases List.mem_append.mp hid' with hold | hnew
    · exact hc.2 id' hold
    · rw [List.mem_singleton.mp hnew]
      exact hid
  cases id with
  | element i =>
    refine modify (extend hg (extends_modifyElement g i ?_) (size_modifyElement g i _)) hchild
    exact fun _ => ⟨rfl, rfl⟩
  | component j =>
    refine modify (extend hg (extends_modifyComponent g j ?_) rfl) hchild
    exact fun _ => ⟨rfl, rfl, rfl⟩

end Grown

end Forest

/-! ## Operations of builders -/

/-- A workshop that serves, compares and names as another one does. -/
structure Workshop.Like (w v : Workshop) : Prop where
  active : v.active = w.active
  sigil : v.own.sigil = w.own.sigil
  names : v.names = w.names

theorem Workshop.Like.refl (w : Workshop) : w.Like w := ⟨rfl, rfl, rfl⟩

theorem Workshop.Like.trans {w v u : Workshop} (h : w.Like v) (h' : v.Like u) : w.Like u :=
  ⟨h'.active.trans h.active, h'.sigil.trans h.sigil, h'.names.trans h.names⟩

theorem Workshop.like_setBuilder (w : Workshop) (seat : Seat) {b : Builder}
    (h : b.sigil = (w.builder seat).sigil) (f : Forest) :
    w.Like { w.setBuilder seat b with forest := f } := by
  cases seat
  · exact ⟨rfl, h, rfl⟩
  · exact ⟨rfl, rfl, rfl⟩
  · exact ⟨rfl, rfl, rfl⟩

namespace Build

variable {cue : Cue} {f : Forest} {w v : Workshop} {seat : Seat}

theorem modifyForest_eq_ok {change : Forest → Forest} {a : Unit}
    (h : modifyForest change w = .ok a v) : v = { w with forest := change w.forest } := by
  cases h
  rfl

theorem forest_eq_ok {g : Forest} (h : forest w = .ok g v) : g = w.forest ∧ v = w := by
  cases h
  exact ⟨rfl, rfl⟩

theorem changeForest_eq_ok {change : Forest → Except Fault Forest} {a : Unit}
    (h : changeForest change w = .ok a v) :
    ∃ g, change w.forest = .ok g ∧ v = { w with forest := g } := by
  obtain ⟨g, u, hforest, h⟩ := bind_eq_ok.mp h
  obtain ⟨rfl, rfl⟩ := forest_eq_ok hforest
  obtain ⟨g', u, hlift, h⟩ := bind_eq_ok.mp h
  obtain ⟨hchange, rfl⟩ := lift_eq_ok.mp hlift
  exact ⟨g', hchange, modifyForest_eq_ok h⟩

theorem nodeValue_eq_ok {id : NodeId} {x : Value} (h : nodeValue id w = .ok x v) :
    x = .node (w.forest.handle id) ∧ v = w := by
  cases h
  exact ⟨rfl, rfl⟩

theorem mint_eq_ok {tag : String} {i : Nat} (h : mint seat tag w = .ok i v) :
    ∃ token, i = w.forest.elements.size ∧ v.forest = (w.forest.addElement tag token).1 ∧
      w.Like v := by
  unfold mint at h
  obtain ⟨u, w', hget, h⟩ := bind_eq_ok.mp h
  cases hget
  by_cases hmints : (w.builder seat).canMint = true
  · simp only [hmints, if_true] at h
    cases h
    refine ⟨_, rfl, rfl, w.like_setBuilder seat ?_ _⟩
    rfl
  · simp only [hmints, Bool.false_eq_true, if_false] at h
    cases h

theorem properties_eq_ok {P : NodeId → Prop} {props : Value} {ps : Pairs}
    (hprops : props.Among P) (h : properties props w = .ok ps v) :
    (∀ e ∈ ps, e.1.Among P ∧ e.2.Among P) ∧ v = w := by
  unfold properties at h
  by_cases htruthy : props.truthy = true
  · rw [if_pos htruthy] at h
    cases hps : props.pairs? with
    | none =>
      rw [hps] at h
      cases h
    | some ps' =>
      rw [hps] at h
      cases h
      exact ⟨Value.among_pairs? hprops hps, rfl⟩
  · rw [if_neg htruthy] at h
    cases h
    exact ⟨by simp, rfl⟩

theorem takeText_grown {c : Value} {a : Unit} (hw : f.Grown cue w.forest)
    (h : takeText seat f.elements.size c w = .ok a v) : f.Grown cue v.forest ∧ w.Like v := by
  obtain ⟨text, u, hlift, h⟩ := bind_eq_ok.mp h
  obtain ⟨-, rfl⟩ := lift_eq_ok.mp hlift
  obtain ⟨u, w', hget, h⟩ := bind_eq_ok.mp h
  cases hget
  cases modifyForest_eq_ok h
  exact ⟨hw.modify fun c hc => hc, rfl, rfl, rfl⟩

/-- Taking a child fills the element under way. -/
theorem takeChild_grown {c : Value} {a : Unit} (hw : f.Grown cue w.forest)
    (hc : c.Among (f.Fit cue)) (h : takeChild seat f.elements.size c w = .ok a v) :
    f.Grown cue v.forest ∧ w.Like v := by
  unfold takeChild at h
  split at h
  · obtain ⟨g, hadd, rfl⟩ := changeForest_eq_ok h
    exact ⟨hw.addChild (Value.among_node.mp hc) hadd, rfl, rfl, rfl⟩
  · split at h
    · exact takeText_grown hw h
    · cases h
      exact ⟨hw, .refl _⟩

theorem takeChildren_grown {cs : List Value} {a : Unit} (hw : f.Grown cue w.forest)
    (hcs : ∀ c ∈ cs, c.Among (f.Fit cue)) (h : takeChildren seat f.elements.size cs w = .ok a v) :
    f.Grown cue v.forest ∧ w.Like v := by
  induction cs generalizing w with
  | nil =>
    cases h
    exact ⟨hw, .refl _⟩
  | cons c cs ih =>
    rw [List.forall_mem_cons] at hcs
    obtain ⟨_, u, hfirst, h⟩ := bind_eq_ok.mp h
    obtain ⟨hu, hlike⟩ := takeChild_grown hw hcs.1 hfirst
    obtain ⟨hv, hlike'⟩ := ih hu hcs.2 h
    exact ⟨hv, hlike.trans hlike'⟩

theorem takeNodes_grown {cs : List Value} {a : Unit} (hw : f.Grown cue w.forest)
    (hcs : ∀ c ∈ cs, c.Among (f.Fit cue)) (h : takeNodes f.elements.size cs w = .ok a v) :
    f.Grown cue v.forest ∧ w.Like v := by
  induction cs generalizing w with
  | nil =>
    cases h
    exact ⟨hw, .refl _⟩
  | cons c cs ih =>
    rw [List.forall_mem_cons] at hcs
    cases c with
    | node handle =>
      obtain ⟨_, u, hfirst, h⟩ := bind_eq_ok.mp h
      obtain ⟨g, hadd, rfl⟩ := changeForest_eq_ok hfirst
      obtain ⟨hv, hlike⟩ := ih (hw.addChild (Value.among_node.mp hcs.1) hadd) hcs.2 h
      exact ⟨hv, hlike.active, hlike.sigil, hlike.names⟩
    | _ => exact ih hw hcs.2 h

theorem setAttributes_grown {g : Forest} (hg : f.Grown cue g)
    (attributes : List (String × List Text.Piece)) :
    f.Grown cue
      (attributes.foldl (fun g a => g.setAttribute f.elements.size a.1 (.ofPieces a.2)) g) := by
  induction attributes generalizing g with
  | nil => exact hg
  | cons a attributes ih =>
    refine ih (hg.modify fun c hc => ⟨?_, hc.2⟩)
    exact Entries.nodup_keys_set hc.1 _ _

theorem warnHiddenText_eq_ok {i : Nat} {a : Unit} (h : warnHiddenText i w = .ok a v) :
    w.Like v ∧ v.forest = w.forest := by
  obtain ⟨g, u, hforest, h⟩ := bind_eq_ok.mp h
  obtain ⟨rfl, rfl⟩ := forest_eq_ok hforest
  cases hcell : u.forest.elements[i]? with
  | none =>
    simp only [hcell] at h
    cases h
    exact ⟨.refl _, rfl⟩
  | some c =>
    simp only [hcell] at h
    split at h <;> cases h
    · exact ⟨⟨rfl, rfl, rfl⟩, rfl⟩
    · exact ⟨.refl _, rfl⟩

/-- What follows the click handler: attributes, children and the remark. -/
theorem fill_grown {entries : Pairs} {children : List Value} {x : Value}
    (hw : f.Grown cue w.forest)
    (hentries : ∀ e ∈ entries, e.1.Among (f.Fit cue) ∧ e.2.Among (f.Fit cue))
    (hchildren : ∀ c ∈ children, c.Among (f.Fit cue))
    (h : (do
      let attributes ← lift (attributesOf entries)
      modifyForest fun g =>
        attributes.foldl (fun g a => g.setAttribute f.elements.size a.1 (.ofPieces a.2)) g
      let given := if children.isEmpty then childrenOf (entries.get? "children") else children
      takeChildren seat f.elements.size (flattenChildren given)
      warnHiddenText f.elements.size
      nodeValue (.element f.elements.size) : Build Value) w = .ok x v) :
    f.Grown cue v.forest ∧ w.Like v ∧ ∃ g i, x = .node (Forest.handle g (.element i)) := by
  obtain ⟨attributes, u, hlift, h⟩ := bind_eq_ok.mp h
  obtain ⟨_, rfl⟩ := lift_eq_ok.mp hlift
  obtain ⟨_, u, hmodify, h⟩ := bind_eq_ok.mp h
  cases modifyForest_eq_ok hmodify
  have hgiven : ∀ c ∈ flattenChildren
      (if children.isEmpty then childrenOf (entries.get? "children") else children),
      c.Among (f.Fit cue) := by
    refine among_leavesAll ?_
    split
    · exact among_childrenOf fun v hv => Pairs.among_get? hentries hv
    · exact hchildren
  obtain ⟨_, u, htake, h⟩ := bind_eq_ok.mp h
  obtain ⟨hu, hlike⟩ := takeChildren_grown (setAttributes_grown hw attributes) hgiven htake
  obtain ⟨_, u', hwarn, h⟩ := bind_eq_ok.mp h
  obtain ⟨hlike', hforest⟩ := warnHiddenText_eq_ok hwarn
  obtain ⟨rfl, rfl⟩ := nodeValue_eq_ok h
  refine ⟨hforest ▸ hu, ?_, _, _, rfl⟩
  exact (Workshop.Like.trans ⟨hlike.active, hlike.sigil, hlike.names⟩ hlike')

/-- Making an element adds one tidy element. -/
theorem element_grown {tag : String} {props x : Value} {children : List Value}
    (hprops : props.Among (w.forest.Fit cue))
    (hchildren : ∀ c ∈ children, c.Among (w.forest.Fit cue))
    (h : element seat tag props children w = .ok x v) :
    w.forest.Grown cue v.forest ∧ w.Like v ∧ ∃ g i, x = .node (Forest.handle g (.element i)) := by
  obtain ⟨i, w1, hmint, h⟩ := bind_eq_ok.mp h
  obtain ⟨token, rfl, hforest, hlike⟩ := mint_eq_ok hmint
  have hgrown : w.forest.Grown cue w1.forest := hforest ▸ Forest.Grown.start w.forest tag token
  obtain ⟨entries, w2, hentries, hrest⟩ := bind_eq_ok.mp h
  obtain ⟨hamong, rfl⟩ := properties_eq_ok hprops hentries
  cases hclick : (entries.get? "onClick").bind Value.asHandler? with
  | none =>
    simp only [hclick] at hrest
    obtain ⟨hv, hlike', hx⟩ := fill_grown hgrown hamong hchildren hrest
    exact ⟨hv, hlike.trans hlike', hx⟩
  | some handler =>
    simp only [hclick] at hrest
    obtain ⟨_, u, hmodify, hrest⟩ := bind_eq_ok.mp hrest
    cases modifyForest_eq_ok hmodify
    have hclicked : w.forest.Grown cue
        (w2.forest.setOnClick w.forest.elements.size (.handler handler)) :=
      hgrown.modify fun c hc => hc
    obtain ⟨hv, hlike', hx⟩ := fill_grown hclicked hamong hchildren hrest
    exact ⟨hv, hlike.trans ⟨hlike'.active, hlike'.sigil, hlike'.names⟩, hx⟩

/-- Making a fragment adds one tidy element. -/
theorem fragment_grown {props x : Value} (hprops : props.Among (w.forest.Fit cue))
    (h : fragment seat props w = .ok x v) :
    w.forest.Grown cue v.forest ∧ w.Like v ∧ ∃ g i, x = .node (Forest.handle g (.element i)) := by
  obtain ⟨i, w1, hmint, h⟩ := bind_eq_ok.mp h
  obtain ⟨token, rfl, hforest, hlike⟩ := mint_eq_ok hmint
  have hgrown : w.forest.Grown cue w1.forest := hforest ▸ Forest.Grown.start w.forest "div" token
  obtain ⟨entries, w2, hentries, hrest⟩ := bind_eq_ok.mp h
  obtain ⟨hamong, rfl⟩ := properties_eq_ok hprops hentries
  obtain ⟨_, u, htake, hvalue⟩ := bind_eq_ok.mp hrest
  obtain ⟨rfl, rfl⟩ := nodeValue_eq_ok hvalue
  obtain ⟨hu, hlike'⟩ := takeNodes_grown hgrown
    (among_leavesAll (among_childrenOf fun v hv => Pairs.among_get? hamong hv)) htake
  exact ⟨hu, hlike.trans hlike', _, _, rfl⟩

end Build

/-! ## Components -/

/-- A workshop after work that makes no element. -/
structure Workshop.Settles (w v : Workshop) : Prop where
  like : w.Like v
  later : w.forest.Extends v.forest
  size : v.forest.elements.size = w.forest.elements.size

namespace Workshop.Settles

theorem refl (w : Workshop) : w.Settles w := ⟨.refl w, .refl _, rfl⟩

theorem trans {w v u : Workshop} (h : w.Settles v) (h' : v.Settles u) : w.Settles u :=
  ⟨h.like.trans h'.like, h.later.trans h'.later, h'.size.trans h.size⟩

end Workshop.Settles

namespace Build

variable {cue : Cue} {w v : Workshop} {seat : Seat}

theorem addHooks_settles {i : Nat} {hooks : List Value} {a : Unit}
    (h : modifyForest (fun f => f.addHooks i hooks) w = .ok a v) : w.Settles v := by
  cases modifyForest_eq_ok h
  exact ⟨⟨rfl, rfl, rfl⟩, Forest.extends_addHooks w.forest i hooks, rfl⟩

theorem setWaiting_settles (w : Workshop) (seat : Seat) (waiting : List (Nat × List Value)) :
    w.Settles (w.setBuilder seat { w.builder seat with waiting }) := by
  have hforest : (w.setBuilder seat { w.builder seat with waiting }).forest = w.forest := by
    cases seat <;> rfl
  refine ⟨?_, hforest ▸ .refl _, by rw [hforest]⟩
  cases seat <;> exact ⟨rfl, rfl, rfl⟩

theorem claim_settles {i : Nat} {a : Unit} (h : claim seat i w = .ok a v) : w.Settles v := by
  obtain ⟨u, w', hget, h⟩ := bind_eq_ok.mp h
  cases hget
  by_cases hempty : (w.builder seat).waiting.isEmpty = true
  · simp only [hempty, if_true] at h
    cases h
    exact .refl _
  · simp only [hempty] at h
    obtain ⟨root, u, hlift, h⟩ := bind_eq_ok.mp h
    obtain ⟨_, rfl⟩ := lift_eq_ok.mp hlift
    obtain ⟨_, u, hmodify, h⟩ := bind_eq_ok.mp h
    cases hmodify
    exact (setWaiting_settles w seat _).trans (addHooks_settles h)

/-- The names that a component takes as its parameters are read off the tree below it. -/
theorem boundNames_read {sigil : Sigil} {i : Nat} {names : List String}
    (h : boundNames sigil i w = .ok names v) : v = w ∧ ∃ n cue,
      w.forest.readChecked w.forest.boundaryOf ElementCell.checkNames (.element i) = .ok n ∧
      sigil.forValues (n.preorder.flatMap Node.values) = .ok cue ∧ names = n.boundNames cue := by
  obtain ⟨g, u, hforest, h⟩ := bind_eq_ok.mp h
  obtain ⟨rfl, rfl⟩ := forest_eq_ok hforest
  obtain ⟨n, u', hlift, h⟩ := bind_eq_ok.mp h
  obtain ⟨hread, rfl⟩ := lift_eq_ok.mp hlift
  obtain ⟨cue, u', hlift', h⟩ := bind_eq_ok.mp h
  obtain ⟨hcue, rfl⟩ := lift_eq_ok.mp hlift'
  cases h
  exact ⟨rfl, n, cue, hread, hcue, rfl⟩

/-- The names that a component takes as its parameters are those of the tree that
stands below it. -/
theorem boundNames_eq_ok {sigil : Sigil} {i : Nat} {names : List String}
    (hsigil : sigil.cue? = some cue) (h : boundNames sigil i w = .ok names v) :
    v = w ∧ ∃ n, w.forest.Stands n (.element i) ∧ names = n.boundNames cue := by
  obtain ⟨rfl, n, cue', hread, hcue, rfl⟩ := boundNames_read h
  rw [Sigil.forValues, hsigil] at hcue
  cases hcue
  exact ⟨rfl, n, Forest.stands_of_readChecked hread, rfl⟩

theorem wrap_settles {root i : Nat} {key : String} {parameters : List String}
    (h : wrap root key parameters w = .ok i v) : w.Settles v ∧
      ∃ k, v.forest.components[i]? = some k ∧ k.root = some root ∧
        k.boundary.parameters = parameters := by
  obtain ⟨g, u, hforest, h⟩ := bind_eq_ok.mp h
  obtain ⟨rfl, rfl⟩ := forest_eq_ok hforest
  obtain ⟨made, u', hlift, h⟩ := bind_eq_ok.mp h
  obtain ⟨hadd, rfl⟩ := lift_eq_ok.mp hlift
  obtain ⟨g', i'⟩ := made
  obtain ⟨_, u', hmodify, h⟩ := bind_eq_ok.mp h
  cases modifyForest_eq_ok hmodify
  cases h
  obtain ⟨hlater, hsize, hcell⟩ := Forest.extends_addComponent hadd
  exact ⟨⟨⟨rfl, rfl, rfl⟩, hlater, hsize⟩, hcell⟩

/-- A component that is made around an element is fit to be a child. -/
theorem wrap_fit {i j : Nat} {key : String} {n : Node} (hn : w.forest.Stands n (.element i))
    (h : wrap i key (n.boundNames cue) w = .ok j v) :
    w.Settles v ∧ v.forest.Fit cue (.component j) := by
  obtain ⟨hsettles, k, hk, hroot, hparameters⟩ := wrap_settles h
  exact ⟨hsettles, k, i, n, hk, hroot, hn.mono hsettles.later, hparameters⟩

theorem splice_settles {name : String} {hooks : List Value} {result x : Value}
    (h : splice seat name hooks result w = .ok x v) : w.Settles v ∧ x = result := by
  unfold splice at h
  split at h
  · obtain ⟨_, u, hmodify, h⟩ := bind_eq_ok.mp h
    cases h
    exact ⟨addHooks_settles hmodify, rfl⟩
  · by_cases hhooks : hooks.isEmpty = true
    · simp only [hhooks, Bool.not_true, Bool.false_eq_true, if_false] at h
      cases h
      exact ⟨.refl _, rfl⟩
    · simp only [hhooks, Bool.not_false, if_true] at h
      cases h
      exact ⟨setWaiting_settles w seat _, rfl⟩
  · cases h

/-- Giving hooks to a component changes no tree. -/
theorem hooked_settles {i : Nat} {hooks : List Value} {x : Value}
    (h : (do
      modifyForest fun f => f.addHooks i hooks
      claim seat i
      nodeValue (.component i) : Build Value) w = .ok x v) :
    w.Settles v ∧ x = .node (v.forest.handle (.component i)) := by
  obtain ⟨_, u, hhooks, h⟩ := bind_eq_ok.mp h
  obtain ⟨_, u', hclaim, h⟩ := bind_eq_ok.mp h
  obtain ⟨rfl, rfl⟩ := nodeValue_eq_ok h
  exact ⟨(addHooks_settles hhooks).trans (claim_settles hclaim), rfl⟩

/-- A boundary around what a component gave is fit to be a child. -/
theorem enclose_settles {name : String} {hooks : List Value} {result x : Value}
    (hsigil : (w.builder seat).sigil.cue? = some cue) (hresult : result.Among (w.forest.Fit cue))
    (h : enclose seat name hooks result w = .ok x v) :
    w.Settles v ∧ x.Among (v.forest.Fit cue) := by
  unfold enclose at h
  split at h
  · obtain ⟨hsettles, rfl⟩ := hooked_settles h
    exact ⟨hsettles, Value.among_node.mpr ((Value.among_node.mp hresult).mono hsettles.later)⟩
  · obtain ⟨u, w', hget, h⟩ := bind_eq_ok.mp h
    cases hget
    obtain ⟨names, u, hnames, h⟩ := bind_eq_ok.mp h
    obtain ⟨rfl, n, hn, rfl⟩ := boundNames_eq_ok hsigil hnames
    obtain ⟨j, u', hwrap, h⟩ := bind_eq_ok.mp h
    obtain ⟨hsettles, hfit⟩ := wrap_fit hn hwrap
    obtain ⟨hsettles', rfl⟩ := hooked_settles h
    exact ⟨hsettles.trans hsettles', Value.among_node.mpr (hfit.mono hsettles'.later)⟩
  · cases h

theorem finish_settles {name : String} {hooks : List Value} {result x : Value}
    (hsigil : (w.builder seat).sigil.cue? = some cue) (hresult : result.Among (w.forest.Fit cue))
    (h : finish seat name hooks result w = .ok x v) :
    w.Settles v ∧ x.Among (v.forest.Fit cue) := by
  unfold finish at h
  split at h
  · obtain ⟨hsettles, rfl⟩ := splice_settles h
    exact ⟨hsettles, hresult.imp fun _ hfit => hfit.mono hsettles.later⟩
  · exact enclose_settles hsigil hresult h

end Build

end Pageloom
