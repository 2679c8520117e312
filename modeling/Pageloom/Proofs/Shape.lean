import Mathlib.Data.List.Nodup
import Mathlib.Logic.Relation
import Pageloom.Proofs.Linking
import Pageloom.Proofs.Trees

/-!
# The shape of what stands below an element

Going down from an element leads to its children, and through a component to its root. A
component that has a place need not be the owner of its root: another component may have
been made around the root since, and then the way upwards from the root no longer leads
through the first one. Where this happens a root can be mounted twice, or an element can
come to stand below itself. Where every component that has a place is the owner of its
root, steps down are the reverse of steps upwards, and what stands below an element is a
tree.

## Main definitions

* `Pageloom.Forest.Below` -- the step down across boundaries
* `Pageloom.Forest.walk` -- the elements of a tree by number
* `Pageloom.Forest.Owned` -- components with a place own their roots
* `Pageloom.Forest.Owned.read_eq_ok` -- reading has an end and follows the walk
-/

namespace Pageloom

namespace Forest

/-- The elements that the children of an element are, or have as their roots. -/
def below (f : Forest) (i : Nat) : List Nat :=
  (f.children i).filterMap fun id => (f.rootOf id).toOption

/-- The element `j` stands directly below the element `i`. -/
def Below (f : Forest) (i j : Nat) : Prop := j ∈ f.below i

/-- An element and those below it, parents before children, to at most the given depth. -/
def walkWithin (f : Forest) : (depth : Nat) → Nat → List Nat
  | 0, _ => []
  | depth + 1, i => i :: (f.below i).flatMap (f.walkWithin depth)

/-- An element and those below it, parents before children. -/
def walk (f : Forest) (i : Nat) : List Nat := f.walkWithin f.elements.size i

/-- What an element says of itself. -/
def element? (f : Forest) (i : Nat) : Option Element := f.elements[i]?.map ElementCell.element

/-- Read a child to at most the given depth, as part of the tree that it stands in. -/
def readChild (f : Forest) (depth : Nat) : NodeId → Except Fault Node
  | .element j => f.readWithin f.boundaryOf (fun _ => .ok ()) depth none j
  | .component j =>
    match f.boundaryOf j with
    | .ok (b, r) => f.readWithin f.boundaryOf (fun _ => .ok ()) depth (some b) r
    | .error e => .error e

/-- Every component that has a place is the owner of its root: no other component was made
around the root since. -/
def Owned (f : Forest) : Prop :=
  ∀ j p, f.parent? (.component j) = some p → ∃ r, f.root? j = some r ∧ f.owner? r = some j

theorem below_iff {f : Forest} {i j : Nat} :
    f.Below i j ↔ ∃ id ∈ f.children i, f.rootOf id = .ok j := by
  have htoOption : ∀ x : Except Fault Nat, x.toOption = some j ↔ x = .ok j := by
    intro x
    cases x <;> simp [Except.toOption]
  simp only [Below, below, List.mem_filterMap, htoOption]

theorem length_ancestorsWithin_le (f : Forest) (bound i : Nat) :
    (f.ancestorsWithin bound i).length ≤ bound := by
  induction bound generalizing i with
  | zero => simp [ancestorsWithin]
  | succ bound ih =>
    rw [ancestorsWithin]
    cases f.above? i with
    | none => simp
    | some p => simpa using ih p

namespace Owned

variable {f : Forest}

/-! ## Steps down reverse steps upwards -/

/-- A child that brings an element: the element itself, or a component that owns it. -/
theorem child_cases (ho : f.Owned) (h : f.Linked) {i j : Nat} {id : NodeId}
    (hid : id ∈ f.children i) (hroot : f.rootOf id = .ok j) :
    id = .element j ∨ ∃ q, id = .component q ∧ f.owner? j = some q := by
  cases id with
  | element k =>
    cases hroot
    exact .inl rfl
  | component q =>
    obtain ⟨r, hr, howner⟩ := ho q i ((h.parent_iff _ _).mpr hid)
    cases Except.ok.inj (hroot.symm.trans (root_of_root? hr))
    exact .inr ⟨q, rfl, howner⟩

theorem above_of_below (ho : f.Owned) (h : f.Linked) {i j : Nat} (hbelow : f.Below i j) :
    f.Above j i := by
  obtain ⟨id, hid, hroot⟩ := below_iff.mp hbelow
  have hparent := (h.parent_iff id i).mpr hid
  rw [Above, above?_eq]
  rcases ho.child_cases h hid hroot with rfl | ⟨q, rfl, howner⟩
  · simp [hparent]
  · simp [h.free_of_owner j q howner, howner, hparent]

/-- No two children of an element bring the same element. -/
theorem child_unique (ho : f.Owned) (h : f.Linked) {i j : Nat} {id id' : NodeId}
    (hid : id ∈ f.children i) (hid' : id' ∈ f.children i) (hroot : f.rootOf id = .ok j)
    (hroot' : f.rootOf id' = .ok j) : id = id' := by
  have hparent : ∀ k, NodeId.element k ∈ f.children i → f.owner? k = none := by
    intro k hk
    cases howner : f.owner? k with
    | none => rfl
    | some q =>
      have hfree := h.free_of_owner k q howner
      rw [(h.parent_iff _ _).mpr hk] at hfree
      cases hfree
  rcases ho.child_cases h hid hroot with rfl | ⟨q, rfl, howner⟩ <;>
    rcases ho.child_cases h hid' hroot' with rfl | ⟨q', rfl, howner'⟩
  · rfl
  · rw [hparent j hid] at howner'
    cases howner'
  · rw [hparent j hid'] at howner
    cases howner
  · rw [Option.some.inj (howner.symm.trans howner')]

theorem nodup_below (ho : f.Owned) (h : f.Linked) (i : Nat) : (f.below i).Nodup := by
  refine List.pairwise_filterMap.mpr ((h.nodup i).imp_of_mem ?_)
  rintro id id' hid hid' hne j hj j' hj' rfl
  have hok : ∀ x : Except Fault Nat, x.toOption = some j → x = .ok j := by
    intro x hx
    cases x <;> simp_all [Except.toOption]
  exact hne (ho.child_unique h hid hid' (hok _ hj) (hok _ hj'))

theorem acyclic (ho : f.Owned) (h : f.Linked) (i : Nat) : ¬ Relation.TransGen f.Below i i := by
  intro hcycle
  refine h.acyclic i (Relation.transGen_swap.mp ?_)
  exact Relation.TransGen.mono (fun a b hab => ho.above_of_below h hab) _ _ hcycle

theorem above_of_reach (ho : f.Owned) (h : f.Linked) {i j : Nat}
    (hreach : Relation.ReflTransGen f.Below i j) : Relation.ReflTransGen f.Above j i :=
  Relation.reflTransGen_swap.mp
    (Relation.ReflTransGen.mono (fun _ _ hab => ho.above_of_below h hab) _ _ hreach)

/-- What stands below two elements with one parent is apart: from a common element both
would be met on the one way upwards, and the parent would be met between them. -/
theorem reach_apart (ho : f.Owned) (h : f.Linked) {i r r' k : Nat} (hr : f.Below i r)
    (hr' : f.Below i r') (hne : r ≠ r') (hk : Relation.ReflTransGen f.Below r k) :
    ¬ Relation.ReflTransGen f.Below r' k := by
  have hunique : Relator.RightUnique f.Above := fun a b c hb hc =>
    Option.some.inj (hb.symm.trans hc)
  have hclose : ∀ {s s' : Nat}, f.Below i s → f.Below i s' → s ≠ s' →
      ¬ Relation.ReflTransGen f.Above s s' := by
    intro s s' hs hs' hne hway
    rcases Relation.ReflTransGen.cases_head hway with heq | ⟨p, hp, hrest⟩
    · exact hne heq
    · cases hunique hp (ho.above_of_below h hs)
      exact h.acyclic i (Relation.TransGen.tail' hrest (ho.above_of_below h hs'))
  intro hk'
  rcases Relation.ReflTransGen.total_of_right_unique hunique (ho.above_of_reach h hk)
    (ho.above_of_reach h hk') with hway | hway
  · exact hclose hr hr' hne hway
  · exact hclose hr' hr (Ne.symm hne) hway

/-! ## Walks -/

theorem reach_of_mem_walkWithin {depth i j : Nat} (hj : j ∈ f.walkWithin depth i) :
    Relation.ReflTransGen f.Below i j := by
  induction depth generalizing i with
  | zero => simp [walkWithin] at hj
  | succ depth ih =>
    rw [walkWithin, List.mem_cons, List.mem_flatMap] at hj
    rcases hj with rfl | ⟨r, hr, hj⟩
    · exact .refl
    · exact .head hr (ih hj)

/-- **A walk meets each element once.** -/
theorem nodup_walkWithin (ho : f.Owned) (h : f.Linked) (depth i : Nat) :
    (f.walkWithin depth i).Nodup := by
  induction depth generalizing i with
  | zero => simp [walkWithin]
  | succ depth ih =>
    rw [walkWithin, List.nodup_cons, List.nodup_flatMap]
    refine ⟨fun hmem => ?_, fun r _ => ih r, ?_⟩
    · obtain ⟨r, hr, hmem⟩ := List.mem_flatMap.mp hmem
      exact ho.acyclic h i (.head' hr (reach_of_mem_walkWithin hmem))
    · refine (ho.nodup_below h i).imp_of_mem fun hr hr' hne => ?_
      intro k hk hk'
      exact ho.reach_apart h hr hr' hne (reach_of_mem_walkWithin hk) (reach_of_mem_walkWithin hk')

/-- An element directly below another has a way upwards that is longer by one. -/
theorem length_ancestors_below (ho : f.Owned) (h : f.Linked) {i r : Nat} (hr : f.Below i r) :
    f.Has (.element r) ∧ (f.ancestors r).length = (f.ancestors i).length + 1 := by
  have habove : f.above? r = some i := ho.above_of_below h hr
  have hhas : f.Has (.element r) := by
    refine has_element.mpr ?_
    unfold above? at habove
    cases hcell : f.elements[r]? with
    | none => simp [hcell] at habove
    | some c => exact ⟨c, rfl⟩
  rw [h.ancestors_eq hhas, habove]
  exact ⟨hhas, rfl⟩

/-- A walk whose depth leaves room for all elements but those above is not cut short. -/
theorem mem_walkWithin (ho : f.Owned) (h : f.Linked) {depth i j : Nat}
    (hdepth : f.elements.size < depth + (f.ancestors i).length)
    (hreach : Relation.ReflTransGen f.Below i j) : j ∈ f.walkWithin depth i := by
  induction depth generalizing i with
  | zero =>
    have := f.length_ancestorsWithin_le f.elements.size i
    rw [ancestors] at hdepth
    omega
  | succ depth ih =>
    rw [walkWithin]
    rcases Relation.ReflTransGen.cases_head hreach with rfl | ⟨r, hr, hrest⟩
    · exact List.mem_cons_self
    · have hlength := (ho.length_ancestors_below h hr).2
      exact List.mem_cons_of_mem _ (List.mem_flatMap.mpr ⟨r, hr, ih (by omega) hrest⟩)

/-! ## Reading -/

theorem mapM_walks (f : Forest) (read : NodeId → Except Fault Node) (walkOf : Nat → List Nat) :
    ∀ {ids : List NodeId},
      (∀ id ∈ ids, ∃ j n, f.rootOf id = .ok j ∧ read id = .ok n ∧
        n.preorder.map Node.element = (walkOf j).filterMap f.element?) →
      ∃ ns, ids.mapM read = .ok ns ∧ (Node.preorderAll ns).map Node.element =
        ((ids.filterMap fun id => (f.rootOf id).toOption).flatMap walkOf).filterMap f.element?
  | [], _ => ⟨[], rfl, rfl⟩
  | id :: ids, hids => by
    obtain ⟨j, n, hroot, hread, hwalk⟩ := hids id List.mem_cons_self
    obtain ⟨ns, hmapM, hwalks⟩ := mapM_walks f read walkOf fun id' hid' =>
      hids id' (List.mem_cons_of_mem id hid')
    refine ⟨n :: ns, ?_, ?_⟩
    · rw [List.mapM_cons, hread, hmapM]
      rfl
    · rw [List.filterMap_cons_some (b := j) (by rw [hroot]; rfl), List.flatMap_cons,
        List.filterMap_append, Node.preorderAll, List.map_append, hwalk, hwalks]

/-- Reading to a depth that leaves room for all elements but those above has an end, and
meets the elements of the walk in their order. -/
theorem readWithin_eq_ok (ho : f.Owned) (h : f.Linked) : ∀ (depth : Nat) {i : Nat}
    (b : Option Boundary), f.Has (.element i) →
    f.elements.size < depth + (f.ancestors i).length →
    ∃ n, f.readWithin f.boundaryOf (fun _ => .ok ()) depth b i = .ok n ∧
      n.preorder.map Node.element = (f.walkWithin depth i).filterMap f.element?
  | 0, i, _, _, hdepth => by
    have := f.length_ancestorsWithin_le f.elements.size i
    rw [ancestors] at hdepth
    omega
  | depth + 1, i, b, hi, hdepth => by
    obtain ⟨c, hc⟩ := has_element.mp hi
    have hchildren : f.children i = c.children := by simp [children, hc]
    have hbelow : ∀ {r : Nat} (b : Option Boundary), f.Below i r →
        ∃ n, f.readWithin f.boundaryOf (fun _ => .ok ()) depth b r = .ok n ∧
          n.preorder.map Node.element = (f.walkWithin depth r).filterMap f.element? := by
      intro r b hr
      obtain ⟨hhas, hlength⟩ := ho.length_ancestors_below h hr
      exact readWithin_eq_ok ho h depth b hhas (by omega)
    have hchild : ∀ id ∈ c.children, ∃ j n, f.rootOf id = .ok j ∧ f.readChild depth id = .ok n ∧
        n.preorder.map Node.element = (f.walkWithin depth j).filterMap f.element? := by
      intro id hid
      rw [← hchildren] at hid
      cases id with
      | element j =>
        obtain ⟨n, hn⟩ := hbelow none (below_iff.mpr ⟨.element j, hid, rfl⟩)
        exact ⟨j, n, rfl, hn⟩
      | component q =>
        obtain ⟨r, hr, _⟩ := ho q i ((h.parent_iff _ _).mpr hid)
        have hroot := root_of_root? hr
        obtain ⟨k, hk, _⟩ := root_eq_ok.mp hroot
        have hboundary : f.boundaryOf q = .ok (k.boundary, r) := by
          simp only [boundaryOf, hk, hroot]
          rfl
        obtain ⟨n, hn⟩ := hbelow (some k.boundary) (below_iff.mpr ⟨.component q, hid, hroot⟩)
        exact ⟨r, n, hroot, by simpa only [readChild, hboundary] using hn⟩
    obtain ⟨ns, hread, hwalk⟩ := mapM_walks f (f.readChild depth) (f.walkWithin depth) hchild
    refine ⟨.mk b c.element ns, ?_, ?_⟩
    · simp only [readWithin, hc]
      exact except_bind_eq_ok.mpr ⟨(), rfl, except_bind_eq_ok.mpr ⟨ns, hread, rfl⟩⟩
    · rw [walkWithin, List.filterMap_cons_some (b := c.element) (by simp [element?, hc]), below,
        hchildren, Node.preorder, List.map_cons, hwalk]
      rfl

/-- Reading an element has an end, and meets the elements of the walk in their order. -/
theorem read_eq_ok (ho : f.Owned) (h : f.Linked) {i : Nat} (hi : f.Has (.element i)) :
    ∃ n, f.read (.element i) = .ok n ∧
      n.preorder.map Node.element = (f.walk i).filterMap f.element? := by
  refine ho.readWithin_eq_ok h _ none hi ?_
  exact Nat.lt_add_of_pos_right (List.length_pos_of_mem (h.mem_ancestors_self hi))

/-- The walk from an element meets what can be reached from it going down. -/
theorem mem_walk (ho : f.Owned) (h : f.Linked) {i j : Nat} (hi : f.Has (.element i)) :
    j ∈ f.walk i ↔ Relation.ReflTransGen f.Below i j := by
  refine ⟨reach_of_mem_walkWithin, ho.mem_walkWithin h ?_⟩
  exact Nat.lt_add_of_pos_right (List.length_pos_of_mem (h.mem_ancestors_self hi))

end Owned

/-! ## Components made around elements without an owner -/

/-- Every component owns its root, and none was made around a component. -/
structure WrappedOnce (f : Forest) : Prop where
  owner_of_root : ∀ j r, f.root? j = some r → f.owner? r = some j
  plain : ∀ j, f.around? j = none
  rooted : ∀ j p, f.parent? (.component j) = some p → (f.root? j).isSome

namespace WrappedOnce

variable {f g : Forest}

theorem owned (h : f.WrappedOnce) : f.Owned := by
  intro j p hp
  obtain ⟨r, hr⟩ := Option.isSome_iff_exists.mp (h.rooted j p hp)
  exact ⟨r, hr, h.owner_of_root j r hr⟩

theorem addElement (h : f.WrappedOnce) (tag token : String) :
    (f.addElement tag token).1.WrappedOnce where
  owner_of_root := by
    rw [owner?_addElement]
    exact h.owner_of_root
  plain := h.plain
  rooted := by
    rw [parent?_addElement]
    exact h.rooted

theorem addComponent (h : f.WrappedOnce) {r j : Nat} {key : String} {parameters : List String}
    (hr : f.Has (.element r)) (hfree : f.owner? r = none)
    (hadd : f.addComponent r key parameters = .ok (g, j)) : g.WrappedOnce := by
  obtain ⟨_, hparent, _, howner, hroot, haround⟩ := addComponent_views hr hadd
  refine ⟨fun q i hq => ?_, fun q => ?_, fun q p hq => ?_⟩
  · rw [hroot] at hq
    rw [howner]
    split at hq
    · next heq =>
      cases hq
      rw [if_pos rfl, heq]
    · have hi := h.owner_of_root q i hq
      rw [if_neg]
      · exact hi
      · rintro rfl
        rw [hfree] at hi
        cases hi
  · rw [haround, h.plain, ite_self]
  · rw [hparent] at hq
    rw [hroot]
    split
    · rfl
    · exact h.rooted q p hq

theorem addChild (h : f.WrappedOnce) {p : Nat} {child : NodeId} (hchild : f.Has child)
    (hadd : f.addChild p child = .ok g) : g.WrappedOnce := by
  obtain ⟨target, ht, _, rfl⟩ := addChild_eq_ok hadd
  refine ⟨?_, ?_, fun q p' hq => ?_⟩
  · rw [root?_link, owner?_link]
    exact h.owner_of_root
  · rw [around?_link]
    exact h.plain
  · rw [parent?_link f hchild] at hq
    rw [root?_link]
    split at hq
    · next heq =>
      subst heq
      simp only [attachable, h.plain] at ht
      split at ht
      · cases ht
      · obtain ⟨r, hr⟩ : ∃ r, f.root q = .ok r := by
          cases hroot : f.root q with
          | ok r => exact ⟨r, rfl⟩
          | error fault => simp [hroot, Except.map] at ht
        obtain ⟨k, hk, hkr⟩ := root_eq_ok.mp hr
        simp [root?, hk, hkr]
    · exact h.rooted q p' hq

end WrappedOnce

theorem wrappedOnce_empty : Forest.empty.WrappedOnce where
  owner_of_root := by simp [root?, Forest.empty]
  plain := by simp [around?, Forest.empty]
  rooted := by simp [parent?, Forest.empty]

end Forest

/-- A component is made around an element only, and around one that has no owner. -/
def Making.WrapsFree (f : Forest) : Making → Prop
  | component (.element r) _ _ => f.owner? r = none
  | component (.component _) _ _ => False
  | _ => True

namespace Workshop

/-- Every component is made around an element that has no owner then. -/
def WrapsFreeAll : List Making → Workshop → Prop
  | [], _ => True
  | m :: ms, w => m.WrapsFree w.forest ∧ WrapsFreeAll ms (w.make m)

theorem make_wrappedOnce {w : Workshop} {m : Making} (hm : m.Names w.forest)
    (hfree : m.WrapsFree w.forest) (hw : w.forest.WrappedOnce) :
    (w.make m).forest.WrappedOnce := by
  unfold make
  split
  · next h =>
    cases m with
    | element tag token =>
      cases h
      exact hw.addElement tag token
    | child parent value =>
      obtain ⟨g, hadd, rfl⟩ := Build.changeForest_eq_ok h
      cases value with
      | node handle => exact hw.addChild hm.2 hadd
      | _ => cases hadd
    | component root key parameters =>
      obtain ⟨j, u, hwrap, h⟩ := bind_eq_ok.mp h
      cases h
      cases root with
      | component inner => exact hfree.elim
      | element r =>
        obtain ⟨g, hadd, rfl⟩ := Build.wrapNode_element_eq_ok hwrap
        exact hw.addComponent hm hfree hadd
  · next h => rwa [Making.run_eq_error h]

theorem makeAll_wrappedOnce : ∀ {ms : List Making} {w : Workshop}, NamesAll ms w →
    WrapsFreeAll ms w → w.forest.WrappedOnce → (makeAll ms w).forest.WrappedOnce
  | [], _, _, _, hw => hw
  | m :: ms, w, hnames, hfree, hw => by
    rw [makeAll]
    exact makeAll_wrappedOnce hnames.2 hfree.2 (make_wrappedOnce hnames.1 hfree.1 hw)

/-- **What stands below an element is a tree where mounted components own their roots.**
After any calls, refused ones included, for which every component with a place is the owner
of its root, no element stands below itself. The tree of every element can be read; the walk
over it meets exactly the elements that can be reached from there going down, each once, and
where no two elements have the same token it meets each token once. Components own their
roots where none was made around a component or an element that had an owner already. -/
theorem makeAll_walks (ms : List Making) (w : Workshop) (hempty : w.forest = .empty)
    (hnames : NamesAll ms w) :
    let f := (makeAll ms w).forest
    (WrapsFreeAll ms w → f.Owned) ∧
    (f.Owned → (∀ i, ¬ Relation.TransGen f.Below i i) ∧
      ∀ i, f.Has (.element i) → ∃ n, f.read (.element i) = .ok n ∧
        n.preorder.map Node.element = (f.walk i).filterMap f.element? ∧
        (f.walk i).Nodup ∧ (∀ j, j ∈ f.walk i ↔ Relation.ReflTransGen f.Below i j) ∧
        ((∀ j k e e', f.element? j = some e → f.element? k = some e' → e.token = e'.token →
            j = k) →
          (n.preorder.map fun m => m.element.token).Nodup)) := by
  intro f
  have hlinked : f.Linked := makeAll_linked hnames (hempty ▸ Forest.linked_empty)
  refine ⟨fun hfree => ?_, fun ho => ⟨ho.acyclic hlinked, fun i hi => ?_⟩⟩
  · exact (makeAll_wrappedOnce hnames hfree (hempty ▸ Forest.wrappedOnce_empty)).owned
  · obtain ⟨n, hread, hwalk⟩ := ho.read_eq_ok hlinked hi
    have hnodup : (f.walk i).Nodup := ho.nodup_walkWithin hlinked _ i
    refine ⟨n, hread, hwalk, hnodup, fun j => ho.mem_walk hlinked hi, fun hdistinct => ?_⟩
    have htokens : (n.preorder.map fun m => m.element.token) =
        (f.walk i).filterMap fun j => (f.element? j).map Element.token := by
      rw [← List.map_filterMap, ← hwalk, List.map_map]
      rfl
    rw [htokens]
    refine hnodup.filterMap fun j k t hj hk => ?_
    obtain ⟨e, he, rfl⟩ := Option.map_eq_some_iff.mp hj
    obtain ⟨e', he', htoken⟩ := Option.map_eq_some_iff.mp hk
    exact hdistinct j k e e' he he' htoken.symm

end Workshop

/-- A component around an element is mounted beside a plain child: the element is met once. -/
theorem makeAll_walks_card :
    let ms : List Making := [.element "div" "t1", .element "p" "t2", .element "i" "t3",
      .component (.element 1) "A" [], .child 0 (.node ⟨.component 0, ""⟩),
      .child 1 (.node ⟨.element 2, ""⟩), .child 2 (.node ⟨.element 0, ""⟩)]
    let f := (Workshop.makeAll ms {}).forest
    Workshop.NamesAll ms {} ∧ Workshop.WrapsFreeAll ms {} ∧ f.Owned ∧ f.walk 0 = [0, 1, 2] ∧
      ∃ n, f.read (.element 0) = .ok n ∧
        n.preorder.map Node.element = (f.walk 0).filterMap f.element? := by
  intro ms f
  have hnames : Workshop.NamesAll ms {} := by decide +kernel
  have hfree : Workshop.WrapsFreeAll ms {} := by
    refine ⟨trivial, trivial, trivial, ?_, trivial, trivial, trivial, trivial⟩
    change Forest.owner? _ 1 = none
    decide +kernel
  have hwalks := Workshop.makeAll_walks ms {} rfl hnames
  have ho : f.Owned := hwalks.1 hfree
  have hhas : f.Has (.element 0) := by decide +kernel
  obtain ⟨n, hread, hwalk, _⟩ := (hwalks.2 ho).2 0 hhas
  exact ⟨hnames, hfree, ho, by decide +kernel, n, hread, hwalk⟩

/-- **Where a root is wrapped again, what stands below an element need not be a tree.** With
two components around one element mounted, the element is met twice. With one of them mounted
and then another made around the same root, the way upwards from the root is cut off, and what
stands above it is accepted below it: the element then stands below itself, and its tree cannot
be read. -/
theorem makeAll_rewrapped_not_tree :
    let wrapped : List Making := [.element "div" "t1", .element "p" "t2",
      .component (.element 1) "A" [], .child 0 (.node ⟨.component 0, ""⟩),
      .component (.element 1) "B" []]
    let shared := wrapped ++ [.child 0 (.node ⟨.component 1, ""⟩)]
    let circular := wrapped ++ [.child 1 (.node ⟨.element 0, ""⟩)]
    let f := (Workshop.makeAll shared {}).forest
    let g := (Workshop.makeAll circular {}).forest
    Workshop.NamesAll shared {} ∧ Workshop.NamesAll circular {} ∧
      f.walk 0 = [0, 1, 1] ∧
      Relation.TransGen g.Below 0 0 ∧ g.read (.element 0) = .error .endless := by
  intro wrapped shared circular f g
  have hdown : g.Below 0 1 := by
    change 1 ∈ g.below 0
    decide +kernel
  have hback : g.Below 1 0 := by
    change 0 ∈ g.below 1
    decide +kernel
  exact ⟨by decide +kernel, by decide +kernel, by decide +kernel, .tail (.single hdown) hback, rfl⟩

end Pageloom
