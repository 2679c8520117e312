import Mathlib.Data.List.Nodup
import Mathlib.Logic.Relation
import Pageloom.Proofs.Making

/-!
# Links of a forest

Whatever calls make and link the nodes of a forest, and in whatever order they come, a
node knows its parent exactly where the parent lists it as a child, and no way upwards
comes back to where it began.

A way upwards goes from an element to its parent, else to the parent of its owner. An
element may get a second component around it, which then is its owner. This only takes a
step upwards away: the new owner has no parent yet. A new link adds one step at most, and
it is refused where the step would close a circle. The refusal needs to see the whole way
upwards, which it does because there is no circle yet.

## Main definitions

* `Pageloom.Forest.Linked` -- what every call keeps true
* `Pageloom.Forest.Linked.ancestors_eq` -- the way upwards is not cut short
* `Pageloom.Workshop.makeAll_linked` -- calls keep a forest linked
-/

namespace Pageloom

namespace Forest

/-! ## Ways upwards -/

open Relation in
/-- Ways along a partial function that get one step more, from a place that had none, come
back nowhere if the new step does not lead to below its own place. -/
theorem not_transGen_of_one_more {up up' : Nat → Option Nat} {x y : Nat}
    (hacyclic : ∀ i, ¬ TransGen (fun a b => up a = some b) i i)
    (hsame : ∀ a, a ≠ x → up' a = up a) (hstep : up' x = some y)
    (hapart : ¬ ReflTransGen (fun a b => up a = some b) y x) (i : Nat) :
    ¬ TransGen (fun a b => up' a = some b) i i := by
  -- A way to `x` that stops when it first comes there does not use the new step.
  have hold : ∀ {a : Nat}, ReflTransGen (fun a b => up' a = some b) a x →
      ReflTransGen (fun a b => up a = some b) a x := by
    intro a h
    induction h using ReflTransGen.head_induction_on with
    | refl => exact .refl
    | @head a b hab _ ih =>
      by_cases ha : a = x
      · exact ha ▸ .refl
      · exact .head ((hsame a ha).symm.trans hab) ih
  have hsplit : ∀ {j : Nat}, TransGen (fun a b => up' a = some b) i j →
      TransGen (fun a b => up a = some b) i j ∨
        ReflTransGen (fun a b => up' a = some b) i x ∧
          ReflTransGen (fun a b => up' a = some b) y j := by
    intro j h
    induction h with
    | @single j hij =>
      by_cases hi : i = x
      · subst hi
        cases Option.some.inj (hstep.symm.trans hij)
        exact .inr ⟨.refl, .refl⟩
      · exact .inl (.single ((hsame i hi).symm.trans hij))
    | @tail b j hib hbj ih =>
      rcases ih with hway | ⟨hto, hfrom⟩
      · by_cases hb : b = x
        · subst hb
          cases Option.some.inj (hstep.symm.trans hbj)
          exact .inr ⟨hib.to_reflTransGen, .refl⟩
        · exact .inl (.tail hway ((hsame b hb).symm.trans hbj))
      · exact .inr ⟨hto, .tail hfrom hbj⟩
  intro hcycle
  rcases hsplit hcycle with hway | ⟨hto, hfrom⟩
  · exact hacyclic i hway
  · exact hapart (hold (hfrom.trans hto))

/-- Distinct numbers below a bound are no more than the bound. -/
theorem length_le_of_nodup {n : Nat} {path : List Nat} (hnodup : path.Nodup)
    (hlt : ∀ u ∈ path, u < n) : path.length ≤ n := by
  have hsub : path ⊆ List.range n := fun u hu => List.mem_range.mpr (hlt u hu)
  simpa using (List.subperm_of_subset hnodup hsub).length_le

/-- What every call keeps true. A node knows its parent exactly where the parent lists it
as a child, and it is listed once; the owner of an element has it as its root; a root has
an owner and therefore no parent; and no way upwards comes back. -/
structure Linked (f : Forest) : Prop where
  parent_iff : ∀ id p, f.parent? id = some p ↔ id ∈ f.children p
  nodup : ∀ p, (f.children p).Nodup
  root_of_owner : ∀ i j, f.owner? i = some j → f.root? j = some i
  owned_of_root : ∀ j i, f.root? j = some i → (f.owner? i).isSome
  free_of_owner : ∀ i j, f.owner? i = some j → f.parent? (.element i) = none
  rootless : ∀ j, (f.around? j).isSome → f.root? j = none
  acyclic : ∀ i, ¬ Relation.TransGen f.Above i i

namespace Linked

variable {f : Forest}

theorem has_of_parent? (h : f.Linked) {id : NodeId} {p : Nat} (hp : f.parent? id = some p) :
    f.Has (.element p) := has_of_mem_children ((h.parent_iff id p).mp hp)

theorem has_of_above (h : f.Linked) {i p : Nat} (hp : f.Above i p) : f.Has (.element p) := by
  rw [Above, above?_eq] at hp
  rcases Option.or_eq_some_iff.mp hp with hparent | ⟨_, howner⟩
  · exact h.has_of_parent? hparent
  · obtain ⟨o, _, hparent⟩ := Option.bind_eq_some_iff.mp howner
    exact h.has_of_parent? hparent

/-- `path` are elements below `i`, all different. The bound of a way upwards that began
with them is never what ends it. -/
theorem ancestorsWithin_succ (h : f.Linked) : ∀ (bound : Nat) {i : Nat} (path : List Nat),
    f.Has (.element i) → path.Nodup →
    (∀ u ∈ path, f.Has (.element u) ∧ Relation.TransGen f.Above u i) →
    f.elements.size ≤ bound + path.length →
    f.ancestorsWithin (bound + 1) i = f.ancestorsWithin bound i
  | bound, i, path, hi, hnodup, hpath, hsize => by
    have hfresh : (i :: path).Nodup :=
      List.nodup_cons.mpr ⟨fun hmem => h.acyclic i (hpath i hmem).2, hnodup⟩
    have hbound := length_le_of_nodup hfresh (n := f.elements.size) (by
      intro u hu
      rcases List.mem_cons.mp hu with rfl | hu
      · exact hi
      · exact (hpath u hu).1)
    rw [List.length_cons] at hbound
    cases bound with
    | zero => omega
    | succ bound =>
      rw [ancestorsWithin, ancestorsWithin]
      cases habove : f.above? i with
      | none => rfl
      | some p =>
        have hstep := ancestorsWithin_succ h bound (i :: path) (h.has_of_above habove) hfresh (by
          intro u hu
          rcases List.mem_cons.mp hu with rfl | hu
          · exact ⟨hi, .single habove⟩
          · exact ⟨(hpath u hu).1, .tail (hpath u hu).2 habove⟩)
          (by rw [List.length_cons]; omega)
        simp only [hstep]

/-- **The way upwards from an element is not cut short.** It is the element, followed by
the way upwards from the element directly above it. -/
theorem ancestors_eq (h : f.Linked) {i : Nat} (hi : f.Has (.element i)) :
    f.ancestors i = i :: ((f.above? i).map f.ancestors).getD [] := by
  obtain ⟨bound, hbound⟩ : ∃ bound, f.elements.size = bound + 1 :=
    ⟨f.elements.size - 1, by have : i < f.elements.size := hi; omega⟩
  rw [ancestors, hbound, ancestorsWithin]
  cases habove : f.above? i with
  | none => rfl
  | some p =>
    have hstep := h.ancestorsWithin_succ bound [i] (h.has_of_above habove)
      (List.nodup_cons.mpr ⟨by simp, List.nodup_nil⟩) (by simpa using ⟨hi, .single habove⟩)
      (by simp [hbound])
    simp only [Option.map_some, Option.getD_some, ancestors, hbound, hstep]

theorem mem_ancestors_self (h : f.Linked) {i : Nat} (hi : f.Has (.element i)) :
    i ∈ f.ancestors i := by
  rw [h.ancestors_eq hi]
  exact List.mem_cons_self

/-- The way upwards meets exactly the elements that steps upwards lead to. -/
theorem mem_ancestors (h : f.Linked) {i j : Nat} (hi : f.Has (.element i)) :
    j ∈ f.ancestors i ↔ Relation.ReflTransGen f.Above i j := by
  constructor
  · have hwithin : ∀ (bound : Nat) {i : Nat}, j ∈ f.ancestorsWithin bound i →
        Relation.ReflTransGen f.Above i j := by
      intro bound
      induction bound with
      | zero => simp [ancestorsWithin]
      | succ bound ih =>
        intro i hj
        rw [ancestorsWithin, List.mem_cons] at hj
        rcases hj with rfl | hj
        · exact .refl
        · cases habove : f.above? i with
          | none => simp [habove] at hj
          | some p =>
            rw [habove] at hj
            exact .head habove (ih hj)
    exact hwithin _
  · intro hway
    induction hway using Relation.ReflTransGen.head_induction_on with
    | refl => exact h.mem_ancestors_self hi
    | head hab _ ih =>
      rw [h.ancestors_eq hi, show f.above? _ = _ from hab]
      exact List.mem_cons_of_mem _ (ih (h.has_of_above hab))

/-! ## What each call keeps -/

theorem above?_congr {g : Forest} (hparent : g.parent? = f.parent?) (howner : g.owner? = f.owner?) :
    g.above? = f.above? := by
  funext i
  rw [above?_eq, above?_eq, hparent, howner]

/-- A forest that looks the same in every view is linked as well. -/
theorem of_views (h : f.Linked) {g : Forest} (hparent : g.parent? = f.parent?)
    (hchildren : g.children = f.children) (howner : g.owner? = f.owner?)
    (hroot : g.root? = f.root?) (haround : ∀ j, (g.around? j).isSome → g.root? j = none) :
    g.Linked where
  parent_iff := by rw [hparent, hchildren]; exact h.parent_iff
  nodup := by rw [hchildren]; exact h.nodup
  root_of_owner := by rw [howner, hroot]; exact h.root_of_owner
  owned_of_root := by rw [howner, hroot]; exact h.owned_of_root
  free_of_owner := by rw [howner, hparent]; exact h.free_of_owner
  rootless := haround
  acyclic := by
    have habove : g.Above = f.Above := by
      unfold Above
      rw [above?_congr hparent howner]
    rw [habove]
    exact h.acyclic

theorem addElement (h : f.Linked) (tag token : String) : (f.addElement tag token).1.Linked :=
  h.of_views (parent?_addElement f tag token) (children_addElement f tag token)
    (owner?_addElement f tag token) rfl h.rootless

theorem addAround (h : f.Linked) {g : Forest} {inner j : Nat} {key : String}
    {parameters : List String} (hadd : f.addAround inner key parameters = .ok (g, j)) :
    g.Linked := by
  obtain ⟨hparent, hchildren, howner, hroot, haround⟩ := addAround_views hadd
  refine h.of_views hparent hchildren howner hroot fun q hq => ?_
  rw [hroot]
  rw [haround] at hq
  split at hq
  · next heq => rw [heq, root?_size]
  · exact h.rootless q hq

/-- A new component has no parent yet, so that the way upwards from its root ends there. -/
theorem addComponent (h : f.Linked) {g : Forest} {r j : Nat} {key : String}
    {parameters : List String} (hr : f.Has (.element r))
    (hadd : f.addComponent r key parameters = .ok (g, j)) : g.Linked := by
  obtain ⟨hfree, hparent, hchildren, howner, hroot, haround⟩ := addComponent_views hr hadd
  have hends : g.above? r = none := by
    have hnone : f.parent? (.component f.components.size) = none := by simp [parent?]
    rw [above?_eq, hparent, howner, if_pos rfl, hfree]
    exact hnone
  have hsame : ∀ i, i ≠ r → g.above? i = f.above? i := by
    intro i hi
    rw [above?_eq, above?_eq, hparent, howner, if_neg hi]
  refine ⟨?_, ?_, ?_, ?_, ?_, ?_, ?_⟩
  · rw [hparent, hchildren]
    exact h.parent_iff
  · rw [hchildren]
    exact h.nodup
  · intro i q hq
    rw [howner] at hq
    rw [hroot]
    split at hq
    · next heq =>
      cases hq
      rw [if_pos rfl, heq]
    · have hold := h.root_of_owner i q hq
      rw [if_neg, hold]
      rintro rfl
      rw [root?_size] at hold
      cases hold
  · intro q i hq
    rw [howner]
    split
    · rfl
    · next hi =>
      rw [hroot] at hq
      split at hq
      · exact absurd (Option.some.inj hq).symm hi
      · exact h.owned_of_root q i hq
  · intro i q hq
    rw [hparent]
    rw [howner] at hq
    split at hq
    · next heq => rw [heq, hfree]
    · exact h.free_of_owner i q hq
  · intro q hq
    rw [haround] at hq
    rw [hroot]
    split at hq
    · cases hq
    · next hne =>
      rw [if_neg hne]
      exact h.rootless q hq
  · intro i hcycle
    refine h.acyclic i (Relation.TransGen.mono (fun a b hab => ?_) _ _ hcycle)
    by_cases ha : a = r
    · rw [ha, Above, hends] at hab
      cases hab
    · exact (hsame a ha).symm.trans hab

/-- What is attachable has no place, and the element that it brings is the element itself
or the root of the component. -/
theorem attachable_eq_ok (h : f.Linked) {child : NodeId} {target : Option Nat}
    (ht : f.attachable child = .ok target) : f.parent? child = none ∧
      match child with
      | .element i => f.owner? i = none ∧ target = some i
      | .component j => target = f.root? j := by
  cases child with
  | element i =>
    simp only [attachable] at ht
    cases hc : f.elements[i]? with
    | none =>
      rw [hc] at ht
      cases ht
    | some c =>
      rw [hc] at ht
      simp only at ht
      split at ht
      · cases ht
      · next hfree =>
        cases ht
        simp only [Bool.or_eq_true, not_or, Bool.not_eq_true, Option.isSome_eq_false_iff,
          Option.isNone_iff_eq_none] at hfree
        simp [parent?, owner?, hc, hfree]
  | component j =>
    simp only [attachable] at ht
    cases hp : f.parent? (.component j) with
    | some p =>
      rw [hp] at ht
      cases ht
    | none =>
      rw [hp] at ht
      simp only at ht
      refine ⟨rfl, ?_⟩
      split at ht
      · next haround =>
        cases ht
        exact (h.rootless j haround).symm
      · cases hroot : f.root j with
        | error fault =>
          rw [hroot] at ht
          cases ht
        | ok r =>
          rw [hroot] at ht
          cases ht
          obtain ⟨k, hk, hr⟩ := root_eq_ok.mp hroot
          simp [root?, hk, hr]

/-- A link gives at most one element a step upwards that it had not before: the child
itself, or the root of a component that is its owner. -/
theorem acyclic_link (h : f.Linked) {p : Nat} {child : NodeId} {target : Option Nat}
    (hchild : f.Has child) (hp : f.Has (.element p)) (ht : f.attachable child = .ok target)
    (hapart : ∀ i, target = some i → i ∉ f.ancestors p) (i : Nat) :
    ¬ Relation.TransGen (f.link p child).Above i i := by
  obtain ⟨hfree, htarget⟩ := h.attachable_eq_ok ht
  have habove : ∀ a, (f.link p child).above? a =
      ((if NodeId.element a = child then some p else f.parent? (.element a)).or
        ((f.owner? a).bind fun o =>
          if NodeId.component o = child then some p else f.parent? (.component o))) := by
    intro a
    rw [above?_eq, owner?_link]
    simp only [parent?_link f hchild]
  cases child with
  | element x =>
    obtain ⟨howner, rfl⟩ := htarget
    refine not_transGen_of_one_more (x := x) (y := p) h.acyclic (fun a ha => ?_) ?_ ?_ i
    · simp [habove, above?_eq, ha]
    · simp [habove]
    · exact fun hway => hapart x rfl ((h.mem_ancestors hp).mpr hway)
  | component j =>
    by_cases howned : ∃ x, f.owner? x = some j
    · obtain ⟨x, hx⟩ := howned
      have hroot := h.root_of_owner x j hx
      refine not_transGen_of_one_more (x := x) (y := p) h.acyclic (fun a ha => ?_) ?_ ?_ i
      · have hother : f.owner? a ≠ some j := fun heq =>
          ha (Option.some.inj ((h.root_of_owner a j heq).symm.trans hroot))
        rw [habove, above?_eq]
        cases ho : f.owner? a with
        | none => simp
        | some o =>
          have hne : o ≠ j := fun heq => hother (heq ▸ ho)
          simp [hne]
      · simp [habove, h.free_of_owner x j hx, hx]
      · exact fun hway => hapart x (htarget.trans hroot) ((h.mem_ancestors hp).mpr hway)
    · intro hcycle
      refine h.acyclic i (Relation.TransGen.mono (fun a b hab => ?_) _ _ hcycle)
      rw [Above, habove] at hab
      rw [Above, above?_eq, ← hab]
      cases ho : f.owner? a with
      | none => simp
      | some o =>
        have hne : o ≠ j := fun heq => howned ⟨a, heq ▸ ho⟩
        simp [hne]

theorem link (h : f.Linked) {p : Nat} {child : NodeId} {target : Option Nat}
    (hchild : f.Has child) (hp : f.Has (.element p)) (ht : f.attachable child = .ok target)
    (hapart : ∀ i, target = some i → i ∉ f.ancestors p) : (f.link p child).Linked := by
  obtain ⟨hfree, htarget⟩ := h.attachable_eq_ok ht
  have hnotMem : ∀ q, child ∉ f.children q := fun q hmem =>
    absurd ((h.parent_iff child q).mpr hmem) (by simp [hfree])
  refine ⟨?_, ?_, ?_, ?_, ?_, ?_, h.acyclic_link hchild hp ht hapart⟩
  · intro id q
    rw [parent?_link f hchild, children_link f hp]
    by_cases hid : id = child
    · subst hid
      by_cases hq : q = p
      · simp [hq]
      · simp [hq, Ne.symm hq, hnotMem]
    · rw [if_neg hid, h.parent_iff]
      by_cases hq : q = p
      · simp [hq, hid]
      · simp [hq]
  · intro q
    rw [children_link f hp]
    split
    · refine List.nodup_append.mpr ⟨h.nodup p, by simp, ?_⟩
      rintro id hid _ hsingle rfl
      rw [List.mem_singleton.mp hsingle] at hid
      exact hnotMem p hid
    · exact h.nodup q
  · rw [owner?_link, root?_link]
    exact h.root_of_owner
  · rw [owner?_link, root?_link]
    exact h.owned_of_root
  · intro i j hi
    rw [owner?_link] at hi
    rw [parent?_link f hchild, if_neg, h.free_of_owner i j hi]
    rintro rfl
    rw [htarget.1] at hi
    cases hi
  · rw [around?_link, root?_link]
    exact h.rootless

theorem addChild (h : f.Linked) {g : Forest} {p : Nat} {child : NodeId} (hchild : f.Has child)
    (hp : f.Has (.element p)) (hadd : f.addChild p child = .ok g) : g.Linked := by
  obtain ⟨target, ht, hapart, rfl⟩ := addChild_eq_ok hadd
  exact h.link hchild hp ht hapart

/-- The way upwards from an element ends at an element that nothing stands above. -/
theorem exists_top (h : f.Linked) {i : Nat} (hi : f.Has (.element i)) :
    ∃ top ∈ f.ancestors i, f.above? top = none := by
  induction hlength : (f.ancestors i).length generalizing i with
  | zero =>
    rw [h.ancestors_eq hi] at hlength
    cases hlength
  | succ n ih =>
    rw [h.ancestors_eq hi] at hlength ⊢
    cases habove : f.above? i with
    | none => exact ⟨i, List.mem_cons_self, habove⟩
    | some p =>
      rw [habove] at hlength
      obtain ⟨top, hmem, htop⟩ := ih (h.has_of_above habove) (Nat.succ.inj hlength)
      exact ⟨top, List.mem_cons_of_mem _ hmem, htop⟩

end Linked

theorem linked_empty : Forest.empty.Linked := by
  have hparent : Forest.empty.parent? = fun _ => none := by
    funext id
    cases id <;> simp [parent?, Forest.empty]
  have hchildren : Forest.empty.children = fun _ => [] := by
    funext i
    simp [children, Forest.empty]
  have howner : Forest.empty.owner? = fun _ => none := by
    funext i
    simp [owner?, Forest.empty]
  have hroot : Forest.empty.root? = fun _ => none := by
    funext j
    simp [root?, Forest.empty]
  refine ⟨?_, ?_, ?_, ?_, ?_, ?_, ?_⟩
  · simp [hparent, hchildren]
  · simp [hchildren]
  · simp [howner]
  · simp [hroot]
  · simp [howner]
  · simp [hroot]
  · intro i hcycle
    obtain ⟨p, hp, _⟩ := Relation.TransGen.head'_iff.mp hcycle
    rw [Above, above?_eq, hparent, howner] at hp
    cases hp

end Forest

/-! ## Runs of calls -/

namespace Making

variable {m : Making} {w v : Workshop}

/-- A call that is refused changes nothing. -/
theorem run_eq_error {fault : Fault} (h : m.run w = .error fault v) : v = w := by
  cases m with
  | element tag token => cases h
  | child parent value => exact Build.changeForest_eq_error h
  | component root key parameters =>
    rcases bind_eq_error.mp h with h | ⟨j, u, _, h⟩
    · exact Build.wrapNode_eq_error h
    · cases h

/-- A call keeps a forest linked. -/
theorem run_linked (hm : m.Names w.forest) (hw : w.forest.Linked) (h : m.run w = .ok () v) :
    v.forest.Linked := by
  cases m with
  | element tag token =>
    cases h
    exact hw.addElement tag token
  | child parent value =>
    obtain ⟨g, hadd, rfl⟩ := Build.changeForest_eq_ok h
    cases value with
    | node handle => exact hw.addChild hm.2 hm.1 hadd
    | _ => cases hadd
  | component root key parameters =>
    obtain ⟨j, u, hwrap, h⟩ := bind_eq_ok.mp h
    cases h
    cases root with
    | element r =>
      obtain ⟨g, hadd, rfl⟩ := Build.wrapNode_element_eq_ok hwrap
      exact hw.addComponent hm hadd
    | component inner =>
      obtain ⟨g, hadd, rfl⟩ := Build.wrapNode_component_eq_ok hwrap
      exact hw.addAround hadd

end Making

namespace Workshop

theorem make_linked {w : Workshop} {m : Making} (hm : m.Names w.forest) (hw : w.forest.Linked) :
    (w.make m).forest.Linked := by
  unfold make
  split
  · next h => exact Making.run_linked hm hw h
  · next h => rwa [Making.run_eq_error h]

theorem makeAll_linked : ∀ {ms : List Making} {w : Workshop}, NamesAll ms w → w.forest.Linked →
    (makeAll ms w).forest.Linked
  | [], _, _, hw => hw
  | m :: ms, w, hnames, hw => by
    rw [makeAll]
    exact makeAll_linked hnames.2 (make_linked hnames.1 hw)

/-- **Links are mutual, and every way upwards has an end.** After any calls, refused ones
included, a node has a parent exactly where the parent lists it as a child, which it does
once, and no other element lists it. No way upwards comes back to where it began: it is an
element, then the way upwards from the element directly above it, and it ends at an element
that nothing stands above. A call that is refused leaves everything as it was. -/
theorem makeAll_links (ms : List Making) (w : Workshop) (hempty : w.forest = .empty)
    (hnames : NamesAll ms w) :
    let f := (makeAll ms w).forest
    (∀ id p, f.parent? id = some p ↔ id ∈ f.children p) ∧
    (∀ id p, id ∈ f.children p →
      (f.children p).count id = 1 ∧ ∀ q, id ∈ f.children q → q = p) ∧
    (∀ i, ¬ Relation.TransGen f.Above i i) ∧
    (∀ i, f.Has (.element i) →
      f.ancestors i = i :: ((f.above? i).map f.ancestors).getD [] ∧
        ∃ top ∈ f.ancestors i, f.above? top = none) ∧
    ∀ (m : Making) (fault : Fault) (v : Workshop),
      m.run (makeAll ms w) = .error fault v → v = makeAll ms w := by
  intro f
  have hlinked : f.Linked := makeAll_linked hnames (hempty ▸ Forest.linked_empty)
  refine ⟨hlinked.parent_iff, fun id p hid => ⟨?_, fun q hq => ?_⟩, hlinked.acyclic,
    fun i hi => ⟨hlinked.ancestors_eq hi, hlinked.exists_top hi⟩,
    fun m fault v h => Making.run_eq_error h⟩
  · exact List.count_eq_one_of_mem (hlinked.nodup p) hid
  · have hp := (hlinked.parent_iff id p).mpr hid
    exact Option.some.inj (((hlinked.parent_iff id q).mpr hq).symm.trans hp)

end Workshop

/-- Two components are made around one element, the first is mounted, and the element is
then refused as a child: it stays where it is, and the way upwards from it is itself. -/
theorem makeAll_links_rewrapped :
    let ms : List Making := [.element "div" "t1", .element "p" "t2",
      .component (.element 1) "A" [], .child 0 (.node ⟨.component 0, ""⟩),
      .component (.element 1) "B" [], .child 0 (.node ⟨.element 1, ""⟩), .child 0 (.text "x")]
    let f := (Workshop.makeAll ms {}).forest
    Workshop.NamesAll ms {} ∧ f.parent? (.component 0) = some 0 ∧
      f.children 0 = [.component 0] ∧ (f.children 0).count (.component 0) = 1 ∧
      f.ancestors 1 = 1 :: ((f.above? 1).map f.ancestors).getD [] := by
  intro ms f
  have hnames : Workshop.NamesAll ms {} := by decide +kernel
  have hlinks := Workshop.makeAll_links ms {} rfl hnames
  have hchildren : f.children 0 = [.component 0] := by decide +kernel
  have hmem : NodeId.component 0 ∈ f.children 0 := hchildren ▸ List.mem_cons_self
  have hhas : f.Has (.element 1) := by decide +kernel
  exact ⟨hnames, (hlinks.1 _ _).mpr hmem, hchildren, (hlinks.2.1 _ _ hmem).1,
    (hlinks.2.2.2.1 1 hhas).1⟩

end Pageloom
