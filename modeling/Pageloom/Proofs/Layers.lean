import Mathlib.Data.List.Nodup
import Mathlib.Logic.Relation
import Pageloom.Proofs.Giving
import Pageloom.Proofs.Shape
import Pageloom.Proofs.TakingChildren

/-!
# Layers of a forest

Evaluation makes children before the element that takes them, and fills an element in one go.
What stands below an element therefore was made before it, and is settled from then on. Two
things follow. The elements that the boundary of a component surrounds are known as soon as the
component is made: whatever is linked later goes to younger elements, which stand above it or
elsewhere. And looking for these elements from the root downwards finds them all, since none is
met twice.

## Main definitions

* `Pageloom.Forest.Layered` -- linked forests in which children are older than parents
* `Pageloom.Forest.Surrounds` -- the elements within the boundary of a component
* `Pageloom.Forest.Layered.mem_ownElements` -- what the search from a root finds
* `Pageloom.Forest.Extends.surrounds_iff` -- boundaries are settled when they are made
-/

namespace Pageloom

namespace Forest

variable {f g : Forest}

/-- A linked forest in which whatever stands below an element was made before it. -/
structure Layered (f : Forest) : Prop extends Linked f where
  lower : ∀ i j, f.Below i j → j < i

theorem layered_empty : Forest.empty.Layered where
  toLinked := linked_empty
  lower := by simp [below_iff, children, Forest.empty]

/-- The step from an element to its parent, which does not leave the boundary around both. -/
def Upwards (f : Forest) (i p : Nat) : Prop := f.parent? (.element i) = some p

/-- The boundary of a component surrounds an element: going from the element to its parent, and
on, leads to the root of the component. -/
def Surrounds (f : Forest) (j i : Nat) : Prop :=
  ∃ r, f.root? j = some r ∧ Relation.ReflTransGen f.Upwards i r

theorem surrounds_iff_of_root? {j r i : Nat} (hr : f.root? j = some r) :
    f.Surrounds j i ↔ Relation.ReflTransGen f.Upwards i r := by
  simp [Surrounds, hr]

theorem upwards_rightUnique (f : Forest) : Relator.RightUnique f.Upwards :=
  fun _ _ _ hb hc => Option.some.inj (hb.symm.trans hc)

/-- The ways upwards from an element end in one place. -/
theorem eq_of_upwards {i a b : Nat} (ha : Relation.ReflTransGen f.Upwards i a)
    (hb : Relation.ReflTransGen f.Upwards i b) (htop : f.parent? (.element a) = none)
    (htop' : f.parent? (.element b) = none) : a = b := by
  have hends : ∀ {x y : Nat}, f.parent? (.element x) = none →
      Relation.ReflTransGen f.Upwards x y → x = y := by
    intro x y hx hxy
    rcases hxy.cases_head with heq | ⟨z, hxz, _⟩
    · exact heq
    · rw [Upwards, hx] at hxz
      cases hxz
  rcases Relation.ReflTransGen.total_of_right_unique f.upwards_rightUnique ha hb with hab | hba
  · exact hends htop hab
  · exact (hends htop' hba).symm

namespace Linked

theorem upwards_iff (h : f.Linked) {i p : Nat} : f.Upwards i p ↔ .element i ∈ f.children p :=
  h.parent_iff _ _

theorem has_of_root? (h : f.Linked) {j r : Nat} (hr : f.root? j = some r) : f.Has (.element r) := by
  have howner := h.owned_of_root j r hr
  unfold owner? at howner
  cases hc : f.elements[r]? with
  | none => simp [hc] at howner
  | some c => exact has_element.mpr ⟨c, hc⟩

theorem parent?_root (h : f.Linked) {j r : Nat} (hr : f.root? j = some r) :
    f.parent? (.element r) = none := by
  obtain ⟨o, ho⟩ := Option.isSome_iff_exists.mp (h.owned_of_root j r hr)
  exact h.free_of_owner r o ho

theorem has_of_upwards {i p : Nat} (hp : f.Has (.element p))
    (hup : Relation.ReflTransGen f.Upwards i p) : f.Has (.element i) := by
  rcases hup.cases_head with rfl | ⟨a, hia, _⟩
  · exact hp
  · unfold Upwards parent? at hia
    obtain ⟨c, hc, _⟩ := Option.bind_eq_some_iff.mp hia
    exact has_element.mpr ⟨c, hc⟩

/-- An element within the boundary of a component is linked to a parent, or is a root. -/
theorem not_isFree_of_surrounds (h : f.Linked) {j i : Nat} (hi : f.Surrounds j i) :
    ¬ f.IsFree (.element i) := by
  obtain ⟨r, hr, hup⟩ := hi
  rintro ⟨hparent, howner⟩
  rcases hup.cases_head with rfl | ⟨a, hia, _⟩
  · have hsome := h.owned_of_root j i hr
    rw [howner] at hsome
    cases hsome
  · rw [Upwards, hparent] at hia
    cases hia

/-- Components that surround the same element have the same root. -/
theorem root?_eq_of_surrounds (h : f.Linked) {j k i : Nat} (hj : f.Surrounds j i)
    (hk : f.Surrounds k i) : f.root? j = f.root? k := by
  obtain ⟨r, hr, hup⟩ := hj
  obtain ⟨t, ht, hup'⟩ := hk
  rw [hr, ht, eq_of_upwards hup hup' (h.parent?_root hr) (h.parent?_root ht)]

end Linked

/-! ## Later states -/

theorem Extends.children (h : f.Extends g) {i : Nat} (hi : f.Has (.element i)) :
    g.children i = f.children i := by
  obtain ⟨c, hc⟩ := has_element.mp hi
  obtain ⟨d, hd, _, hchildren⟩ := h.elements hc
  simp [Forest.children, hc, hd, hchildren]

/-- What stands within an element is settled once the element is made. -/
theorem Extends.upwards_iff (h : f.Extends g) (hf : f.Linked) (hg : g.Linked) {i p : Nat}
    (hp : f.Has (.element p)) :
    Relation.ReflTransGen g.Upwards i p ↔ Relation.ReflTransGen f.Upwards i p := by
  constructor
  · intro hup
    induction hup with
    | refl => exact .refl
    | @tail a p _ hap ih =>
      have hap : f.Upwards a p := hf.upwards_iff.mpr (h.children hp ▸ hg.upwards_iff.mp hap)
      exact .tail (ih (Linked.has_of_upwards hp (.single hap))) hap
  · intro hup
    refine Relation.ReflTransGen.mono (fun a b hab => hg.upwards_iff.mpr ?_) _ _ hup
    have hmem := hf.upwards_iff.mp hab
    rwa [h.children (has_of_mem_children hmem)]

/-- What the boundary of a component surrounds is settled once the component is made. -/
theorem Extends.surrounds_iff (h : f.Extends g) (hf : f.Linked) (hg : g.Linked) {j i : Nat}
    (hroot : g.root? j = f.root? j) : g.Surrounds j i ↔ f.Surrounds j i := by
  unfold Surrounds
  rw [hroot]
  refine exists_congr fun r => and_congr_right fun hr => ?_
  exact h.upwards_iff hf hg (hf.has_of_root? hr)

/-! ## The search from a root -/

/-- The elements among the children of an element. -/
def inner (f : Forest) (i : Nat) : List Nat :=
  (f.children i).filterMap fun (child : NodeId) =>
    match child with
    | .element j => some j
    | .component _ => none

/-- An element and those within it, parents before children, to at most the given depth. -/
def insideWithin (f : Forest) : (depth : Nat) → Nat → List Nat
  | 0, _ => []
  | depth + 1, i => i :: (f.inner i).flatMap (f.insideWithin depth)

theorem mem_inner {i j : Nat} : j ∈ f.inner i ↔ .element j ∈ f.children i := by
  unfold inner
  rw [List.mem_filterMap]
  constructor
  · rintro ⟨id, hid, heq⟩
    cases id with
    | element k =>
      cases heq
      exact hid
    | component k => cases heq
  · exact fun hmem => ⟨_, hmem, rfl⟩

theorem ownElementsWithin_cons (f : Forest) (bound i : Nat) (rest : List Nat) :
    f.ownElementsWithin (bound + 1) (i :: rest) =
      i :: f.ownElementsWithin bound (f.inner i ++ rest) := by
  unfold inner children
  rw [ownElementsWithin]
  cases f.elements[i]? <;> rfl

namespace Layered

theorem lt_of_upwards (h : f.Layered) {i p : Nat} (hip : f.Upwards i p) : i < p :=
  h.lower p i (below_iff.mpr ⟨_, h.upwards_iff.mp hip, rfl⟩)

theorem le_of_upwards (h : f.Layered) {i p : Nat} (hip : Relation.ReflTransGen f.Upwards i p) :
    i ≤ p := by
  induction hip with
  | refl => exact Nat.le_refl i
  | tail _ hstep ih => exact Nat.le_of_lt (Nat.lt_of_le_of_lt ih (h.lt_of_upwards hstep))

theorem lt_of_mem_inner (h : f.Layered) {i j : Nat} (hj : j ∈ f.inner i) : j < i :=
  h.lt_of_upwards (h.upwards_iff.mpr (mem_inner.mp hj))

theorem mem_insideWithin (h : f.Layered) {depth i e : Nat} (hi : i < depth) :
    e ∈ f.insideWithin depth i ↔ Relation.ReflTransGen f.Upwards e i := by
  induction depth generalizing i with
  | zero => exact absurd hi (Nat.not_lt_zero i)
  | succ depth ih =>
    have hbelow : ∀ j ∈ f.inner i, j < depth := fun j hj =>
      Nat.lt_of_lt_of_le (h.lt_of_mem_inner hj) (Nat.lt_succ_iff.mp hi)
    rw [insideWithin, List.mem_cons, List.mem_flatMap]
    constructor
    · rintro (rfl | ⟨j, hj, he⟩)
      · exact .refl
      · exact .tail ((ih (hbelow j hj)).mp he) (h.upwards_iff.mpr (mem_inner.mp hj))
    · intro hup
      rcases hup.cases_tail with heq | ⟨j, hej, hji⟩
      · exact .inl heq.symm
      · have hj := mem_inner.mpr (h.upwards_iff.mp hji)
        exact .inr ⟨j, hj, (ih (hbelow j hj)).mpr hej⟩

/-- More depth than there are layers finds nothing more. -/
theorem insideWithin_succ (h : f.Layered) {depth i : Nat} (hi : i < depth) :
    f.insideWithin (depth + 1) i = f.insideWithin depth i := by
  induction depth generalizing i with
  | zero => exact absurd hi (Nat.not_lt_zero i)
  | succ depth ih =>
    rw [insideWithin, insideWithin]
    refine congrArg (i :: ·) (List.flatMap_congr fun j hj => ih ?_)
    exact Nat.lt_of_lt_of_le (h.lt_of_mem_inner hj) (Nat.lt_succ_iff.mp hi)

/-- The search lists what stands within its elements one after the other, up to its bound. -/
theorem ownElementsWithin_eq (h : f.Layered) {depth : Nat} : ∀ (bound : Nat) {todo : List Nat},
    (∀ i ∈ todo, i < depth) →
      f.ownElementsWithin bound todo = (todo.flatMap (f.insideWithin depth)).take bound
  | 0, todo, _ => by simp [ownElementsWithin]
  | bound + 1, [], _ => by simp [ownElementsWithin]
  | bound + 1, i :: rest, htodo => by
    have hi : i < depth := htodo i List.mem_cons_self
    have hrest : ∀ j ∈ f.inner i ++ rest, j < depth := by
      intro j hj
      rcases List.mem_append.mp hj with hinner | hmem
      · exact Nat.lt_trans (h.lt_of_mem_inner hinner) hi
      · exact htodo j (List.mem_cons_of_mem _ hmem)
    rw [ownElementsWithin_cons, ownElementsWithin_eq h bound hrest, List.flatMap_append,
      List.flatMap_cons, ← h.insideWithin_succ hi, insideWithin, List.cons_append,
      List.take_succ_cons]

theorem nodup_inner (h : f.Layered) (i : Nat) : (f.inner i).Nodup := by
  refine (h.nodup i).filterMap fun id id' j hid hid' => ?_
  cases id with
  | component k => cases hid
  | element k =>
    cases id' with
    | component k' => cases hid'
    | element k' =>
      cases hid
      cases hid'
      rfl

theorem nodup_insideWithin (h : f.Layered) {depth i : Nat} (hi : i < depth) :
    (f.insideWithin depth i).Nodup := by
  induction depth generalizing i with
  | zero => exact absurd hi (Nat.not_lt_zero i)
  | succ depth ih =>
    have hbelow : ∀ j ∈ f.inner i, j < depth := fun j hj =>
      Nat.lt_of_lt_of_le (h.lt_of_mem_inner hj) (Nat.lt_succ_iff.mp hi)
    rw [insideWithin, List.nodup_cons]
    constructor
    · intro hmem
      obtain ⟨j, hj, he⟩ := List.mem_flatMap.mp hmem
      have hle := h.le_of_upwards ((h.mem_insideWithin (hbelow j hj)).mp he)
      exact absurd (h.lt_of_mem_inner hj) (Nat.not_lt.mpr hle)
    · refine List.nodup_flatMap.mpr ⟨fun j hj => ih (hbelow j hj), ?_⟩
      refine (h.nodup_inner i).imp_of_mem fun {j k} hj hk hne e hej hek => ?_
      have hej := (h.mem_insideWithin (hbelow j hj)).mp hej
      have hek := (h.mem_insideWithin (hbelow k hk)).mp hek
      -- Of two children with an element in common, one would stand within the other.
      have hapart : ∀ {a b : Nat}, a ∈ f.inner i → b ∈ f.inner i → a ≠ b →
          ¬ Relation.ReflTransGen f.Upwards a b := by
        intro a b ha hb hab hup
        rcases hup.cases_head with heq | ⟨c, hac, hcb⟩
        · exact hab heq
        · cases Option.some.inj (hac.symm.trans (h.upwards_iff.mpr (mem_inner.mp ha)))
          exact absurd (h.lt_of_mem_inner hb) (Nat.not_lt.mpr (h.le_of_upwards hcb))
      rcases Relation.ReflTransGen.total_of_right_unique f.upwards_rightUnique hej hek with
        hup | hup
      · exact hapart hj hk hne hup
      · exact hapart hk hj (Ne.symm hne) hup

theorem upwards_of_mem_ownElements (h : f.Layered) {i e : Nat} (he : e ∈ f.ownElements i) :
    Relation.ReflTransGen f.Upwards e i := by
  have hlt : ∀ j ∈ [i], j < i + 1 := by simp
  rw [ownElements, h.ownElementsWithin_eq _ hlt, List.flatMap_singleton] at he
  exact (h.mem_insideWithin (Nat.lt_succ_self i)).mp (List.mem_of_mem_take he)

/-- **The search from an element finds what stands within it**, and nothing else. -/
theorem mem_ownElements (h : f.Layered) {i e : Nat} (hi : f.Has (.element i)) :
    e ∈ f.ownElements i ↔ Relation.ReflTransGen f.Upwards e i := by
  refine ⟨h.upwards_of_mem_ownElements, fun hup => ?_⟩
  have hlt : ∀ j ∈ [i], j < i + 1 := by simp
  have hmem := (h.mem_insideWithin (Nat.lt_succ_self i)).mpr hup
  have hlength : (f.insideWithin (i + 1) i).length ≤ f.elements.size := by
    refine length_le_of_nodup (h.nodup_insideWithin (Nat.lt_succ_self i)) fun a ha => ?_
    exact Nat.lt_of_le_of_lt (h.le_of_upwards ((h.mem_insideWithin (Nat.lt_succ_self i)).mp ha)) hi
  rwa [ownElements, h.ownElementsWithin_eq _ hlt, List.flatMap_singleton,
    List.take_of_length_le hlength]

end Layered

/-! ## What keeps the layers -/

/-- The hooks of a component. -/
def hooks (f : Forest) (j : Nat) : List Value :=
  (f.components[j]?.map fun k => k.boundary.hooks).getD []

theorem hooks_addHooks (f : Forest) (i j : Nat) (hooks : List Value) :
    (f.addHooks i hooks).hooks j =
      if j = i ∧ f.Has (.component i) then f.hooks j ++ hooks else f.hooks j := by
  unfold Forest.hooks addHooks modifyComponent
  rw [Array.getElem?_modify]
  by_cases hij : i = j
  · subst hij
    cases hk : f.components[i]? with
    | none =>
      have hnot : ¬ f.Has (.component i) := fun h => by
        obtain ⟨k, hk'⟩ := has_component.mp h
        rw [hk] at hk'
        cases hk'
      simp [hnot]
    | some k => simp [has_component.mpr ⟨k, hk⟩]
  · simp [hij, Ne.symm hij]

theorem hooks_addChild {p : Nat} {id : NodeId} (hadd : f.addChild p id = .ok g) :
    g.hooks = f.hooks := by
  obtain ⟨_, _, _, rfl⟩ := addChild_eq_ok hadd
  funext j
  cases id with
  | element i => rfl
  | component k =>
    simp only [hooks, link, modifyElement, modifyComponent, Array.getElem?_modify]
    split
    · cases f.components[j]? <;> rfl
    · rfl

theorem hooks_addComponent {r i : Nat} {key : String} {parameters : List String}
    (hadd : f.addComponent r key parameters = .ok (g, i)) : g.hooks = f.hooks := by
  obtain ⟨_, rfl, rfl⟩ := addComponent_eq_ok hadd
  funext j
  simp only [hooks, modifyElement, Array.getElem?_push]
  split
  · next hj => simp [hj]
  · rfl

theorem addHooks_views (f : Forest) (i : Nat) (hooks : List Value) :
    (f.addHooks i hooks).parent? = f.parent? ∧ (f.addHooks i hooks).root? = f.root? ∧
      (f.addHooks i hooks).around? = f.around? := by
  refine ⟨funext fun id => ?_, funext fun j => ?_, funext fun j => ?_⟩
  · cases id with
    | element _ => rfl
    | component j =>
      simp only [parent?, addHooks, modifyComponent, Array.getElem?_modify]
      split
      · cases f.components[j]? <;> rfl
      · rfl
  all_goals
    simp only [root?, around?, addHooks, modifyComponent, Array.getElem?_modify]
    split
    · cases f.components[j]? <;> rfl
    · rfl

theorem surrounds_addHooks {i : Nat} {hooks : List Value} {j e : Nat} :
    (f.addHooks i hooks).Surrounds j e ↔ f.Surrounds j e := by
  obtain ⟨hparent, hroot, _⟩ := f.addHooks_views i hooks
  unfold Surrounds Upwards
  rw [hparent, hroot]

theorem rootOf_component {j r : Nat} : f.rootOf (.component j) = .ok r ↔ f.root? j = some r := by
  rw [root?, Option.bind_eq_some_iff]
  exact root_eq_ok

theorem below_cases {i j : Nat} : f.Below i j ↔
    .element j ∈ f.children i ∨ ∃ k, .component k ∈ f.children i ∧ f.root? k = some j := by
  rw [below_iff]
  constructor
  · rintro ⟨id, hid, hroot⟩
    cases id with
    | element k =>
      cases hroot
      exact .inl hid
    | component k => exact .inr ⟨k, hid, rootOf_component.mp hroot⟩
  · rintro (hid | ⟨k, hid, hroot⟩)
    · exact ⟨_, hid, rfl⟩
    · exact ⟨_, hid, rootOf_component.mpr hroot⟩

theorem has_of_attachable {id : NodeId} {target : Option Nat}
    (h : f.attachable id = .ok target) : f.Has id := by
  cases id with
  | element i =>
    simp only [attachable] at h
    cases hc : f.elements[i]? with
    | none =>
      rw [hc] at h
      cases h
    | some c => exact has_element.mpr ⟨c, hc⟩
  | component j =>
    cases hk : f.components[j]? with
    | some k => exact has_component.mpr ⟨k, hk⟩
    | none => simp [attachable, parent?, around?, root, hk, Except.map] at h

namespace Layered

theorem of_views (h : f.Layered) (hparent : g.parent? = f.parent?)
    (hchildren : g.children = f.children) (howner : g.owner? = f.owner?)
    (hroot : g.root? = f.root?) (haround : g.around? = f.around?) : g.Layered where
  toLinked := h.toLinked.of_views hparent hchildren howner hroot
    (by rw [haround, hroot]; exact h.rootless)
  lower i j hij := by
    rw [below_cases, hchildren, hroot, ← below_cases] at hij
    exact h.lower i j hij

theorem addHooks (h : f.Layered) (i : Nat) (hooks : List Value) : (f.addHooks i hooks).Layered := by
  obtain ⟨hparent, hroot, haround⟩ := f.addHooks_views i hooks
  exact h.of_views hparent rfl rfl hroot haround

theorem addElement (h : f.Layered) (tag token : String) : (f.addElement tag token).1.Layered :=
  h.of_views (parent?_addElement f tag token) (children_addElement f tag token)
    (owner?_addElement f tag token) rfl rfl

theorem addComponent (h : f.Layered) {r i : Nat} {key : String} {parameters : List String}
    (hr : f.Has (.element r)) (hadd : f.addComponent r key parameters = .ok (g, i)) :
    g.Layered where
  toLinked := h.toLinked.addComponent hr hadd
  lower a b hab := by
    obtain ⟨_, _, hchildren, _, hroot, _⟩ := addComponent_views hr hadd
    refine h.lower a b (below_cases.mpr ?_)
    rw [below_cases, hchildren] at hab
    refine hab.imp_right ?_
    rintro ⟨k, hk, hkroot⟩
    -- The new component has no place yet.
    have hne : k ≠ f.components.size := by
      rintro rfl
      have hplace := (h.parent_iff _ _).mpr hk
      simp [parent?] at hplace
    rw [hroot, if_neg hne] at hkroot
    exact ⟨k, hk, hkroot⟩

/-- The youngest element takes a child. -/
theorem addChild (h : f.Layered) {p : Nat} {id : NodeId} (hp : f.elements.size = p + 1)
    (hadd : f.addChild p id = .ok g) : g.Layered := by
  have hhas : f.Has (.element p) := by
    rw [Has, hp]
    exact Nat.lt_succ_self p
  obtain ⟨target, htarget, hapart, rfl⟩ := addChild_eq_ok hadd
  have hid := has_of_attachable htarget
  refine ⟨h.toLinked.addChild hid hhas hadd, fun a b hab => ?_⟩
  have hbrought : ∀ {b : Nat}, target = some b → f.Has (.element b) → b < p := by
    intro b hb hbhas
    have hne : b ≠ p := by
      rintro rfl
      exact hapart b hb (h.mem_ancestors_self hhas)
    rw [Has, hp] at hbhas
    omega
  obtain ⟨_, hbrings⟩ := h.attachable_eq_ok htarget
  rw [below_cases, children_link f hhas, root?_link] at hab
  by_cases ha : a = p
  · subst ha
    simp only [if_true, List.mem_append, List.mem_singleton] at hab
    rcases hab with (hold | rfl) | ⟨k, hold | rfl, hroot⟩
    · exact h.lower a b (below_cases.mpr (.inl hold))
    · exact hbrought hbrings.2 hid
    · exact h.lower a b (below_cases.mpr (.inr ⟨k, hold, hroot⟩))
    · exact hbrought (hbrings.trans hroot) (h.has_of_root? hroot)
  · simp only [ha, if_false] at hab
    exact h.lower a b (below_cases.mpr hab)

end Layered

end Forest

/-! ## Making an element -/

theorem ElementCell.Write.links {change : ElementCell → ElementCell}
    (h : ElementCell.Write change) (c : ElementCell) :
    (change c).parent = c.parent ∧ (change c).children = c.children ∧
      (change c).owner = c.owner := by
  cases h <;> exact ⟨rfl, rfl, rfl⟩

/-- A workshop with an element more than another one. Components and hooks are as they were. -/
structure Workshop.Adds (w v : Workshop) : Prop where
  active : v.active = w.active
  waiting : ∀ seat, (v.builder seat).waiting = (w.builder seat).waiting
  layered : v.forest.Layered
  later : w.forest.Extends v.forest
  elements : v.forest.elements.size = w.forest.elements.size + 1
  components : v.forest.components.size = w.forest.components.size
  root : v.forest.root? = w.forest.root?
  hooks : v.forest.hooks = w.forest.hooks

theorem Workshop.Adds.surrounds_iff {w v : Workshop} (h : w.Adds v) (hw : w.forest.Layered)
    {j i : Nat} : v.forest.Surrounds j i ↔ w.forest.Surrounds j i :=
  h.later.surrounds_iff hw.toLinked h.layered.toLinked (congrFun h.root j)

/-- An element that is made is the youngest, and its children were there before. -/
theorem Forest.Layered.filling {w : Workshop} (hw : w.forest.Layered) (seat : Seat) :
    Build.Filling seat w w.Adds where
  start tag token _ :=
    { active := by cases seat <;> rfl
      waiting := fun other => by cases other <;> cases seat <;> rfl
      layered := hw.addElement tag token
      later := Forest.extends_addElement _ _ _
      elements := Array.size_push _
      components := rfl
      root := rfl
      hooks := rfl }
  write {u _} hu hchange :=
    { active := hu.active
      waiting := hu.waiting
      layered := hu.layered.of_views
        (Forest.parent?_modifyElement _ _ fun c => (hchange.links c).1)
        (Forest.children_modifyElement _ _ fun c => (hchange.links c).2.1)
        (Forest.owner?_modifyElement _ _ fun c => (hchange.links c).2.2) rfl rfl
      later := hu.later.modifyNew _
      elements := (Forest.size_modifyElement _ _ _).trans hu.elements
      components := hu.components
      root := hu.root
      hooks := hu.hooks }
  child {u g id} hu hadd :=
    { active := hu.active
      waiting := hu.waiting
      layered := hu.layered.addChild hu.elements hadd
      later := hu.later.addChildNew hadd
      elements := by
        obtain ⟨_, _, _, rfl⟩ := Forest.addChild_eq_ok hadd
        exact (Forest.size_link _ _ _).trans hu.elements
      components := by
        obtain ⟨_, _, _, rfl⟩ := Forest.addChild_eq_ok hadd
        cases id with
        | element _ => exact hu.components
        | component _ => exact Array.size_modify.trans hu.components
      root := by
        obtain ⟨_, _, _, rfl⟩ := Forest.addChild_eq_ok hadd
        exact (Forest.root?_link _).trans hu.root
      hooks := (Forest.hooks_addChild hadd).trans hu.hooks }
  remark _ hu := ⟨hu.active, hu.waiting, hu.layered, hu.later, hu.elements, hu.components, hu.root,
    hu.hooks⟩

end Pageloom
