import Pageloom.Proofs.Construction

/-!
# Walks over trees

The walk over a tree visits, for each node that it visits, all nodes of that node's
own tree in order. So components nest transitively, a nested component has a
smaller tree, and the calls that a body makes are calls of nested components.

## Main definitions

* `Pageloom.Node.preorder_sublist` -- the walk over a part of a tree
* `Pageloom.Node.nested_trans`, `Pageloom.Node.length_preorder_nested` -- nesting
* `Pageloom.Node.exists_nested_of_call` -- the component that a body calls
-/

namespace Pageloom

theorem mem_distinct {x : String} {xs : List String} : x ∈ distinct xs ↔ x ∈ xs := by
  induction xs with
  | nil => simp [distinct]
  | cons y ys ih =>
    by_cases hy : x = y <;> simp [distinct, hy, ih]

namespace Node

theorem mem_preorder_self (n : Node) : n ∈ n.preorder := by
  obtain ⟨b, e, cs⟩ := n
  simp [preorder]

mutual

theorem preorder_sublist : ∀ {n m : Node}, m ∈ n.preorder → m.preorder.Sublist n.preorder
  | mk b e cs, m, h => by
    rw [preorder, List.mem_cons] at h
    rcases h with rfl | hbelow
    · exact List.Sublist.refl _
    · rw [preorder]
      exact (preorderAll_sublist hbelow).trans (List.sublist_cons_self _ _)

theorem preorderAll_sublist : ∀ {cs : List Node} {m : Node}, m ∈ preorderAll cs →
    m.preorder.Sublist (preorderAll cs)
  | [], m, h => by simp [preorderAll] at h
  | c :: cs, m, h => by
    rw [preorderAll, List.mem_append] at h
    rw [preorderAll]
    rcases h with hfirst | hrest
    · exact (preorder_sublist hfirst).trans (List.sublist_append_left _ _)
    · exact (preorderAll_sublist hrest).trans (List.sublist_append_right _ _)

end

theorem preorderAll_eq_flatMap (cs : List Node) : preorderAll cs = cs.flatMap preorder := by
  induction cs with
  | nil => rfl
  | cons c cs ih => rw [preorderAll, ih, List.flatMap_cons]

theorem preorder_sublist_preorderAll {c : Node} {cs : List Node} (h : c ∈ cs) :
    c.preorder.Sublist (preorderAll cs) := by
  induction cs with
  | nil => cases h
  | cons d cs ih =>
    rw [preorderAll]
    rcases List.mem_cons.mp h with rfl | hmem
    · exact List.sublist_append_left _ _
    · exact (ih hmem).trans (List.sublist_append_right _ _)

theorem length_preorder_child {n c : Node} (h : c ∈ n.children) :
    c.preorder.length < n.preorder.length := by
  obtain ⟨b, e, cs⟩ := n
  rw [preorder, List.length_cons]
  exact Nat.lt_succ_of_le (preorder_sublist_preorderAll h).length_le

theorem mem_preorder_child {n c : Node} (h : c ∈ n.children) : c ∈ n.preorder := by
  obtain ⟨b, e, cs⟩ := n
  rw [preorder]
  exact List.mem_cons_of_mem _ ((preorder_sublist_preorderAll h).subset c.mem_preorder_self)

/-! ## Nested components -/

theorem mem_nested {n m : Node} :
    m ∈ n.nested ↔ ∃ k ∈ n.preorder, m ∈ k.children ∧ m.boundary.isSome := by
  simp [nested, componentChildren]

theorem mem_preorder_nested {n m : Node} (h : m ∈ n.nested) : m ∈ n.preorder := by
  obtain ⟨k, hk, hm, _⟩ := mem_nested.mp h
  exact (preorder_sublist hk).subset (mem_preorder_child hm)

theorem nested_of_mem_preorder {n m k : Node} (hm : m ∈ n.preorder) (hk : k ∈ m.nested) :
    k ∈ n.nested := by
  obtain ⟨l, hl, hbelow⟩ := mem_nested.mp hk
  exact mem_nested.mpr ⟨l, (preorder_sublist hm).subset hl, hbelow⟩

/-- What is nested in a nested component is nested. -/
theorem nested_trans {n m k : Node} (hm : m ∈ n.nested) (hk : k ∈ m.nested) : k ∈ n.nested :=
  nested_of_mem_preorder (mem_preorder_nested hm) hk

/-- A nested component has a smaller tree. -/
theorem length_preorder_nested {n m : Node} (h : m ∈ n.nested) :
    m.preorder.length < n.preorder.length := by
  obtain ⟨k, hk, hm, _⟩ := mem_nested.mp h
  have hle := (preorder_sublist hk).length_le
  have hlt := length_preorder_child hm
  omega

@[simp] theorem nested_withBoundary (n : Node) (b : Option Boundary) :
    (n.withBoundary b).nested = n.nested := by
  obtain ⟨c, e, cs⟩ := n
  simp [withBoundary, nested, preorder, componentChildren, children, element]

@[simp] theorem length_preorder_withBoundary (n : Node) (b : Option Boundary) :
    (n.withBoundary b).preorder.length = n.preorder.length := by
  obtain ⟨c, e, cs⟩ := n
  simp [withBoundary, preorder, children, element]

/-! ## Names -/

@[simp] theorem boundNames_withBoundary (cue : Cue) (n : Node) (b : Option Boundary) :
    (n.withBoundary b).boundNames cue = n.boundNames cue := by
  obtain ⟨c, e, cs⟩ := n
  simp [withBoundary, boundNames, preorder, values, element, children]

/-- A part of a tree refers to names of the tree. -/
theorem boundNames_subset {n m : Node} (h : m ∈ n.preorder) (cue : Cue) :
    m.boundNames cue ⊆ n.boundNames cue := by
  intro name hname
  obtain ⟨k, hk, hvalue⟩ := List.mem_flatMap.mp (mem_distinct.mp hname)
  exact mem_distinct.mpr (List.mem_flatMap.mpr ⟨k, (preorder_sublist h).subset hk, hvalue⟩)

/-! ## Bodies -/

theorem isEmpty_bodies (cs : List Node) : (bodies cs).isEmpty = cs.isEmpty := by
  cases cs <;> rfl

mutual

/-- Every call that a body makes is the call of a component nested in its tree. -/
theorem exists_nested_of_call : ∀ {n : Node} {call : String × List String},
    call ∈ n.body.calls →
    ∃ m ∈ n.nested, ∃ b, m.boundary = some b ∧ call = (b.key, b.parameters)
  | mk b e cs, call, h => by
    rw [body, Body.calls] at h
    rcases exists_nested_of_calls h with ⟨m, hm, c, hc, hcall⟩ | ⟨k, hk, m, hm, hcall⟩
    · refine ⟨m, mem_nested.mpr ⟨mk b e cs, mem_preorder_self _, hm, ?_⟩, c, hc, hcall⟩
      simp [hc]
    · exact ⟨m, nested_of_mem_preorder (mem_preorder_child (n := mk b e cs) hk) hm, hcall⟩

theorem exists_nested_of_calls : ∀ {cs : List Node} {call : String × List String},
    call ∈ Body.callsAll (bodies cs) →
    (∃ m ∈ cs, ∃ b, m.boundary = some b ∧ call = (b.key, b.parameters)) ∨
      ∃ k ∈ cs, ∃ m ∈ k.nested, ∃ b, m.boundary = some b ∧ call = (b.key, b.parameters)
  | [], call, h => by simp [bodies, Body.callsAll] at h
  | mk (some b) e ds :: cs, call, h => by
    simp only [bodies, childBody, Body.callsAll, Body.calls, List.singleton_append,
      List.mem_cons] at h
    rcases h with rfl | hrest
    · exact .inl ⟨mk (some b) e ds, by simp, b, rfl, rfl⟩
    · refine (exists_nested_of_calls hrest).imp ?_ ?_
      · rintro ⟨m, hm, hcall⟩
        exact ⟨m, List.mem_cons_of_mem _ hm, hcall⟩
      · rintro ⟨k, hk, hcall⟩
        exact ⟨k, List.mem_cons_of_mem _ hk, hcall⟩
  | mk none e ds :: cs, call, h => by
    simp only [bodies, Body.callsAll, List.mem_append] at h
    rcases h with hfirst | hrest
    · exact .inr ⟨mk none e ds, by simp, exists_nested_of_call (n := mk none e ds) hfirst⟩
    · refine (exists_nested_of_calls hrest).imp ?_ ?_
      · rintro ⟨m, hm, hcall⟩
        exact ⟨m, List.mem_cons_of_mem _ hm, hcall⟩
      · rintro ⟨k, hk, hcall⟩
        exact ⟨k, List.mem_cons_of_mem _ hk, hcall⟩

end

theorem calls_body_eq_nil {n : Node} (h : n.nested = []) : n.body.calls = [] := by
  refine List.eq_nil_iff_forall_not_mem.mpr fun call hcall => ?_
  obtain ⟨m, hm, _⟩ := exists_nested_of_call hcall
  simp [h] at hm

mutual

/-- What a boundary holds has no values but those of the whole tree. -/
theorem values_body_subset : ∀ n : Node, n.body.values ⊆ n.preorder.flatMap Node.values
  | mk b e cs => by
    intro value hvalue
    simp only [body, Body.values, isEmpty_bodies, List.mem_append] at hvalue
    simp only [preorder, List.flatMap_cons, List.mem_append]
    exact hvalue.imp id fun h => valuesAll_bodies_subset cs h

theorem valuesAll_bodies_subset : ∀ cs : List Node,
    Body.valuesAll (bodies cs) ⊆ (preorderAll cs).flatMap Node.values
  | [] => by simp [bodies, Body.valuesAll]
  | mk (some b) e ds :: cs => by
    intro value hvalue
    simp only [bodies, childBody, Body.valuesAll, Body.values, List.nil_append] at hvalue
    simp only [preorderAll, List.flatMap_append, List.mem_append]
    exact .inr (valuesAll_bodies_subset cs hvalue)
  | mk none e ds :: cs => by
    intro value hvalue
    simp only [bodies, Body.valuesAll, List.mem_append] at hvalue
    simp only [preorderAll, List.flatMap_append, List.mem_append]
    exact hvalue.imp (fun h => values_body_subset (mk none e ds) h)
      fun h => valuesAll_bodies_subset cs h

end

end Node

end Pageloom
