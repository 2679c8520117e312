import Pageloom.Proofs.Closure

/-!
# The order of nested components

The walk over the components below a node goes from element to element in preorder, and gives at
each element all its component children. This is not the order in which components begin in the
document: a component child comes before all that is nested in its earlier siblings. It is a
rearrangement of that order, though, so each nested component is given once. The two orders
agree exactly if no component child has an earlier sibling with a component below
it. Of several components with one key, a collection keeps the first of the walk, which may not
be the first of the document.

## Main definitions

* `Pageloom.Node.inDocument` -- the components below a node in document order
* `Pageloom.Node.Aligned` -- the trees for which the two orders agree
* `Pageloom.Node.nested_perm` -- the walk gives each nested component once
* `Pageloom.Node.nested_eq_inDocument_iff` -- when it gives them in document order
-/

namespace Pageloom

namespace Node

/-- The components below a node in the order in which they begin in the document. -/
def inDocument (n : Node) : List Node := n.preorder.tail.filter fun m => m.boundary.isSome

/-- No component child in the tree of a node has an earlier sibling with a component below it. -/
def Aligned (n : Node) : Prop :=
  ∀ m ∈ n.preorder, m.children.Pairwise fun d c => d.nested = [] ∨ c.boundary = none

/-! ## The two orders, child by child -/

theorem nested_mk (b : Option Boundary) (e : Element) (cs : List Node) :
    (mk b e cs).nested = cs.filter (fun c => c.boundary.isSome) ++ cs.flatMap nested := by
  rw [nested, preorder, List.flatMap_cons, preorderAll_eq_flatMap, List.flatMap_assoc]
  rfl

theorem inDocument_mk (b : Option Boundary) (e : Element) (cs : List Node) :
    (mk b e cs).inDocument = (preorderAll cs).filter fun m => m.boundary.isSome := rfl

theorem filter_preorderAll_cons (c : Node) (cs : List Node) :
    (preorderAll (c :: cs)).filter (fun m => m.boundary.isSome) =
      [c].filter (fun m => m.boundary.isSome) ++
        (c.inDocument ++ (preorderAll cs).filter fun m => m.boundary.isSome) := by
  obtain ⟨b, e, ds⟩ := c
  rw [inDocument_mk, preorderAll, preorder, ← List.append_assoc, ← List.filter_append,
    ← List.filter_append]
  rfl

theorem filter_cons (c : Node) (cs : List Node) :
    (c :: cs).filter (fun m => m.boundary.isSome) =
      [c].filter (fun m => m.boundary.isSome) ++ cs.filter fun m => m.boundary.isSome :=
  List.filter_append [c] cs

theorem aligned_mk {b : Option Boundary} {e : Element} {cs : List Node} :
    (mk b e cs).Aligned ↔
      cs.Pairwise (fun d c => d.nested = [] ∨ c.boundary = none) ∧ ∀ c ∈ cs, c.Aligned := by
  constructor
  · intro h
    refine ⟨h _ (mem_preorder_self _), fun c hc m hm => h m ?_⟩
    exact (preorder_sublist (mem_preorder_child (n := mk b e cs) hc)).subset hm
  · rintro ⟨hpairwise, hbelow⟩ m hm
    rw [preorder, List.mem_cons] at hm
    rcases hm with rfl | hm
    · exact hpairwise
    · rw [preorderAll_eq_flatMap] at hm
      obtain ⟨c, hc, hm⟩ := List.mem_flatMap.mp hm
      exact hbelow c hc m hm

/-! ## A rearrangement -/

mutual

/-- **The walk gives each nested component once.** -/
theorem nested_perm : ∀ n : Node, n.nested.Perm n.inDocument
  | mk b e cs => by
    rw [nested_mk, inDocument_mk]
    exact nestedAll_perm cs

theorem nestedAll_perm : ∀ cs : List Node,
    (cs.filter (fun c => c.boundary.isSome) ++ cs.flatMap nested).Perm
      ((preorderAll cs).filter fun m => m.boundary.isSome)
  | [] => .refl _
  | c :: cs => by
    rw [filter_preorderAll_cons, filter_cons, List.flatMap_cons, List.append_assoc]
    refine List.Perm.append_left _ ?_
    exact (List.perm_append_comm_assoc _ _ _).trans ((nested_perm c).append (nestedAll_perm cs))

end

/-! ## Agreement -/

mutual

theorem nested_eq_inDocument : ∀ {n : Node}, n.Aligned → n.nested = n.inDocument
  | mk b e cs, h => by
    obtain ⟨hpairwise, hbelow⟩ := aligned_mk.mp h
    rw [nested_mk, inDocument_mk]
    exact nestedAll_eq_inDocument hpairwise hbelow

theorem nestedAll_eq_inDocument : ∀ {cs : List Node},
    cs.Pairwise (fun d c => d.nested = [] ∨ c.boundary = none) → (∀ c ∈ cs, c.Aligned) →
      cs.filter (fun c => c.boundary.isSome) ++ cs.flatMap nested =
        (preorderAll cs).filter fun m => m.boundary.isSome
  | [], _, _ => rfl
  | c :: cs, hpairwise, hbelow => by
    rw [List.pairwise_cons] at hpairwise
    rw [List.forall_mem_cons] at hbelow
    have hfirst := nested_eq_inDocument hbelow.1
    have hrest := nestedAll_eq_inDocument hpairwise.2 hbelow.2
    rw [filter_preorderAll_cons, filter_cons, List.flatMap_cons, List.append_assoc, ← hfirst,
      ← hrest]
    -- Either nothing is nested in the first child, or no later one is a component.
    cases hnested : c.nested with
    | nil => rfl
    | cons m ms =>
      have hplain : cs.filter (fun c => c.boundary.isSome) = [] := by
        refine List.filter_eq_nil_iff.mpr fun d hd => ?_
        have hnone := (hpairwise.1 d hd).resolve_left (by rw [hnested]; exact List.cons_ne_nil _ _)
        simp [hnone]
      simp [hplain]

end

mutual

/-- In a tree of distinct nodes, the orders agree only if no component child has an earlier
sibling with a component below it. -/
theorem aligned_of_nested_eq : ∀ {n : Node}, n.preorder.Nodup → n.nested = n.inDocument → n.Aligned
  | mk b e cs, hnodup, h => by
    rw [nested_mk, inDocument_mk] at h
    rw [preorder, List.nodup_cons] at hnodup
    exact aligned_mk.mpr (alignedAll_of_nested_eq hnodup.2 h)

theorem alignedAll_of_nested_eq : ∀ {cs : List Node}, (preorderAll cs).Nodup →
    cs.filter (fun c => c.boundary.isSome) ++ cs.flatMap nested =
      (preorderAll cs).filter (fun m => m.boundary.isSome) →
    cs.Pairwise (fun d c => d.nested = [] ∨ c.boundary = none) ∧ ∀ c ∈ cs, c.Aligned
  | [], _, _ => ⟨.nil, by simp⟩
  | c :: cs, hnodup, h => by
    rw [preorderAll, List.nodup_append] at hnodup
    obtain ⟨hfirst, hrest, hdisjoint⟩ := hnodup
    rw [filter_preorderAll_cons, filter_cons, List.flatMap_cons, List.append_assoc] at h
    have h := List.append_cancel_left h
    have hlength : c.nested.length = c.inDocument.length := (nested_perm c).length_eq
    suffices hsplit : c.nested = c.inDocument ∧
        (cs.filter (fun c => c.boundary.isSome) ++ cs.flatMap nested =
          (preorderAll cs).filter fun m => m.boundary.isSome) ∧
        ∀ d ∈ cs, c.nested = [] ∨ d.boundary = none by
      obtain ⟨hown, hothers, hlater⟩ := hsplit
      obtain ⟨hpairwise, hbelow⟩ := alignedAll_of_nested_eq hrest hothers
      exact ⟨List.pairwise_cons.mpr ⟨hlater, hpairwise⟩,
        List.forall_mem_cons.mpr ⟨aligned_of_nested_eq hfirst hown, hbelow⟩⟩
    cases hlater : cs.filter (fun c => c.boundary.isSome) with
    | nil =>
      rw [hlater, List.nil_append] at h
      obtain ⟨hown, hothers⟩ := List.append_inj h hlength
      refine ⟨hown, hothers, fun d hd => .inr ?_⟩
      simpa using List.filter_eq_nil_iff.mp hlater d hd
    | cons d ds =>
      -- The document goes on with what the first child holds, the walk with a later child.
      have hempty : c.inDocument = [] := by
        cases hdocument : c.inDocument with
        | nil => rfl
        | cons m ms =>
          rw [hlater, hdocument] at h
          have hchild : d ∈ cs := List.mem_of_mem_filter (hlater ▸ List.mem_cons_self)
          have hd : d ∈ preorderAll cs :=
            (preorder_sublist_preorderAll hchild).subset d.mem_preorder_self
          have hm : m ∈ c.preorder :=
            List.mem_of_mem_tail (List.mem_of_mem_filter (hdocument ▸ List.mem_cons_self))
          exact absurd (List.cons.inj h).1.symm (hdisjoint m hm d hd)
      have hnone : c.nested = [] := by
        rw [hempty] at hlength
        exact List.eq_nil_of_length_eq_zero hlength
      rw [hnone, hempty, hlater] at h
      exact ⟨hnone.trans hempty.symm, h, fun _ _ => .inl hnone⟩

end

/-- **The walk is in document order** exactly if no component child has an earlier sibling with
a component below it. -/
theorem nested_eq_inDocument_iff {n : Node} (h : n.preorder.Nodup) :
    n.nested = n.inDocument ↔ n.Aligned :=
  ⟨aligned_of_nested_eq h, nested_eq_inDocument⟩

instance (n : Node) : Decidable n.Aligned :=
  inferInstanceAs (Decidable (∀ m ∈ n.preorder, _))

end Node

/-- A component and the components below it in document order. -/
def Component.inDocument (c : Component) : List Component :=
  c :: c.root.inDocument.filterMap ofNode?

end Pageloom
