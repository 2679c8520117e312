import Pageloom.Proofs.Filling
import Pageloom.Proofs.Gathering

/-!
# Live trees that mirror a page tree

A live tree mirrors a page tree if it has its shape, with nested components expanded,
and every face is the picture of the element in its place. Tokens are left open: one
factory serves all uses of a component, so the elements of a later use get the tokens
of the first one.

What a body with the content of a tree pictures mirrors that tree, as soon as what
its calls make mirrors the components that are called.

## Main definitions

* `Pageloom.Node.Mirrors` -- a live tree that mirrors a page tree
* `Pageloom.Node.mirrors_of_pictured` -- what a body pictures mirrors a tree
-/

namespace Pageloom

/-! ## What equality up to tokens keeps -/

namespace Element

variable {e f : Element}

theorem sameContent_iff : e.sameContent f = true ↔
    e.tag = f.tag ∧ e.attributes = f.attributes ∧ e.text = f.text ∧
      e.onClick.map Handler.expression = f.onClick.map Handler.expression := by
  simp [sameContent, and_assoc]

theorem values_eq_of_sameContent (h : e.sameContent f = true) (childless : Bool) :
    e.values childless = f.values childless := by
  obtain ⟨_, hattributes, htext, _⟩ := sameContent_iff.mp h
  simp [values, plainAttributes, hattributes, htext]

/-- Elements with one content have one picture, apart from their tokens. -/
theorem picture_eq_of_sameContent (h : e.sameContent f = true) (cue : Cue)
    (fill : String → String) (childless : Bool) :
    e.picture cue fill childless = { f with token := e.token }.picture cue fill childless := by
  obtain ⟨htag, hattributes, htext, hclick⟩ := sameContent_iff.mp h
  have hvalue := congrArg (Option.map Value.text) hclick
  simp only [Option.map_map, Function.comp_def] at hvalue
  simp [picture, classValue, style?, otherAttributes, plainAttributes, htag, hattributes, htext,
    hvalue]

end Element

namespace Body

theorem isEmpty_eq_of_sameAll {cs ds : List Body} (h : sameAll cs ds = true) :
    cs.isEmpty = ds.isEmpty := by
  cases cs <;> cases ds <;> simp_all [sameAll]

mutual

theorem values_eq_of_same : ∀ {a b : Body}, a.same b = true → a.values = b.values
  | .element e cs, .element f ds, h => by
    simp only [same, Bool.and_eq_true] at h
    rw [values, values, isEmpty_eq_of_sameAll h.2, Element.values_eq_of_sameContent h.1,
      valuesAll_eq_of_same h.2]
  | .call _ _, .call _ _, _ => rfl
  | .element _ _, .call _ _, h => by simp [same] at h
  | .call _ _, .element _ _, h => by simp [same] at h

theorem valuesAll_eq_of_same : ∀ {cs ds : List Body}, sameAll cs ds = true →
    valuesAll cs = valuesAll ds
  | [], [], _ => rfl
  | c :: cs, d :: ds, h => by
    simp only [sameAll, Bool.and_eq_true] at h
    rw [valuesAll, valuesAll, values_eq_of_same h.1, valuesAll_eq_of_same h.2]
  | [], _ :: _, h => by simp [sameAll] at h
  | _ :: _, [], h => by simp [sameAll] at h

end

mutual

/-- The tokens of the elements that a body holds. -/
def tokens : Body → List String
  | .element e cs => e.token :: tokensAll cs
  | .call _ _ => []

/-- The tokens of the elements that bodies hold. -/
def tokensAll : List Body → List String
  | [] => []
  | c :: cs => tokens c ++ tokensAll cs

end

end Body

namespace Node

/-- The tokens of the elements of a tree, across nested boundaries. -/
def tokens (n : Node) : List String := n.preorder.map fun m => m.element.token

mutual

/-- A boundary holds elements of its tree only. -/
theorem tokens_body_subset : ∀ n : Node, n.body.tokens ⊆ n.tokens
  | mk b e cs => by
    simp only [body, Body.tokens, tokens, preorder, List.map_cons]
    exact List.cons_subset_cons _ (tokensAll_bodies_subset cs)

theorem tokensAll_bodies_subset : ∀ cs : List Node,
    Body.tokensAll (bodies cs) ⊆ (preorderAll cs).map fun m => m.element.token
  | [] => List.nil_subset _
  | mk (some b) e ds :: cs => by
    simp only [bodies, childBody, Body.tokensAll, Body.tokens, List.nil_append, preorderAll,
      List.map_append]
    exact List.subset_append_of_subset_right _ (tokensAll_bodies_subset cs)
  | mk none e ds :: cs => by
    simp only [bodies, Body.tokensAll, preorderAll, List.map_append]
    exact List.append_subset.mpr
      ⟨List.subset_append_of_subset_left _ (tokens_body_subset (mk none e ds)),
        List.subset_append_of_subset_right _ (tokensAll_bodies_subset cs)⟩

end

/-! ## Mirroring -/

mutual

/-- A live tree mirrors a page tree: every face is the picture of the element in its
place, with its values filled in and with some known token. -/
def Mirrors (cue : Cue) (fill : String → String) (known : String → Prop) : Node → LiveTree → Prop
  | mk _ e cs, .mk face trees =>
    (∃ token, known token ∧
      face = ({ e with token := token } : Element).picture cue fill cs.isEmpty) ∧
      MirrorsAll cue fill known cs trees

/-- Live trees mirror page trees, one by one. -/
def MirrorsAll (cue : Cue) (fill : String → String) (known : String → Prop) :
    List Node → List LiveTree → Prop
  | [], trees => trees = []
  | c :: cs, trees => ∃ tree rest, trees = tree :: rest ∧
    Mirrors cue fill known c tree ∧ MirrorsAll cue fill known cs rest

end

variable {cue : Cue} {fill : String → String} {known : String → Prop} {bindings : Bindings}
  {made : String → List String → LiveTree → Prop}

theorem mirrors_withBoundary {n : Node} {b : Option Boundary} {tree : LiveTree} :
    (n.withBoundary b).Mirrors cue fill known tree ↔ n.Mirrors cue fill known tree := by
  obtain ⟨c, e, cs⟩ := n
  obtain ⟨face, trees⟩ := tree
  rfl

mutual

/-- **What a body pictures mirrors every tree with its content.** Calls of nested
components have to make trees that mirror these components. -/
theorem mirrors_of_pictured : ∀ {n : Node} {b : Body} {tree : LiveTree},
    b.same n.body = true → (∀ token ∈ b.tokens, known token) →
    (∀ m ∈ n.preorder, m.element.attributes.keys.Nodup) →
    Fills cue bindings fill b.values →
    (∀ m ∈ n.nested, ∀ c, m.boundary = some c → ∀ names tree, made c.key names tree →
      m.Mirrors cue fill known tree) →
    b.Pictured cue bindings made tree → n.Mirrors cue fill known tree
  | mk c e cs, .element f bs, .mk face trees, hsame, hknown, hnodup, hfills, hmade, h => by
    simp only [body, Body.same, Bool.and_eq_true] at hsame
    obtain ⟨hown, hbelow⟩ := hsame
    rw [Body.Pictured] at h
    have hchildless : bs.isEmpty = cs.isEmpty :=
      (Body.isEmpty_eq_of_sameAll hbelow).trans (isEmpty_bodies cs)
    have hdistinct : f.attributes.keys.Nodup :=
      (Element.sameContent_iff.mp hown).2.1 ▸ hnodup _ (mem_preorder_self _)
    have hface : face = f.picture cue fill cs.isEmpty := by
      have hpicture := Element.face_eq_picture hdistinct
        (hfills.mono (List.subset_append_left _ _))
      rw [h.1, hchildless] at hpicture
      exact Except.ok.inj hpicture
    refine ⟨⟨f.token, hknown _ List.mem_cons_self, ?_⟩, ?_⟩
    · rw [hface, Element.picture_eq_of_sameContent hown]
    · refine mirrorsAll_of_pictured hbelow (fun token ht => hknown _ (List.mem_cons_of_mem _ ht))
        (fun m hm => hnodup m (List.mem_cons_of_mem _ hm))
        (hfills.mono (List.subset_append_right _ _)) (fun k hk m hm b hb => ?_) h.2
      refine hmade m ?_ b hb
      rcases List.mem_cons.mp hm with rfl | hnested
      · exact mem_nested.mpr ⟨mk c e cs, mem_preorder_self _, hk, by simp [hb]⟩
      · exact nested_of_mem_preorder (mem_preorder_child (n := mk c e cs) hk) hnested
  | mk _ _ _, .call _ _, _, hsame, _, _, _, _, _ => by simp [body, Body.same] at hsame

theorem mirrorsAll_of_pictured : ∀ {cs : List Node} {bs : List Body} {trees : List LiveTree},
    Body.sameAll bs (bodies cs) = true → (∀ token ∈ Body.tokensAll bs, known token) →
    (∀ m ∈ preorderAll cs, m.element.attributes.keys.Nodup) →
    Fills cue bindings fill (Body.valuesAll bs) →
    (∀ k ∈ cs, ∀ m ∈ k.components, ∀ c, m.boundary = some c → ∀ names tree,
      made c.key names tree → m.Mirrors cue fill known tree) →
    Body.PicturedAll cue bindings made bs trees → MirrorsAll cue fill known cs trees
  | [], [], trees, _, _, _, _, _, h => h
  | c :: cs, b :: bs, trees, hsame, hknown, hnodup, hfills, hmade, h => by
    simp only [bodies, Body.sameAll, Bool.and_eq_true] at hsame
    obtain ⟨tree, rest, rfl, hfirst, hrest⟩ := h
    refine ⟨tree, rest, rfl, ?_, ?_⟩
    · have hdistinct : ∀ m ∈ c.preorder, m.element.attributes.keys.Nodup :=
        fun m hm => hnodup m (List.mem_append_left _ hm)
      obtain ⟨_ | boundary, e, ds⟩ := c
      · exact mirrors_of_pictured hsame.1 (fun token ht => hknown _ (List.mem_append_left _ ht))
          hdistinct (hfills.mono (List.subset_append_left _ _))
          (fun m hm => hmade _ List.mem_cons_self m (List.mem_cons_of_mem _ hm)) hfirst
      · -- A component was constructed by a call, which the tree only knows the key of.
        obtain ⟨names, rfl⟩ : ∃ names, b = .call boundary.key names := by
          cases b with
          | element f bs => simp [childBody, Body.same] at hsame
          | call key names =>
            simp only [childBody, Body.same, decide_eq_true_eq] at hsame
            exact ⟨names, by rw [hsame.1]⟩
        exact hmade _ List.mem_cons_self _ List.mem_cons_self boundary rfl names tree hfirst
    · exact mirrorsAll_of_pictured hsame.2 (fun token ht => hknown _ (List.mem_append_right _ ht))
        (fun m hm => hnodup m (List.mem_append_right _ hm))
        (hfills.mono (List.subset_append_right _ _))
        (fun k hk => hmade k (List.mem_cons_of_mem _ hk)) hrest
  | [], _ :: _, _, hsame, _, _, _, _, _ => by simp [bodies, Body.sameAll] at hsame
  | _ :: _, [], _, hsame, _, _, _, _, _ => by simp [bodies, Body.sameAll] at hsame

end

end Node

end Pageloom
