import Pageloom.Proofs.Filling
import Pageloom.Proofs.Trees

/-!
# Markup and live pages agree

A tree without components can be shown in two ways: as static markup, and as the
live page that its instructions make. The live page fills in references and keeps
the class and the style apart; apart from that it shows the markup of the settled
tree, in which every reference is filled in and every element has its class first
and its style last. The one thing that a live page never shows is a style that is
empty.

## Main definitions

* `Pageloom.Node.settled` -- a tree as a live page orders and fills it in
* `Pageloom.Node.picture` -- the live tree of a tree without components
* `Pageloom.Node.withoutEmptyStyles` -- a tree without its empty styles
* `Pageloom.Node.html_picture` -- what a live page shows
* `Pageloom.Node.length_markup_withoutEmptyStyles` -- what leaving out the empty styles costs
-/

namespace Pageloom

/-! ## Settled trees -/

namespace Element

/-- An element with its references filled in, its class first and its style last. -/
def settled (cue : Cue) (fill : String → String) (childless : Bool) (e : Element) : Element :=
  { e with
    attributes := ("class", (e.attributes.get? "class").getD "") ::
      (e.otherAttributes cue fill ++ (e.style? cue fill).toList.map fun s => ("style", s))
    text := if childless then e.text.map (filled cue fill) else e.text }

/-- An element without its style, if that is empty. -/
def withoutEmptyStyle (e : Element) : Element :=
  { e with attributes := e.attributes.filter fun a => a ≠ ("style", "") }

@[simp] theorem classValue_settled (cue : Cue) (fill : String → String) (childless : Bool)
    (e : Element) : (e.settled cue fill childless).classValue = e.classValue := by
  simp only [classValue, settled, Entries.get?_cons]
  cases e.attributes.get? "class" <;> simp

@[simp] theorem classValue_withoutEmptyStyle (e : Element) :
    e.withoutEmptyStyle.classValue = e.classValue := by
  simp only [classValue, withoutEmptyStyle]
  rw [Entries.get?_filter (by simp)]

theorem classValue_ne_empty {e : Element} (h : e.token ≠ "") : e.classValue ≠ "" := by
  unfold classValue
  split
  · split
    · exact h
    · simp [h]
  · exact h

/-- Leaving out the empty style is leaving it out of the attributes that are written. -/
theorem markupAttributes_withoutEmptyStyle (e : Element) :
    e.withoutEmptyStyle.markupAttributes =
      e.markupAttributes.filter fun a => a ≠ ("style", "") := by
  unfold markupAttributes
  rw [classValue_withoutEmptyStyle]
  simp only [withoutEmptyStyle]
  rw [Entries.set_filter (by simp)]
  cases e.onClick with
  | none => rfl
  | some h => exact Entries.set_filter (by simp) _ _

end Element

namespace Node

mutual

/-- A tree with its references filled in and the attributes of every element with
the class first and the style last. -/
def settled (cue : Cue) (fill : String → String) : Node → Node
  | mk b e cs => mk b (e.settled cue fill cs.isEmpty) (settledAll cue fill cs)

/-- Settled trees, one by one. -/
def settledAll (cue : Cue) (fill : String → String) : List Node → List Node
  | [] => []
  | c :: cs => settled cue fill c :: settledAll cue fill cs

end

mutual

/-- A tree without its empty styles. -/
def withoutEmptyStyles : Node → Node
  | mk b e cs => mk b e.withoutEmptyStyle (withoutEmptyStylesAll cs)

/-- Trees without their empty styles, one by one. -/
def withoutEmptyStylesAll : List Node → List Node
  | [] => []
  | c :: cs => withoutEmptyStyles c :: withoutEmptyStylesAll cs

end

mutual

/-- The live tree of a tree without components. -/
def picture (cue : Cue) (fill : String → String) : Node → LiveTree
  | mk _ e cs => .mk (e.picture cue fill cs.isEmpty) (pictureAll cue fill cs)

/-- The live trees of trees without components, one by one. -/
def pictureAll (cue : Cue) (fill : String → String) : List Node → List LiveTree
  | [] => []
  | c :: cs => picture cue fill c :: pictureAll cue fill cs

end

end Node

/-! ## What a live page shows -/

theorem mapM_asText (es : Entries String) :
    (es.map fun a => (a.1, Value.text a.2)).mapM
      (fun a => do return (a.1, ← a.2.asText) : String × Value → Except Fault (String × String)) =
      .ok es := by
  induction es with
  | nil => rfl
  | cons a es ih =>
    rw [List.map_cons, List.mapM_cons, ih]
    rfl

namespace Element

/-- The attributes that a live page shows, before the click expression. -/
def shown (cue : Cue) (fill : String → String) (e : Element) : Entries String :=
  ("class", e.classValue) :: (e.otherAttributes cue fill ++
    ((e.style? cue fill).filter (· ≠ "")).toList.map fun s => ("style", s))

theorem mem_keys_otherAttributes {cue : Cue} {fill : String → String} {e : Element} {name : String}
    (h : name ∈ (e.otherAttributes cue fill).keys) : name ≠ "class" ∧ name ≠ "style" := by
  rw [keys_otherAttributes] at h
  simpa using (List.mem_filter.mp h).2

theorem nodup_keys_otherAttributes {cue : Cue} {fill : String → String} {e : Element}
    (h : e.attributes.keys.Nodup) : (e.otherAttributes cue fill).keys.Nodup := by
  rw [keys_otherAttributes]
  exact h.sublist List.filter_sublist

theorem set_class_settled (cue : Cue) (fill : String → String) (childless : Bool) (e : Element) :
    (e.settled cue fill childless).withoutEmptyStyle.attributes.set "class" e.classValue =
      e.shown cue fill := by
  have hother : (e.otherAttributes cue fill).filter (fun a => a ≠ ("style", "")) =
      e.otherAttributes cue fill := by
    refine List.filter_eq_self.mpr fun a ha => ?_
    have hname := (mem_keys_otherAttributes (List.mem_map_of_mem (f := Prod.fst) ha)).2
    simpa using fun heq => hname (by rw [heq])
  simp only [withoutEmptyStyle, settled, shown, List.filter_cons, List.filter_append, hother]
  cases hstyle : e.style? cue fill with
  | none => simp [Entries.set]
  | some s => by_cases hs : s = "" <;> simp [Entries.set, hs, Option.filter]

/-- A live element shows the attributes of the settled element but an empty style. -/
theorem shownAttributes_picture {cue : Cue} {fill : String → String} {e : Element}
    (childless : Bool) (hnodup : e.attributes.keys.Nodup) (htoken : e.token ≠ "") :
    (e.picture cue fill childless).shownAttributes =
      .ok (e.settled cue fill childless).withoutEmptyStyle.markupAttributes := by
  have hclass : (Value.text e.classValue).truthy = true := by
    simp [Value.truthy, classValue_ne_empty htoken]
  have hstart : Entries.update [("class", Value.text e.classValue)]
      ((e.otherAttributes cue fill).map fun a => (a.1, Value.text a.2)) =
      (("class", e.classValue) :: e.otherAttributes cue fill).map fun a =>
        (a.1, Value.text a.2) := by
    refine Entries.update_of_fresh ?_ fun name hname => ?_
    · rw [Entries.keys_map]
      exact nodup_keys_otherAttributes hnodup
    · rw [Entries.keys_map] at hname
      simp [(mem_keys_otherAttributes hname).1]
  have hstyled : (if (Value.text ((e.style? cue fill).getD "")).truthy = true then
        Entries.set ((("class", e.classValue) :: e.otherAttributes cue fill).map
          fun a => (a.1, Value.text a.2)) "style" (.text ((e.style? cue fill).getD ""))
      else (("class", e.classValue) :: e.otherAttributes cue fill).map
        fun a => (a.1, Value.text a.2)) =
      (e.shown cue fill).map fun a => (a.1, Value.text a.2) := by
    have hfresh : "style" ∉
        Entries.keys (("class", e.classValue) :: e.otherAttributes cue fill) := by
      simp only [Entries.keys_cons, List.mem_cons, not_or]
      exact ⟨by decide, fun h => (mem_keys_otherAttributes h).2 rfl⟩
    rw [Entries.set_map, Entries.set_of_notMem hfresh]
    cases hstyle : e.style? cue fill with
    | none => simp [shown, hstyle, Value.truthy]
    | some s => by_cases hs : s = "" <;> simp [shown, hstyle, hs, Value.truthy, Option.filter]
  have hall : (e.picture cue fill childless).allAttributes =
      (e.settled cue fill childless).withoutEmptyStyle.markupAttributes.map
        fun a => (a.1, Value.text a.2) := by
    have hvalue : (e.settled cue fill childless).withoutEmptyStyle.classValue = e.classValue := by
      simp
    simp only [Face.allAttributes, picture, hclass, if_true, hstart, hstyled, markupAttributes,
      hvalue, set_class_settled]
    cases hclick : e.onClick with
    | none => simp [withoutEmptyStyle, settled, hclick]
    | some h =>
      simp only [withoutEmptyStyle, settled, hclick, Option.map_some, Option.getD_some]
      exact Entries.set_map _ _ _ _
  rw [Face.shownAttributes, hall, mapM_asText]

end Element

namespace Node

variable {cue : Cue} {fill : String → String}

mutual

/-- A live page shows the markup of the settled tree without its empty styles. -/
theorem html_picture : ∀ {n : Node},
    (∀ m ∈ n.preorder, m.element.attributes.keys.Nodup ∧ m.element.token ≠ "") →
    (n.picture cue fill).html = .ok (n.settled cue fill).withoutEmptyStyles.markup
  | mk b e cs, h => by
    obtain ⟨hnodup, htoken⟩ := h (mk b e cs) (by simp [preorder])
    have hbelow : LiveTree.htmls (pictureAll cue fill cs) = _ :=
      htmls_picture fun m hm => h m (by simp [preorder, hm])
    have hshown : (e.picture cue fill cs.isEmpty).shownAttributes = _ :=
      Element.shownAttributes_picture cs.isEmpty hnodup htoken
    simp only [picture, LiveTree.html, settled, withoutEmptyStyles, markup, hshown, hbelow]
    cases cs with
    | nil =>
      cases htext : e.text <;>
        simp [pictureAll, settledAll, withoutEmptyStylesAll, markups, Face.shownText,
          Element.picture, Element.settled, Element.withoutEmptyStyle, htext, bind, Except.bind,
          pure, Except.pure, Except.map, Value.asText]
    | cons c cs => rfl

theorem htmls_picture : ∀ {cs : List Node},
    (∀ m ∈ preorderAll cs, m.element.attributes.keys.Nodup ∧ m.element.token ≠ "") →
    LiveTree.htmls (pictureAll cue fill cs) =
      .ok (markups (withoutEmptyStylesAll (settledAll cue fill cs)))
  | [], _ => rfl
  | c :: cs, h => by
    have hfirst : (c.picture cue fill).html = _ :=
      html_picture fun m hm => h m (by simp [preorderAll, hm])
    have hrest : LiveTree.htmls (pictureAll cue fill cs) = _ :=
      htmls_picture fun m hm => h m (by simp [preorderAll, hm])
    simp only [pictureAll, LiveTree.htmls, settledAll, withoutEmptyStylesAll, markups, hfirst,
      hrest]
    rfl

end

end Node

/-! ## Empty styles

An empty style takes nine characters of markup. A tree that has one is therefore
shown shorter on a live page than its markup is, wherever in the tree it stands. -/

theorem length_attributesText_filter (es : Entries String) :
    (attributesText (es.filter fun a => a ≠ ("style", ""))).length +
      9 * es.count ("style", "") = (attributesText es).length := by
  induction es with
  | nil => rfl
  | cons a es ih =>
    have hcons (as : Entries String) :
        (attributesText (a :: as)).length =
          (attributesText [a]).length + (attributesText as).length := by
      simp [attributesText]
    by_cases ha : a = ("style", "")
    · have hnine : (attributesText [a]).length = 9 := by
        rw [ha]
        decide
      rw [List.filter_cons_of_neg (by simp [ha]), hcons es, hnine, ha, List.count_cons_self]
      omega
    · rw [List.filter_cons_of_pos (by simp [ha]), hcons es, hcons (List.filter _ _),
        List.count_cons_of_ne ha]
      omega

namespace Element

/-- The number of empty styles of an element. -/
def emptyStyles (e : Element) : Nat := e.attributes.count ("style", "")

theorem length_attributesText_withoutEmptyStyle (e : Element) :
    (attributesText e.withoutEmptyStyle.markupAttributes).length + 9 * e.emptyStyles =
      (attributesText e.markupAttributes).length := by
  have hcount : e.markupAttributes.count ("style", "") = e.emptyStyles := by
    unfold markupAttributes
    cases e.onClick with
    | none => exact Entries.count_set (by decide) _ _
    | some h =>
      exact (Entries.count_set (by decide) _ _).trans (Entries.count_set (by decide) _ _)
  rw [markupAttributes_withoutEmptyStyle, ← hcount]
  exact length_attributesText_filter _

end Element

namespace Node

/-- The number of empty styles in a tree. -/
def emptyStyles (n : Node) : Nat :=
  (n.preorder.flatMap fun m => m.element.attributes).count ("style", "")

/-- The number of empty styles in a list of trees. -/
def emptyStylesAll (cs : List Node) : Nat :=
  ((preorderAll cs).flatMap fun m => m.element.attributes).count ("style", "")

theorem emptyStyles_mk (b : Option Boundary) (e : Element) (cs : List Node) :
    (mk b e cs).emptyStyles = e.emptyStyles + emptyStylesAll cs := by
  simp [emptyStyles, emptyStylesAll, preorder, element, Element.emptyStyles]

theorem emptyStylesAll_cons (c : Node) (cs : List Node) :
    emptyStylesAll (c :: cs) = c.emptyStyles + emptyStylesAll cs := by
  simp [emptyStyles, emptyStylesAll, preorderAll]

mutual

/-- Leaving out the empty styles takes nine characters each from the markup. -/
theorem length_markup_withoutEmptyStyles : ∀ n : Node,
    n.withoutEmptyStyles.markup.length + 9 * n.emptyStyles = n.markup.length
  | mk b e cs => by
    have hown := e.length_attributesText_withoutEmptyStyle
    have hbelow := length_markups_withoutEmptyStyles cs
    rw [emptyStyles_mk]
    simp only [withoutEmptyStyles, markup, elementText, openTag, closeTag, String.length_append]
    cases cs with
    | nil =>
      simp only [withoutEmptyStylesAll, markups, emptyStylesAll, preorderAll, List.flatMap_nil,
        List.count_nil]
      simp only [Element.withoutEmptyStyle] at hown ⊢
      omega
    | cons c cs =>
      simp only [withoutEmptyStylesAll, markups, String.length_append] at hbelow ⊢
      simp only [Element.withoutEmptyStyle] at hown ⊢
      omega

theorem length_markups_withoutEmptyStyles : ∀ cs : List Node,
    (Text.join "\n" (markups (withoutEmptyStylesAll cs))).length + 9 * emptyStylesAll cs =
      (Text.join "\n" (markups cs)).length
  | [] => rfl
  | [c] => by
    have hfirst := length_markup_withoutEmptyStyles c
    rw [emptyStylesAll_cons]
    simpa [withoutEmptyStylesAll, markups, Text.join, emptyStylesAll, preorderAll] using hfirst
  | c :: d :: cs => by
    have hfirst := length_markup_withoutEmptyStyles c
    have hrest := length_markups_withoutEmptyStyles (d :: cs)
    rw [emptyStylesAll_cons]
    simp only [withoutEmptyStylesAll, markups, Text.join, String.intercalate_cons_cons,
      String.length_append] at hrest ⊢
    omega

end

mutual

theorem withoutEmptyStyles_eq_self : ∀ {n : Node},
    (∀ m ∈ n.preorder, ("style", "") ∉ m.element.attributes) → n.withoutEmptyStyles = n
  | mk b e cs, h => by
    have hown : ("style", "") ∉ e.attributes := h (mk b e cs) (by simp [preorder])
    have hkept : e.withoutEmptyStyle = e := by
      have hfilter : e.attributes.filter (fun a => a ≠ ("style", "")) = e.attributes :=
        List.filter_eq_self.mpr fun a ha => by simpa using ne_of_mem_of_not_mem ha hown
      simp only [Element.withoutEmptyStyle, hfilter]
    rw [withoutEmptyStyles, hkept,
      withoutEmptyStylesAll_eq_self fun m hm => h m (by simp [preorder, hm])]

theorem withoutEmptyStylesAll_eq_self : ∀ {cs : List Node},
    (∀ m ∈ preorderAll cs, ("style", "") ∉ m.element.attributes) → withoutEmptyStylesAll cs = cs
  | [], _ => rfl
  | c :: cs, h => by
    rw [withoutEmptyStylesAll,
      withoutEmptyStyles_eq_self fun m hm => h m (by simp [preorderAll, hm]),
      withoutEmptyStylesAll_eq_self fun m hm => h m (by simp [preorderAll, hm])]

end

/-- The markup without the empty styles is the whole markup exactly where there are none. -/
theorem markup_withoutEmptyStyles_eq_iff (n : Node) :
    n.withoutEmptyStyles.markup = n.markup ↔
      ∀ m ∈ n.preorder, ("style", "") ∉ m.element.attributes := by
  refine ⟨fun heq m hm hstyle => ?_, fun h => by rw [withoutEmptyStyles_eq_self h]⟩
  have hlength := n.length_markup_withoutEmptyStyles
  have hnone : n.emptyStyles = 0 := by
    rw [heq] at hlength
    omega
  exact List.count_eq_zero.mp hnone (List.mem_flatMap.mpr ⟨m, hm, hstyle⟩)

end Node

/-! ## Trees without components -/

namespace Node

/-- A list of trees whose roots have no boundaries has their bodies below it. -/
theorem bodies_cons_of_plain {c : Node} (h : c.boundary = none) (cs : List Node) :
    bodies (c :: cs) = c.body :: bodies cs := by
  obtain ⟨b, e, ds⟩ := c
  cases h
  rfl

variable {cue : Cue} {bindings : Bindings} {fill : String → String}
  {made : String → List String → LiveTree → Prop}

mutual

/-- Without components and with every reference filled, only one tree pictures the body. -/
theorem eq_picture_of_pictured : ∀ {n : Node} {tree : LiveTree},
    (∀ m ∈ n.preorder, m.componentChildren = []) →
    (∀ m ∈ n.preorder, m.element.attributes.keys.Nodup) →
    Fills cue bindings fill (n.preorder.flatMap Node.values) →
    n.body.Pictured cue bindings made tree → tree = n.picture cue fill
  | mk b e cs, .mk face trees, hplain, hnodup, hfills, h => by
    simp only [body, Body.Pictured, isEmpty_bodies] at h
    obtain ⟨hface, htrees⟩ := h
    have hroots : ∀ c ∈ cs, c.boundary = none := by
      have hnone := hplain (mk b e cs) (by simp [preorder])
      simpa [componentChildren, children] using hnone
    have hown := Element.face_eq_picture (hnodup (mk b e cs) (by simp [preorder]))
      (hfills.mono fun value hvalue => List.mem_flatMap.mpr ⟨mk b e cs, by simp [preorder], hvalue⟩)
    have hface' := Except.ok.inj (hface.symm.trans hown)
    rw [picture, hface',
      eq_pictureAll_of_pictured hroots (fun m hm => hplain m (by simp [preorder, hm]))
      (fun m hm => hnodup m (by simp [preorder, hm])) (hfills.mono (by simp [preorder])) htrees]
    rfl

theorem eq_pictureAll_of_pictured : ∀ {cs : List Node} {trees : List LiveTree},
    (∀ c ∈ cs, c.boundary = none) →
    (∀ m ∈ preorderAll cs, m.componentChildren = []) →
    (∀ m ∈ preorderAll cs, m.element.attributes.keys.Nodup) →
    Fills cue bindings fill ((preorderAll cs).flatMap Node.values) →
    Body.PicturedAll cue bindings made (bodies cs) trees → trees = pictureAll cue fill cs
  | [], _, _, _, _, _, h => by simpa [bodies, Body.PicturedAll, pictureAll] using h
  | c :: cs, trees, hroots, hplain, hnodup, hfills, h => by
    rw [bodies_cons_of_plain (hroots c (by simp))] at h
    obtain ⟨tree, rest, rfl, hfirst, hrest⟩ := h
    rw [pictureAll, eq_picture_of_pictured (fun m hm => hplain m (by simp [preorderAll, hm]))
        (fun m hm => hnodup m (by simp [preorderAll, hm])) (hfills.mono (by simp [preorderAll]))
        hfirst,
      eq_pictureAll_of_pictured (fun d hd => hroots d (by simp [hd]))
        (fun m hm => hplain m (by simp [preorderAll, hm]))
        (fun m hm => hnodup m (by simp [preorderAll, hm])) (hfills.mono (by simp [preorderAll]))
        hrest]

end

/-- The instructions of a tree without components, all of whose references are
bound, make its picture, and the document shows it. -/
theorem instantiate_plain {r : Registry} {s : Stage} {n : Node} (lead : String)
    (hplain : n.nested = []) (hnodup : ∀ m ∈ n.preorder, m.element.attributes.keys.Nodup)
    (hfills : Fills cue bindings fill (n.preorder.flatMap Node.values)) :
    ∃ i t, r.instantiate bindings (n.body.compile lead cue) s = .ok i t ∧
      t.document.read i = .ok (n.picture cue fill) := by
  have hchildren : ∀ m ∈ n.preorder, m.componentChildren = [] := List.flatMap_eq_nil_iff.mp hplain
  have hcalls : n.body.calls = [] := calls_body_eq_nil hplain
  have hsame := n.body.run_compile (r.invokeWith r.call) bindings lead cue s
  cases hrun : r.instantiate bindings (n.body.compile lead cue) s with
  | error fault t =>
    obtain ⟨u, hbuilt⟩ := hsame.error_left hrun
    rcases Body.construct_error hbuilt with ⟨value, hvalue, hfault⟩ | ⟨call, hcall, _⟩
    · have hfilled := hfills value (values_body_subset n hvalue)
      rw [hfilled] at hfault
      cases hfault
    · rw [hcalls] at hcall
      cases hcall
  | ok i t =>
    have hbuilt := hsame.ok_left hrun
    obtain ⟨tree, hgains, hpictured⟩ :
        ∃ tree, s.Gains tree i t ∧ n.body.Pictured cue bindings (fun _ _ _ => False) tree :=
      Body.construct_pictured (by simp [hcalls]) hbuilt
    rw [eq_picture_of_pictured hchildren hnodup hfills hpictured] at hgains
    exact ⟨i, t, rfl, hgains.holds.read⟩

end Node

/-- The text of what a name stands for. -/
def Entries.boundText (es : Entries Value) (name : String) : String :=
  ((es.get? name).map Value.plain).getD ""

theorem fills_boundText {es : Entries Value} {cue : Cue} {n : Node}
    (h : ∀ name ∈ n.boundNames cue, ∃ v, es.get? name = some v ∧ v.hasText = true) :
    Fills cue (.ofEntries es) es.boundText (n.preorder.flatMap Node.values) := by
  refine Bindings.Give.fills fun name hname => ?_
  obtain ⟨v, hget, htext⟩ := h name hname
  rw [Entries.boundText, hget]
  refine Live.resolve_of_hasText ?_ htext
  rw [Bindings.ofEntries, hget]

end Pageloom
