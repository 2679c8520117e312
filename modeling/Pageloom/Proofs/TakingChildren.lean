import Mathlib.Data.List.Nodup
import Pageloom.Proofs.Making
import Pageloom.Proofs.Operations

/-!
# Children of a new element

An element takes its children one by one, lists and tuples among them opened up. A node is
refused if it has a place, and it may have got that place a moment before, as an earlier child
of the same element. The places of nodes are therefore followed while children are taken: a
node has the place that it had at the start, or it is one of those taken so far and stands
below the new element. So the outcome can be told from the start. Children are taken up to the
first that had a place or comes a second time, and if there is none, all of them are.

Scalars among the children make the text, and other values are dropped. A scalar among them that
cannot be written is in the way like a node that has a place. Apart from the children, an element
cannot be made where its token or an attribute cannot be written.

## Main definitions

* `Pageloom.effectiveChildren` -- the children that an element takes
* `Pageloom.ScalarPolicy.textOf` -- the text that scalar children make
* `Pageloom.ElementCell.HasWording` -- an element whose text, broken or not, is given in pieces
* `Pageloom.CanWrite` -- properties that can be written
* `Pageloom.Forest.CanTake` -- nodes that can become children of one element
* `Pageloom.Forest.CanTakeAll`, `Pageloom.Forest.Hinders` -- children that can be taken, and one
  that is in the way
* `Pageloom.Build.Taking` -- a workshop in which an element has taken some children
-/

namespace Pageloom

/-! ## What children are taken for -/

/-- The node that a value is. -/
def Value.nodeId? : Value → Option NodeId
  | .node h => some h.id
  | _ => Option.none

/-- The text that a value gives as a child, in pieces. A truth value gives none. -/
def Value.childText? (v : Value) : Option (List Text.Piece) :=
  if v.isWording then some v.pieces else Option.none

/-- The text that scalar children make, in pieces. -/
def ScalarPolicy.textOf : ScalarPolicy → List (List Text.Piece) → Option (List Text.Piece)
  | .last, texts => texts.getLast?
  | .concat, [] => none
  | .concat, text :: texts => some (text :: texts).flatten

theorem ScalarPolicy.textOf_concat (policy : ScalarPolicy) (texts : List (List Text.Piece))
    (text : List Text.Piece) :
    policy.textOf (texts ++ [text]) = some (policy.combine (policy.textOf texts) text) := by
  cases policy with
  | last => simp [textOf, combine]
  | concat =>
    cases texts with
    | nil => simp [textOf, combine]
    | cons first texts => simp [textOf, combine]

theorem Text.eq_map_char_of_mapM {pieces : List Piece} {cs : List Char}
    (h : pieces.mapM Piece.char? = some cs) : pieces = cs.map .char := by
  induction pieces generalizing cs with
  | nil =>
    cases h
    rfl
  | cons piece pieces ih =>
    rw [List.mapM_cons] at h
    obtain ⟨c, hc, h⟩ := Option.bind_eq_some_iff.mp h
    obtain ⟨cs', hcs, h⟩ := Option.bind_eq_some_iff.mp h
    cases h
    cases piece with
    | char c' =>
      cases hc
      rw [List.map_cons, ← ih hcs]
    | half unit => cases hc

theorem Text.eq_piecesOf_of_whole? {pieces : List Piece} {s : String}
    (h : whole? pieces = some s) : pieces = piecesOf s := by
  obtain ⟨cs, hcs, rfl⟩ := Option.map_eq_some_iff.mp h
  rw [piecesOf, String.toList_ofList]
  exact eq_map_char_of_mapM hcs

theorem Text.filled_piecesOf (s : String) : filled (piecesOf s) = s := by
  simp [filled, piecesOf, Piece.char?, Function.comp_def]

/-- An element has a text, given in pieces, or none. Who reads it finds its halves filled in. -/
def ElementCell.HasWording (c : ElementCell) (text : Option (List Text.Piece)) : Prop :=
  c.pieces? = text ∧ c.element.text = text.map Text.filled

theorem ElementCell.hasWording_writeText (c : ElementCell) (pieces : List Text.Piece) :
    (c.writeText (.ofPieces pieces)).HasWording (some pieces) := by
  unfold Value.ofPieces
  cases hwhole : Text.whole? pieces with
  | none => exact ⟨rfl, rfl⟩
  | some s =>
    rw [Text.eq_piecesOf_of_whole? hwhole, HasWording, Option.map_some, Text.filled_piecesOf]
    exact ⟨rfl, rfl⟩

/-- The entries of properties. Where there are no properties there are no entries. -/
def Value.offered? : Value → Option Pairs
  | .none => some []
  | v => v.pairs?

/-- The children that an element takes: those that are given, else those of a `children`
property, without the lists and tuples around them. -/
def effectiveChildren (ps : Pairs) (children : List Value) : List Value :=
  flattenChildren (if children.isEmpty then childrenOf (ps.get? "children") else children)

theorem Build.properties_of_offered {props : Value} {ps : Pairs} (w : Workshop)
    (h : props.offered? = some ps) : Build.properties props w = .ok ps w := by
  have htable : ∀ (empty : Bool) (qs : Pairs), (empty = true → qs = []) →
      (if !empty then pure qs else pure [] : Build Pairs) w = .ok qs w := by
    intro empty qs hempty
    cases empty with
    | false => rfl
    | true =>
      rw [hempty rfl]
      rfl
  cases props with
  | none =>
    cases h
    rfl
  | table es =>
    cases h
    exact htable es.isEmpty _ fun hes => by rw [List.isEmpty_iff.mp hes]; rfl
  | view es =>
    cases h
    exact htable es.isEmpty _ fun hes => by rw [List.isEmpty_iff.mp hes]; rfl
  | dictionary qs =>
    cases h
    exact htable ps.isEmpty _ List.isEmpty_iff.mp
  | _ => cases h

/-! ## Attributes -/

/-- All names of a table are texts. -/
def Pairs.AreNamed (ps : Pairs) : Prop := ∀ e ∈ ps, e.1.words?.isSome = true

theorem Pairs.areNamed_ofEntries (es : Entries Value) : (Pairs.ofEntries es).AreNamed := by
  intro e he
  obtain ⟨entry, _, rfl⟩ := List.mem_map.mp he
  rfl

/-- A property can be written: as an attribute it has a text, and so has every entry of a style
table. -/
def CanWrite (property : Value × Value) : Prop :=
  ∀ name, property.1.words? = some name → name ≠ "onClick" → name ≠ "children" →
    (property.2.isAtom = true → property.2.hasText = true) ∧
    (attributeName name = "style" → ∀ rules, property.2.pairs? = some rules →
      ∀ rule ∈ rules, rule.2.hasText = true)

theorem Style.succeedsIf_declared {rules : Pairs} (hnames : rules.AreNamed) :
    SucceedsIf (∀ rule ∈ rules, rule.2.hasText = true) (Style.declared rules) := by
  induction rules with
  | nil => exact .ok (by simp) []
  | cons rule rules ih =>
    obtain ⟨k, v⟩ := rule
    obtain ⟨hname, hnames⟩ := List.forall_mem_cons.mp hnames
    obtain ⟨name, hname⟩ := Option.isSome_iff_exists.mp hname
    rw [List.forall_mem_cons]
    by_cases hdeclared : Style.isDeclared v = true
    · have hof : Style.declared ((k, v) :: rules) = (do
          let _ ← v.settingText
          return (name, v) :: (← Style.declared rules)) := by
        simp [Style.declared, hdeclared, hname]
      rw [hof]
      exact v.succeedsIf_settingText.bind fun _ => (ih hnames).map _
    · have hof : Style.declared ((k, v) :: rules) = Style.declared rules := by
        simp [Style.declared, hdeclared]
      have hnone : v.hasText = true := by
        cases v with
        | none => rfl
        | _ => exact absurd rfl hdeclared
      rw [hof]
      exact (ih hnames).congr (by simp [hnone])

theorem succeedsIf_attributeOf {k v : Value} {name : String} (hname : k.words? = some name)
    (honClick : name ≠ "onClick") (hchildren : name ≠ "children")
    (hv : ∀ rules, v.pairs? = some rules → rules.AreNamed) :
    SucceedsIf (CanWrite (k, v)) (attributeOf name v) := by
  have hcan : CanWrite (k, v) ↔ (v.isAtom = true → v.hasText = true) ∧
      (attributeName name = "style" → ∀ rules, v.pairs? = some rules →
        ∀ rule ∈ rules, rule.2.hasText = true) := by
    simp [CanWrite, hname, honClick, hchildren]
  rw [attributeOf, hcan]
  by_cases hatom : v.isAtom = true
  · have hpairs : v.pairs? = none := by
      cases v with
      | scalar _ => rfl
      | brokenText _ => rfl
      | _ => cases hatom
    rw [if_pos hatom]
    exact (v.succeedsIf_settingText.map _).congr (by simp [hatom, hpairs])
  · rw [if_neg hatom]
    by_cases hstyle : (attributeName name = "style" && v.isTable) = true
    · rw [if_pos hstyle]
      simp only [Bool.and_eq_true, decide_eq_true_eq] at hstyle
      obtain ⟨rules, hrules⟩ := Option.isSome_iff_exists.mp hstyle.2
      rw [Style.inline, hrules]
      exact (((Style.succeedsIf_declared (hv rules hrules)).map _).map _).congr
        (by simp [hatom, hstyle.1])
    · rw [if_neg hstyle]
      simp only [Bool.and_eq_true, decide_eq_true_eq, not_and] at hstyle
      refine .ok ⟨fun h => absurd h hatom, fun hname rules hrules => ?_⟩ _
      exact absurd (by rw [Value.isTable, hrules]; rfl) (hstyle hname)

/-- Attributes can be had from properties exactly if all of them can be written. -/
theorem succeedsIf_attributesOf {ps : Pairs} (hps : ps.AreNamed)
    (hrules : ∀ e ∈ ps, ∀ rules, e.2.pairs? = some rules → rules.AreNamed) :
    SucceedsIf (∀ e ∈ ps, CanWrite e) (attributesOf ps) := by
  induction ps with
  | nil => exact .ok (by simp) []
  | cons e ps ih =>
    obtain ⟨k, v⟩ := e
    obtain ⟨hname, hps⟩ := List.forall_mem_cons.mp hps
    obtain ⟨name, hname⟩ := Option.isSome_iff_exists.mp hname
    rw [List.forall_mem_cons] at hrules ⊢
    have hof : attributesOf ((k, v) :: ps) =
        (if name = "onClick" || name = "children" then .ok [] else attributeOf name v) >>=
          fun own => (attributesOf ps).map fun as => own ++ as := by
      simp only [attributesOf, hname]
      split <;> rfl
    rw [hof]
    refine SucceedsIf.bind ?_ fun own => (ih hps hrules.2).map _
    by_cases hspecial : (name = "onClick" || name = "children") = true
    · rw [if_pos hspecial]
      simp only [Bool.or_eq_true, decide_eq_true_eq] at hspecial
      refine .ok (fun name' hname' honClick hchildren => ?_) _
      cases Option.some.inj (hname.symm.trans hname')
      exact absurd hspecial (by simp [honClick, hchildren])
    · rw [if_neg hspecial]
      simp only [Bool.or_eq_true, decide_eq_true_eq, not_or] at hspecial
      exact succeedsIf_attributeOf hname hspecial.1 hspecial.2 hrules.1

/-! ## Nodes that can be taken -/

namespace Forest

variable {f : Forest} {id : NodeId}

/-- A node without a place: no element lists it as a child, and an element is not the root of a
component. -/
def IsFree (f : Forest) : NodeId → Prop
  | .element i => f.parent? (.element i) = none ∧ f.owner? i = none
  | .component j => f.parent? (.component j) = none

instance (f : Forest) : DecidablePred f.IsFree
  | .element i => inferInstanceAs (Decidable (f.parent? (.element i) = none ∧ f.owner? i = none))
  | .component j => inferInstanceAs (Decidable (f.parent? (.component j) = none))

/-- Nodes that can become children of one element, one after the other. -/
def CanTake (f : Forest) (ids : List NodeId) : Prop := (∀ id ∈ ids, f.IsFree id) ∧ ids.Nodup

instance (f : Forest) (ids : List NodeId) : Decidable (f.CanTake ids) :=
  inferInstanceAs (Decidable ((∀ id ∈ ids, f.IsFree id) ∧ ids.Nodup))

theorem canTake_append_singleton {ids : List NodeId} :
    f.CanTake (ids ++ [id]) ↔ f.CanTake ids ∧ f.IsFree id ∧ id ∉ ids := by
  have hnodup : (ids ++ [id]).Nodup ↔ id ∉ ids ∧ ids.Nodup := by
    rw [← List.concat_eq_append, List.nodup_concat]
  simp only [CanTake, List.forall_mem_append, List.forall_mem_singleton, hnodup]
  tauto

/-- Children that one element can take one after the other: nodes that can become its children,
and scalars that have texts. -/
def CanTakeAll (f : Forest) (cs : List Value) : Prop :=
  f.CanTake (cs.filterMap Value.nodeId?) ∧ ∀ c ∈ cs, c.isWording = true → c.hasText = true

theorem canTakeAll_append_singleton {cs : List Value} {c : Value} :
    f.CanTakeAll (cs ++ [c]) ↔ f.CanTakeAll cs ∧
      (∀ id, c.nodeId? = some id → f.IsFree id ∧ id ∉ cs.filterMap Value.nodeId?) ∧
      (c.isWording = true → c.hasText = true) := by
  simp only [CanTakeAll, List.filterMap_append, List.forall_mem_append, List.forall_mem_singleton]
  cases hc : c.nodeId? with
  | none => simp [hc, and_assoc]
  | some id =>
    simp only [List.filterMap_cons, hc, List.filterMap_nil, canTake_append_singleton,
      Option.some.injEq, forall_eq']
    tauto

theorem CanTakeAll.of_append {cs ds : List Value} (h : f.CanTakeAll (cs ++ ds)) :
    f.CanTakeAll cs := by
  obtain ⟨⟨hfree, hnodup⟩, htexts⟩ := h
  rw [List.filterMap_append] at hfree hnodup
  exact ⟨⟨fun id hid => hfree id (List.mem_append_left _ hid), (List.nodup_append.mp hnodup).1⟩,
    fun c hc => htexts c (List.mem_append_left _ hc)⟩

/-- A node is there: an element, or a component together with its root, which is one of the
first elements up to a bound. A component may also be one around another component. -/
def StandsBelow (f : Forest) (bound : Nat) : NodeId → Prop
  | .element i => i < bound
  | .component j => (f.around? j).isSome ∨ ∃ r, f.root? j = some r ∧ r < bound

/-- The fault of a node that has a place, as the forest shows it. -/
inductive Refuses (f : Forest) : NodeId → Fault → Prop
  | element (i : Nat) : Refuses f (.element i) (.alreadyOwned (f.shown (.element i)))
  | component {j p : Nat} (h : f.parent? (.component j) = some p) :
      Refuses f (.component j) (.alreadyMounted (f.shown (.component j)) (f.shownElement p))

theorem Refuses.family {fault : Fault} (h : f.Refuses id fault) :
    fault.report?.map Report.family = some .tree := by
  cases h <;> rfl

/-- A child is in the way of others that come after `before`: a node that has a place or comes a
second time, which `shown` refuses, or a scalar that has no text. -/
def Hinders (f shown : Forest) (before : List Value) (c : Value) (fault : Fault) : Prop :=
  (∃ id, c.nodeId? = some id ∧ ¬ f.CanTake (before.filterMap Value.nodeId? ++ [id]) ∧
    shown.Refuses id fault) ∨ c.isWording = true ∧ c.hasText = false ∧ fault = .wrongValue

theorem Hinders.not_canTakeAll {shown : Forest} {before after : List Value} {c : Value}
    {fault : Fault} (h : f.Hinders shown before c fault) :
    ¬ f.CanTakeAll (before ++ c :: after) := by
  intro hall
  have hall : f.CanTakeAll ((before ++ [c]) ++ after) := by simpa using hall
  have hcan := hall.of_append
  rcases h with ⟨id, hid, hplaced, _⟩ | ⟨hwording, htext, _⟩
  · exact hplaced (by simpa [hid] using hcan.1)
  · rw [hcan.2 c (by simp) hwording] at htext
    cases htext

variable {bound : Nat}

theorem StandsBelow.has (h : f.StandsBelow bound id) (hbound : bound ≤ f.elements.size) :
    f.Has id := by
  cases id with
  | element i => exact Nat.lt_of_lt_of_le h hbound
  | component j =>
    rw [has_component]
    rcases h with haround | ⟨r, hroot, _⟩
    · obtain ⟨_, haround⟩ := Option.isSome_iff_exists.mp haround
      obtain ⟨k, hk, _⟩ := Option.bind_eq_some_iff.mp haround
      exact ⟨k, hk⟩
    · obtain ⟨k, hk, _⟩ := Option.bind_eq_some_iff.mp hroot
      exact ⟨k, hk⟩

theorem attachable_of_free (hid : f.StandsBelow bound id) (hbound : bound ≤ f.elements.size)
    (hfree : f.IsFree id) :
    ∃ target, f.attachable id = .ok target ∧ ∀ i, target = some i → i < bound := by
  cases id with
  | element i =>
    obtain ⟨c, hc⟩ := has_element.mp (hid.has hbound)
    obtain ⟨hparent, howner⟩ := hfree
    simp only [parent?, owner?, hc, Option.bind_some] at hparent howner
    exact ⟨some i, by simp [attachable, hc, hparent, howner], fun _ h => Option.some.inj h ▸ hid⟩
  | component j =>
    have hparent : f.parent? (.component j) = none := hfree
    by_cases haround : (f.around? j).isSome = true
    · exact ⟨none, by simp [attachable, hparent, haround], by simp⟩
    · rcases hid with h | ⟨r, hroot, hr⟩
      · exact absurd h haround
      · refine ⟨some r, ?_, fun _ h => Option.some.inj h ▸ hr⟩
        simp [attachable, hparent, haround, root_of_root? hroot, Except.map]

theorem attachable_of_not_free (hid : f.Has id) (hplaced : ¬ f.IsFree id) :
    ∃ fault, f.attachable id = .error fault ∧ f.Refuses id fault := by
  cases id with
  | element i =>
    obtain ⟨c, hc⟩ := has_element.mp hid
    refine ⟨_, ?_, .element i⟩
    have hplace : (c.parent.isSome || c.owner.isSome) = true := by
      rw [IsFree] at hplaced
      simp only [parent?, owner?, hc, Option.bind_some] at hplaced
      cases hparent : c.parent <;> cases howner : c.owner <;> simp_all
    simp [attachable, hc, hplace]
  | component j =>
    obtain ⟨p, hp⟩ := Option.ne_none_iff_exists'.mp hplaced
    exact ⟨_, by simp [attachable, hp], .component hp⟩

/-- A link writes the child down in the cell of the parent. -/
theorem elements_link {p : Nat} {c : ElementCell} (hc : f.elements[p]? = some c)
    (hne : id ≠ .element p) :
    (f.link p id).elements[p]? = some { c with children := c.children ++ [id] } := by
  cases id with
  | element i =>
    have hi : i ≠ p := fun h => hne (h ▸ rfl)
    simp [link, elements_modifyElement, hi, hc]
  | component j => simp [link, modifyComponent, elements_modifyElement, hc]

@[simp] theorem size_link (f : Forest) (p : Nat) (id : NodeId) :
    (f.link p id).elements.size = f.elements.size := by
  cases id <;> simp [link, modifyComponent]

end Forest

/-! ## Taking children -/

namespace Build

variable {seat : Seat} {tag : String} {w u : Workshop} {taken : List NodeId}
  {texts : List (List Text.Piece)}

/-- A workshop in which a new element, the first after those of the workshop `w`, has taken some
nodes as its children and some texts. Everything else is in its place. -/
structure Taking (seat : Seat) (tag : String) (w : Workshop) (taken : List NodeId)
    (texts : List (List Text.Piece)) (u : Workshop) : Prop where
  cell : ∃ c, u.forest.elements[w.forest.elements.size]? = some c ∧ c.children = taken ∧
    c.element.tag = tag ∧ c.HasWording ((w.builder seat).policy.textOf texts) ∧
    c.parent = none ∧ c.owner = none
  size : u.forest.elements.size = w.forest.elements.size + 1
  parent : ∀ id, u.forest.parent? id =
    if id ∈ taken then some w.forest.elements.size else w.forest.parent? id
  owner : u.forest.owner? = w.forest.owner?
  root : u.forest.root? = w.forest.root?
  around : u.forest.around? = w.forest.around?
  policy : (u.builder seat).policy = (w.builder seat).policy
  notices : u.notices = w.notices

namespace Taking

theorem start (seat : Seat) (tag : String) (w : Workshop) :
    Taking seat tag w [] [] { w.setBuilder seat
        { w.builder seat with counter := (w.builder seat).counter.next.2 } with
      forest := (w.forest.addElement tag (w.builder seat).counter.next.1).1 } where
  cell := by
    refine ⟨_, by rw [Forest.elements_addElement, if_pos rfl], rfl, rfl, ?_, rfl, rfl⟩
    cases (w.builder seat).policy <;> exact ⟨rfl, rfl⟩
  size := by simp [Forest.addElement]
  parent id := by simp [Forest.parent?_addElement]
  owner := Forest.owner?_addElement _ _ _
  root := rfl
  around := rfl
  policy := by cases seat <;> rfl
  notices := by cases seat <;> rfl

/-- Writing to the new element. -/
theorem modify {texts' : List (List Text.Piece)} {change : ElementCell → ElementCell}
    (h : Taking seat tag w taken texts u)
    (hlinks : ∀ c, (change c).children = c.children ∧ (change c).element.tag = c.element.tag ∧
      (change c).parent = c.parent ∧ (change c).owner = c.owner)
    (htext : ∀ c, u.forest.elements[w.forest.elements.size]? = some c →
      (change c).HasWording ((w.builder seat).policy.textOf texts')) :
    Taking seat tag w taken texts'
      { u with forest := u.forest.modifyElement w.forest.elements.size change } where
  cell := by
    obtain ⟨c, hc, hchildren, htag, _, hparent, howner⟩ := h.cell
    obtain ⟨hchildren', htag', hparent', howner'⟩ := hlinks c
    exact ⟨change c, by simp [Forest.elements_modifyElement, hc], hchildren'.trans hchildren,
      htag'.trans htag, htext c hc, hparent'.trans hparent, howner'.trans howner⟩
  size := by simp [h.size]
  parent id := by
    rw [Forest.parent?_modifyElement _ _ fun c => (hlinks c).2.2.1]
    exact h.parent id
  owner := (Forest.owner?_modifyElement _ _ fun c => (hlinks c).2.2.2).trans h.owner
  root := h.root
  around := h.around
  policy := (by cases seat <;> rfl : _ = (u.builder seat).policy).trans h.policy
  notices := h.notices

theorem hasWording (h : Taking seat tag w taken texts u) {c : ElementCell}
    (hc : u.forest.elements[w.forest.elements.size]? = some c) :
    c.HasWording ((w.builder seat).policy.textOf texts) := by
  obtain ⟨c', hc', _, _, htext, _⟩ := h.cell
  cases Option.some.inj (hc.symm.trans hc')
  exact htext

/-- Writing to the new element what is not its text. -/
theorem write (h : Taking seat tag w taken texts u) (change : ElementCell → ElementCell)
    (hkeeps : ∀ c, (change c).children = c.children ∧ (change c).element.tag = c.element.tag ∧
      (change c).parent = c.parent ∧ (change c).owner = c.owner ∧
      (change c).pieces? = c.pieces? ∧ (change c).element.text = c.element.text) :
    Taking seat tag w taken texts
      { u with forest := u.forest.modifyElement w.forest.elements.size change } := by
  refine h.modify (fun c => ?_) fun c hc => ?_
  · obtain ⟨hchildren, htag, hparent, howner, _⟩ := hkeeps c
    exact ⟨hchildren, htag, hparent, howner⟩
  · obtain ⟨_, _, _, _, hpieces, htext⟩ := hkeeps c
    exact ⟨hpieces.trans (h.hasWording hc).1, htext.trans (h.hasWording hc).2⟩

theorem setAttributes (attributes : List (String × List Text.Piece))
    (h : Taking seat tag w taken texts u) :
    Taking seat tag w taken texts
      { u with
        forest := attributes.foldl
          (fun f a => f.setAttribute w.forest.elements.size a.1 (.ofPieces a.2)) u.forest } := by
  induction attributes generalizing u with
  | nil => exact h
  | cons a attributes ih =>
    exact ih (h.write (fun c => c.writeAttribute a.1 (.ofPieces a.2)) fun _ =>
      ⟨rfl, rfl, rfl, rfl, rfl, rfl⟩)

/-- A text more. -/
theorem takeText (text : List Text.Piece) (h : Taking seat tag w taken texts u) :
    Taking seat tag w taken (texts ++ [text])
      { u with
        forest := u.forest.setText w.forest.elements.size
          (.ofPieces ((u.builder seat).policy.combine
            (u.forest.elements[w.forest.elements.size]?.bind ElementCell.pieces?) text)) } := by
  refine h.modify (fun _ => ⟨rfl, rfl, rfl, rfl⟩) fun c hc => ?_
  rw [ScalarPolicy.textOf_concat, ← (h.hasWording hc).1, ← h.policy, hc]
  exact c.hasWording_writeText _

theorem isFree_iff (h : Taking seat tag w taken texts u) (id : NodeId) :
    u.forest.IsFree id ↔ w.forest.IsFree id ∧ id ∉ taken := by
  cases id with
  | element i =>
    simp only [Forest.IsFree, h.parent, h.owner]
    split <;> simp_all
  | component j =>
    simp only [Forest.IsFree, h.parent]
    split <;> simp_all

theorem standsBelow (h : Taking seat tag w taken texts u) {id : NodeId}
    (hid : w.forest.StandsBelow w.forest.elements.size id) :
    u.forest.StandsBelow w.forest.elements.size id := by
  cases id with
  | element i => exact hid
  | component j =>
    simp only [Forest.StandsBelow, h.root, h.around]
    exact hid

/-- Nothing stands above the new element. -/
theorem ancestors_eq (h : Taking seat tag w taken texts u) :
    u.forest.ancestors w.forest.elements.size = [w.forest.elements.size] := by
  obtain ⟨c, hc, _, _, _, hparent, howner⟩ := h.cell
  have habove : u.forest.above? w.forest.elements.size = none := by
    simp [Forest.above?, hc, hparent, howner]
  rw [Forest.ancestors, h.size, Forest.ancestorsWithin, habove]

/-- A node more. -/
theorem link (h : Taking seat tag w taken texts u) {id : NodeId}
    (hid : w.forest.StandsBelow w.forest.elements.size id) :
    Taking seat tag w (taken ++ [id]) texts
      { u with forest := u.forest.link w.forest.elements.size id } where
  cell := by
    obtain ⟨c, hc, hchildren, hrest⟩ := h.cell
    have hne : id ≠ .element w.forest.elements.size := by
      rintro rfl
      exact Nat.lt_irrefl _ hid
    exact ⟨_, Forest.elements_link hc hne, by rw [hchildren], hrest⟩
  size := by simp [h.size]
  parent other := by
    rw [Forest.parent?_link _ ((h.standsBelow hid).has (by simp [h.size])), h.parent]
    by_cases hother : other = id <;> simp [hother]
  owner := (Forest.owner?_link _).trans h.owner
  root := (Forest.root?_link _).trans h.root
  around := (Forest.around?_link _).trans h.around
  policy := (by cases seat <;> rfl : _ = (u.builder seat).policy).trans h.policy
  notices := h.notices

/-- A node that had no place and was not taken before can be taken. -/
theorem addChild_of_free (h : Taking seat tag w taken texts u) {id : NodeId}
    (hid : w.forest.StandsBelow w.forest.elements.size id)
    (hfree : w.forest.IsFree id ∧ id ∉ taken) :
    Build.addChild w.forest.elements.size id u =
      .ok () { u with forest := u.forest.link w.forest.elements.size id } := by
  obtain ⟨target, htarget, hbelow⟩ := Forest.attachable_of_free (h.standsBelow hid)
    (by simp [h.size]) ((h.isFree_iff _).mpr hfree)
  have hadd : u.forest.addChild w.forest.elements.size id =
      .ok (u.forest.link w.forest.elements.size id) := by
    simp only [Forest.addChild, htarget, h.ancestors_eq]
    refine if_neg ?_
    cases target with
    | none => simp
    | some i => simpa using Nat.ne_of_lt (hbelow i rfl)
  simp only [Build.addChild, changeForest]
  rw [bind_of_ok (show forest u = .ok u.forest u from rfl), hadd]
  rfl

/-- Any other node is refused. -/
theorem addChild_of_not_free (h : Taking seat tag w taken texts u) {id : NodeId}
    (hid : w.forest.StandsBelow w.forest.elements.size id)
    (hplaced : ¬ (w.forest.IsFree id ∧ id ∉ taken)) :
    ∃ fault, Build.addChild w.forest.elements.size id u = .error fault u ∧
      u.forest.Refuses id fault := by
  have hhas : u.forest.Has id := (h.standsBelow hid).has (by simp [h.size])
  obtain ⟨fault, hfault, hrefuses⟩ := Forest.attachable_of_not_free hhas
    fun hfree => hplaced ((h.isFree_iff _).mp hfree)
  have hadd : u.forest.addChild w.forest.elements.size id = .error fault := by
    simp only [Forest.addChild, hfault]
    rfl
  refine ⟨fault, ?_, hrefuses⟩
  simp only [Build.addChild, changeForest]
  rw [bind_of_ok (show forest u = .ok u.forest u from rfl), hadd]
  rfl

/-- **Taking one child.** A node is taken if it had no place and was not taken before, and
refused otherwise. A scalar is taken if it has a text. Anything else is dropped. -/
theorem takeChild {before : List Value} (hcan : w.forest.CanTakeAll before)
    (h : Taking seat tag w (before.filterMap Value.nodeId?) (before.filterMap Value.childText?) u)
    (c : Value) (hc : ∀ id, c.nodeId? = some id →
      w.forest.StandsBelow w.forest.elements.size id) :
    (w.forest.CanTakeAll (before ++ [c]) ∧
      ∃ v, Build.takeChild seat w.forest.elements.size c u = .ok () v ∧
        Taking seat tag w ((before ++ [c]).filterMap Value.nodeId?)
          ((before ++ [c]).filterMap Value.childText?) v) ∨
    ∃ fault, Build.takeChild seat w.forest.elements.size c u = .error fault u ∧
      w.forest.Hinders u.forest before c fault := by
  rw [List.filterMap_append, List.filterMap_append, Forest.canTakeAll_append_singleton]
  cases hnode : c.nodeId? with
  | some id =>
    obtain ⟨handle, rfl, rfl⟩ : ∃ handle, c = .node handle ∧ handle.id = id := by
      cases c <;> cases hnode
      exact ⟨_, rfl, rfl⟩
    have hid := hc handle.id rfl
    by_cases hfree : w.forest.IsFree handle.id ∧ handle.id ∉ before.filterMap Value.nodeId?
    · refine .inl ⟨⟨hcan, by simpa [Value.nodeId?] using hfree, by simp [Value.isWording,
        Value.isAtom]⟩, _, h.addChild_of_free hid hfree, ?_⟩
      simpa [Value.nodeId?, Value.childText?, Value.isWording, Value.isAtom] using h.link hid
    · obtain ⟨fault, hrun, hrefuses⟩ := h.addChild_of_not_free hid hfree
      refine .inr ⟨fault, hrun, .inl ⟨handle.id, rfl, fun hcan' => ?_, hrefuses⟩⟩
      exact hfree (Forest.canTake_append_singleton.mp hcan').2
  | none =>
    have hrun : Build.takeChild seat w.forest.elements.size c u =
        (if c.isWording then Build.takeText seat w.forest.elements.size c else pure ()) u := by
      cases c with
      | node handle => cases hnode
      | _ => rfl
    rw [hrun]
    by_cases hwording : c.isWording = true
    · rw [if_pos hwording]
      cases htext : c.hasText with
      | true =>
        refine .inl ⟨⟨hcan, by simp, by simp⟩, _, bind_of_ok (a := c.plain) (u := u) ?_, ?_⟩
        · rw [Value.plainText_of_hasText htext]
          rfl
        · simpa [hnode, Value.childText?, hwording] using h.takeText c.pieces
      | false =>
        refine .inr ⟨.wrongValue, bind_of_error ?_, .inr ⟨hwording, htext, rfl⟩⟩
        rw [Value.plainText_of_not_hasText htext]
        rfl
    · rw [if_neg hwording]
      exact .inl ⟨⟨hcan, by simp, fun h => absurd h hwording⟩, u, rfl,
        by simpa [hnode, Value.childText?, hwording] using h⟩

/-- **Taking children one by one.** Either all of them are taken, or they are taken up to the
first that is in the way. -/
theorem takeChildren {before : List Value} (hcan : w.forest.CanTakeAll before)
    (h : Taking seat tag w (before.filterMap Value.nodeId?) (before.filterMap Value.childText?) u)
    (cs : List Value) (hcs : ∀ c ∈ cs, ∀ id, c.nodeId? = some id →
      w.forest.StandsBelow w.forest.elements.size id) :
    (w.forest.CanTakeAll (before ++ cs) ∧
      ∃ v, Build.takeChildren seat w.forest.elements.size cs u = .ok () v ∧
        Taking seat tag w ((before ++ cs).filterMap Value.nodeId?)
          ((before ++ cs).filterMap Value.childText?) v) ∨
    ∃ taken c after fault v, cs = taken ++ c :: after ∧ w.forest.CanTakeAll (before ++ taken) ∧
      Build.takeChildren seat w.forest.elements.size cs u = .error fault v ∧
      w.forest.Hinders v.forest (before ++ taken) c fault := by
  induction cs generalizing u before with
  | nil => exact .inl ⟨by simpa using hcan, u, rfl, by simpa using h⟩
  | cons c cs ih =>
    obtain ⟨hc, hcs⟩ := List.forall_mem_cons.mp hcs
    rcases h.takeChild hcan c hc with ⟨hcan', v, hrun, hv⟩ | ⟨fault, hrun, hhinders⟩
    · have hstep : Build.takeChildren seat w.forest.elements.size (c :: cs) u =
          Build.takeChildren seat w.forest.elements.size cs v := bind_of_ok hrun
      rw [hstep]
      rcases ih hcan' hv hcs with hall | ⟨taken, d, after, fault, v', rfl, hrest⟩
      · exact .inl (by simpa using hall)
      · exact .inr ⟨c :: taken, d, after, fault, v', rfl, by simpa using hrest⟩
    · exact .inr ⟨[], c, cs, fault, u, rfl, by simpa using hcan, bind_of_error hrun,
        by simpa using hhinders⟩

end Taking

/-- The remark on hidden text is made exactly where there are both children and text. -/
theorem warnHiddenText_of_cell {i : Nat} {c : ElementCell} (hc : u.forest.elements[i]? = some c) :
    warnHiddenText i u = .ok () { u with
      notices := u.notices ++ if c.element.text.isSome && !c.children.isEmpty then
        [.textHidden c.element.tag c.element.token] else [] } := by
  unfold warnHiddenText
  rw [bind_of_ok (show forest u = .ok u.forest u from rfl), hc]
  dsimp only
  split
  · rfl
  · rw [List.append_nil]
    rfl

/-- The new element of a workshop, with its children and its text, and the remark that is made
where the one hides the other. -/
def Made (seat : Seat) (tag : String) (w : Workshop) (cs : List Value) (v : Workshop) : Prop :=
  ∃ c, v.forest.elements[w.forest.elements.size]? = some c ∧ c.element.tag = tag ∧
    c.children = cs.filterMap Value.nodeId? ∧
    c.HasWording ((w.builder seat).policy.textOf (cs.filterMap Value.childText?)) ∧
    v.notices = w.notices ++ if c.element.text.isSome && !c.children.isEmpty then
      [.textHidden tag c.element.token] else []

/-- What is left of making an element once its attributes are written. -/
def complete (seat : Seat) (i : Nat) (cs : List Value) : Build Value := do
  takeChildren seat i cs
  warnHiddenText i
  nodeValue (.element i)

theorem Taking.complete (h : Taking seat tag w [] [] u) (cs : List Value)
    (hcs : ∀ c ∈ cs, ∀ id, c.nodeId? = some id →
      w.forest.StandsBelow w.forest.elements.size id) :
    (w.forest.CanTakeAll cs ∧
      ∃ v, Build.complete seat w.forest.elements.size cs u =
          .ok (.node (v.forest.handle (.element w.forest.elements.size))) v ∧
        Made seat tag w cs v) ∨
    ∃ before c after fault v, cs = before ++ c :: after ∧ w.forest.CanTakeAll before ∧
      Build.complete seat w.forest.elements.size cs u = .error fault v ∧
      w.forest.Hinders v.forest before c fault := by
  have hnone : w.forest.CanTakeAll [] := ⟨⟨by simp, List.nodup_nil⟩, by simp⟩
  rcases takeChildren hnone h cs hcs with
    ⟨hcan, v, hrun, hv⟩ | ⟨before, c, after, fault, v, hsplit, hbefore, hrun, hhinders⟩
  · left
    obtain ⟨c, hc, hchildren, htag, htext, _⟩ := hv.cell
    refine ⟨hcan, { v with
        notices := v.notices ++ if c.element.text.isSome && !c.children.isEmpty then
          [.textHidden c.element.tag c.element.token] else [] }, ?_, c, hc, htag, hchildren, htext,
      by rw [hv.notices, htag]⟩
    unfold Build.complete
    rw [bind_of_ok hrun, bind_of_ok (warnHiddenText_of_cell hc)]
    rfl
  · exact .inr ⟨before, c, after, fault, v, hsplit, hbefore, bind_of_error hrun, hhinders⟩

/-- The outcome of making an element: a token or a property that cannot be written, all children
taken, or one of them in the way. -/
theorem element_outcome (seat : Seat) (tag : String) (props : Value) (ps : Pairs)
    (children : List Value) (w : Workshop) (hprops : props.offered? = some ps)
    (hnames : ps.AreNamed)
    (hrules : ∀ e ∈ ps, ∀ rules, e.2.pairs? = some rules → rules.AreNamed)
    (hcs : ∀ c ∈ effectiveChildren ps children, ∀ id, c.nodeId? = some id →
      w.forest.StandsBelow w.forest.elements.size id) :
    let cs := effectiveChildren ps children
    (¬ ((w.builder seat).canMint = true ∧ ∀ e ∈ ps, CanWrite e) ∧
      ∃ v, element seat tag props children w = .error .wrongValue v) ∨
    ((w.builder seat).canMint = true ∧ ∀ e ∈ ps, CanWrite e) ∧
      ((w.forest.CanTakeAll cs ∧ ∃ v, element seat tag props children w =
          .ok (.node (v.forest.handle (.element w.forest.elements.size))) v ∧
            Made seat tag w cs v) ∨
        ∃ before c after fault v, cs = before ++ c :: after ∧ w.forest.CanTakeAll before ∧
          element seat tag props children w = .error fault v ∧
          w.forest.Hinders v.forest before c fault) := by
  intro cs
  cases hmints : (w.builder seat).canMint with
  | false =>
    exact .inl ⟨by simp, _, bind_of_error (mint_of_not_canMint hmints tag)⟩
  | true =>
    -- The click handler is written first, whatever comes of the rest.
    obtain ⟨u, hu, hrun⟩ : ∃ u, Taking seat tag w [] [] u ∧
        element seat tag props children w = (do
          let attributes ← lift (attributesOf ps)
          modifyForest fun f => attributes.foldl
            (fun f a => f.setAttribute w.forest.elements.size a.1 (.ofPieces a.2)) f
          complete seat w.forest.elements.size cs : Build Value) u := by
      have hstart := Taking.start seat tag w
      unfold element
      rw [bind_of_ok (mint_of_canMint hmints tag), bind_of_ok (properties_of_offered _ hprops)]
      dsimp only
      cases (ps.get? "onClick").bind Value.asHandler? with
      | some handler =>
        exact ⟨_, hstart.write (fun c => c.writeOnClick (.handler handler))
          fun _ => ⟨rfl, rfl, rfl, rfl, rfl, rfl⟩, rfl⟩
      | none => exact ⟨_, hstart, rfl⟩
    rw [hrun]
    rcases succeedsIf_attributesOf hnames hrules with
      ⟨hwrite, attributes, hattributes⟩ | ⟨hwrite, hfault⟩
    · refine .inr ⟨⟨rfl, hwrite⟩, ?_⟩
      rw [hattributes]
      exact (hu.setAttributes attributes).complete _ hcs
    · refine .inl ⟨fun h => hwrite h.2, u, ?_⟩
      rw [hfault]
      rfl

/-- **An element is made exactly if its children can be taken and all can be written.** It takes
the given children, or those of a `children` property, with lists and tuples of any depth opened
up. Making it succeeds if and only if every node among them is without a place and none comes
twice, and the token, the attributes and the scalars among the children have texts. Otherwise
the first child that is in the way is the reason: a node that had a place or comes a second time
is refused, and a scalar without a text is a wrong value, as are a token and an attribute without
one. A new element has the nodes as its children, in order, and as its text what the policy makes
of the scalars; it is remarked on exactly where it has both. -/
theorem node_takes_children (author : Author) (seat : Seat) (type : Value) (tag : String)
    (props : Value) (ps : Pairs) (children : List Value) (w : Workshop)
    (htype : type.words? = some tag) (hprops : props.offered? = some ps) (hnames : ps.AreNamed)
    (hrules : ∀ e ∈ ps, ∀ rules, e.2.pairs? = some rules → rules.AreNamed)
    (hcs : ∀ c ∈ effectiveChildren ps children, ∀ id, c.nodeId? = some id →
      w.forest.StandsBelow w.forest.elements.size id) :
    let cs := effectiveChildren ps children
    let run := node author seat type props children
    let written := (w.builder seat).canMint = true ∧ ∀ e ∈ ps, CanWrite e
    ((∃ x v, run w = .ok x v) ↔ written ∧ w.forest.CanTake (cs.filterMap Value.nodeId?) ∧
      ∀ c ∈ cs, c.isWording = true → c.hasText = true) ∧
    (∀ fault v, run w = .error fault v →
      (¬ written ∧ fault = .wrongValue) ∨
      written ∧ ∃ before c after, cs = before ++ c :: after ∧ w.forest.CanTakeAll before ∧
        ((∃ id, c.nodeId? = some id ∧
            ¬ w.forest.CanTake (before.filterMap Value.nodeId? ++ [id]) ∧
            v.forest.Refuses id fault ∧ fault.report?.map Report.family = some .tree) ∨
          c.isWording = true ∧ c.hasText = false ∧ fault = .wrongValue)) ∧
    ∀ x v, run w = .ok x v →
      x = .node (v.forest.handle (.element w.forest.elements.size)) ∧ Made seat tag w cs v := by
  intro cs run written
  have hrun : run w = element seat tag props children w := by
    cases type with
    | scalar s =>
      cases s <;> cases htype
      rfl
    | brokenText pieces => cases htype; rfl
    | _ => cases htype
  rw [hrun]
  rcases element_outcome seat tag props ps children w hprops hnames hrules hcs with
    ⟨hwrite, u, hfault⟩ | ⟨hwrite, ⟨hcan, u, hok, hmade⟩ |
      ⟨before, c, after, fault, u, hsplit, hbefore, hfault, hhinders⟩⟩
  · rw [hfault]
    refine ⟨⟨?_, fun h => absurd h.1 hwrite⟩, ?_, ?_⟩
    · rintro ⟨x, v, h⟩
      cases h
    · intro fault v h
      cases h
      exact .inl ⟨hwrite, rfl⟩
    · intro x v h
      cases h
  · rw [hok]
    refine ⟨⟨fun _ => ⟨hwrite, hcan⟩, fun _ => ⟨_, _, rfl⟩⟩, ?_, ?_⟩
    · intro fault v h
      cases h
    · intro x v h
      cases h
      exact ⟨rfl, hmade⟩
  · rw [hfault]
    refine ⟨⟨?_, fun h => ?_⟩, ?_, ?_⟩
    · rintro ⟨x, v, h⟩
      cases h
    · have hcan : w.forest.CanTakeAll (before ++ c :: after) := hsplit ▸ h.2
      exact absurd hcan hhinders.not_canTakeAll
    · intro fault' v h
      cases h
      refine .inr ⟨hwrite, before, c, after, hsplit, hbefore, hhinders.imp_left ?_⟩
      rintro ⟨id, hid, hplaced, hrefuses⟩
      exact ⟨id, hid, hplaced, hrefuses, hrefuses.family⟩
    · intro x v h
      cases h

/-- An element and a component are taken out of a list, together with a text, half of a surrogate
pair and a number; a node that comes a second time, within a tuple, is refused. -/
theorem node_takes_children_opened :
    let author : Author := ⟨fun _ _ => pure .none, fun _ => [], fun _ => []⟩
    let w := Workshop.makeAll [.element "p" "t1", .element "b" "t2",
      .component (.element 1) "B" []] { fallback := { policy := .concat } }
    let leaf : Value := .node ⟨.element 0, ""⟩
    let badge : Value := .node ⟨.component 0, ""⟩
    let props : Value := .table [("style", .table [("width", .int 4)]),
      ("children", .list [leaf, .tuple [.text "a", badge], .bool true,
        .brokenText [.half 0xD83D], .int 3])]
    (∃ x v, node author .fallback (.text "div") props [] w = .ok x v ∧
      v.forest.children 2 = [.element 0, .component 0] ∧
      v.forest.elements[2]?.bind ElementCell.pieces? =
        some [.char 'a', .half 0xD83D, .char '3']) ∧
    ∃ fault v, node author .fallback (.text "div") .none [leaf, .tuple [leaf]] w = .error fault v ∧
      v.forest.Refuses (.element 0) fault := by
  intro author w leaf badge props
  have hstands : ∀ id ∈ [NodeId.element 0, .component 0],
      w.forest.StandsBelow w.forest.elements.size id := by
    intro id hid
    simp only [List.mem_cons, List.not_mem_nil, or_false] at hid
    rcases hid with rfl | rfl
    · exact (by decide +kernel : 0 < w.forest.elements.size)
    · exact .inr ⟨1, by decide +kernel, by decide +kernel⟩
  have hmints : (w.builder .fallback).canMint = true := by decide +kernel
  constructor
  · have htakes := node_takes_children author .fallback (.text "div") "div" props _ [] w rfl rfl
      (Pairs.areNamed_ofEntries _)
      (by
        intro e he rules hrules
        simp only [Pairs.ofEntries, List.map_cons, List.map_nil, List.mem_cons, List.not_mem_nil,
          or_false] at he
        rcases he with rfl | rfl <;> cases hrules
        exact Pairs.areNamed_ofEntries _)
      (fun c hc id hid => hstands id (List.mem_filterMap.mpr ⟨c, hc, hid⟩))
    have hcan : w.forest.CanTake [.element 0, .component 0] := by decide +kernel
    have hwrite : ∀ e ∈ Pairs.ofEntries [("style", Value.table [("width", .int 4)]),
        ("children", .list [leaf, .tuple [.text "a", badge], .bool true,
          .brokenText [.half 0xD83D], .int 3])], CanWrite e := by
      intro e he name hname honClick hchildren
      simp only [Pairs.ofEntries, List.map_cons, List.map_nil, List.mem_cons, List.not_mem_nil,
        or_false] at he
      rcases he with rfl | rfl
      · refine ⟨fun hatom => absurd hatom (by decide), fun _ rules hrules => ?_⟩
        cases hrules
        simp only [Pairs.ofEntries, List.map_cons, List.map_nil, List.mem_singleton, forall_eq]
        decide +kernel
      · cases hname
        exact absurd rfl hchildren
    obtain ⟨x, v, hrun⟩ := htakes.1.mpr ⟨⟨hmints, hwrite⟩, hcan, by decide +kernel⟩
    obtain ⟨_, c, hc, _, hchildren, htext, _⟩ := htakes.2.2 x v hrun
    have hsize : w.forest.elements.size = 2 := by decide +kernel
    rw [hsize] at hc
    refine ⟨x, v, hrun, ?_, ?_⟩
    · simp only [Forest.children, hc, Option.map_some, Option.getD_some]
      exact hchildren
    · rw [hc]
      exact htext.1
  · have htakes := node_takes_children author .fallback (.text "div") "div" .none []
      [leaf, .tuple [leaf]] w rfl rfl (by simp [Pairs.AreNamed]) (by simp)
      (fun c hc id hid => hstands id (by
        have hid : id ∈ [NodeId.element 0, .element 0] := List.mem_filterMap.mpr ⟨c, hc, hid⟩
        simp_all))
    cases hrun : node author .fallback (.text "div") .none [leaf, .tuple [leaf]] w with
    | ok x v =>
      have hcan : w.forest.CanTake [.element 0, .element 0] := (htakes.1.mp ⟨x, v, hrun⟩).2.1
      exact absurd hcan.2 (by decide)
    | error fault v =>
      rcases htakes.2.1 fault v hrun with ⟨hwrite, _⟩ | ⟨_, before, c, after, hsplit, _, hhinders⟩
      · exact absurd ⟨hmints, by simp⟩ hwrite
      · have hcs : [leaf, leaf] = before ++ c :: after := hsplit
        have hc : c ∈ [leaf, leaf] := by simp [hcs]
        simp only [List.mem_cons, List.not_mem_nil, or_false, or_self] at hc
        rw [hc] at hhinders
        rcases hhinders with ⟨id, hid, _, hrefuses, _⟩ | ⟨hwording, _⟩
        · cases hid
          exact ⟨fault, v, rfl, hrefuses⟩
        · cases hwording

/-- A child, an attribute or a token that is too long to be written: the element is not made,
though no node is in the way. -/
theorem node_without_text :
    let author : Author := ⟨fun _ _ => pure .none, fun _ => [], fun _ => []⟩
    let long : Value := .int Value.longInteger
    let worn : Workshop :=
      { fallback := { counter := .fresh Counter.standardLead (Value.longInteger - 1) } }
    (∃ v, node author .fallback (.text "p") .none [long] {} = .error .wrongValue v) ∧
    (∃ v, node author .fallback (.text "p") (.table [("id", long)]) [] {} =
      .error .wrongValue v) ∧
    ∃ v, node author .fallback (.text "p") .none [.text "x"] worn = .error .wrongValue v := by
  intro author long worn
  have hlong : long.hasText = false := by decide +kernel
  have hworn : (worn.builder .fallback).canMint = false := by decide +kernel
  have hchild (n : Int) (hn : (Value.int n).hasText = false) :
      ∃ v, element .fallback "p" .none [.int n] {} = .error .wrongValue v := by
    rcases element_outcome .fallback "p" .none [] [.int n] {} rfl (by simp [Pairs.AreNamed])
      (by simp) (fun c hc id hid => by
        cases List.mem_singleton.mp hc
        cases hid) with
      ⟨_, hfault⟩ | ⟨_, ⟨hcan, _⟩ | ⟨before, c, after, fault, v, hsplit, _, hfault, hhinders⟩⟩
    · exact hfault
    · rw [hcan.2 (.int n) (List.mem_singleton_self _) rfl] at hn
      cases hn
    · have hc : c ∈ [Value.int n] := by
        rw [show [Value.int n] = before ++ c :: after from hsplit]
        simp
      cases List.mem_singleton.mp hc
      rcases hhinders with ⟨id, hid, _⟩ | ⟨_, _, rfl⟩
      · cases hid
      · exact ⟨v, hfault⟩
  have hattribute (n : Int) (hn : (Value.int n).hasText = false) :
      ∃ v, element .fallback "p" (.table [("id", .int n)]) [] {} = .error .wrongValue v := by
    rcases element_outcome .fallback "p" (.table [("id", .int n)]) _ [] {} rfl
      (Pairs.areNamed_ofEntries _) (fun e he rules hrules => by
        cases List.mem_singleton.mp he
        cases hrules) (fun c hc => by cases hc) with ⟨_, hfault⟩ | ⟨⟨_, hwrite⟩, _⟩
    · exact hfault
    · rw [(hwrite _ (List.mem_singleton_self _) "id" rfl (by decide) (by decide)).1 rfl] at hn
      cases hn
  exact ⟨hchild _ hlong, hattribute _ hlong, _, bind_of_error (mint_of_not_canMint hworn "p")⟩

end Build

end Pageloom
