import Pageloom.Markup
import Pageloom.Proofs.Entries
import Pageloom.Proofs.Trees

/-!
# Markup tells trees apart

Markup puts text and attribute values between marks of its own, and nothing that stands in them
can be taken for a mark. A value is closed by the first quote after it, since quotes in it are
escaped; brackets may stand in it as they are. A text ends at the first bracket. A line break
before a bracket is layout if a tag is opened or closed there, and a text that is only
a line break is followed by the closing tag of its own element. So whatever follows the markup of
a tree, the tree can be read off, and where its markup ends as well.

What is read off is what is written: tags, attributes with the merged class and the click
handler, and text where nothing stands below it. Boundaries of components are not written, and
no text is written like an empty one.

## Main definitions

* `Pageloom.IsPlainName` -- names that may stand in a tag
* `Pageloom.Written` -- what markup says of a tree
* `Pageloom.Text.escapeText_eq_replaceAll` -- escaping is replacing
* `Pageloom.Node.markup_append_inj` -- a tree and its end can be read off
* `Pageloom.Node.markup_eq_iff_written_eq` -- trees with the same markup
-/

namespace Pageloom

/-! ## What is written -/

/-- A name that may stand in a tag: it is not empty, and free of blanks, quotes, equals signs,
angle brackets and slashes. -/
def IsPlainName (name : String) : Prop :=
  name ≠ "" ∧ ∀ c ∈ name.toList, c.isWhitespace = false ∧ c ∉ "\"'=<>/".toList

-- By the characters of the name, not by all that there are.
instance (name : String) : Decidable (IsPlainName name) :=
  @instDecidableAnd _ _ inferInstance (List.decidableBAll _ name.toList)

/-- An element whose tag and attribute names are plain. -/
def Element.HasPlainNames (e : Element) : Prop :=
  IsPlainName e.tag ∧ ∀ name ∈ e.attributes.keys, IsPlainName name

instance (e : Element) : Decidable e.HasPlainNames :=
  inferInstanceAs (Decidable (_ ∧ ∀ name ∈ e.attributes.keys, _))

/-- A tree whose tags and attribute names are plain. -/
def Node.HasPlainNames (n : Node) : Prop := ∀ m ∈ n.preorder, m.element.HasPlainNames

instance (n : Node) : Decidable n.HasPlainNames :=
  inferInstanceAs (Decidable (∀ m ∈ n.preorder, _))

/-- What markup says of a tree: the tag, the attributes in order, the text and the children. -/
inductive Written
  | mk (tag : String) (attributes : Entries String) (text : String) (children : List Written)

namespace Node

mutual

/-- What the markup of a tree says. A component is its root, and text counts where there are no
children. -/
def written : Node → Written
  | mk _ e cs =>
    .mk e.tag e.markupAttributes (if cs.isEmpty then e.text.getD "" else "") (writtenAll cs)

/-- What the markup of trees says, one by one. -/
def writtenAll : List Node → List Written
  | [] => []
  | c :: cs => written c :: writtenAll cs

end

end Node

/-! ## Text up to a mark -/

namespace Text

variable {x y r s : List Char} {a b : Char}

/-- Two texts without marks, each followed by a mark, are the same if what they begin is. -/
theorem append_mark_inj {p : Char → Prop} (hx : ∀ c ∈ x, p c) (hy : ∀ c ∈ y, p c) (ha : ¬ p a)
    (hb : ¬ p b) (h : x ++ a :: r = y ++ b :: s) : x = y ∧ a = b ∧ r = s := by
  induction x generalizing y with
  | nil =>
    cases y with
    | nil => exact ⟨rfl, List.cons.inj h⟩
    | cons d y =>
      obtain ⟨rfl, _⟩ := List.cons.inj h
      exact absurd (hy _ List.mem_cons_self) ha
  | cons c x ih =>
    rw [List.forall_mem_cons] at hx
    cases y with
    | nil =>
      obtain ⟨rfl, _⟩ := List.cons.inj h
      exact absurd hx.1 hb
    | cons d y =>
      rw [List.forall_mem_cons] at hy
      obtain ⟨rfl, htail⟩ := List.cons.inj h
      obtain ⟨rfl, hrest⟩ := ih hx.2 hy.2 htail
      exact ⟨rfl, hrest⟩

/-- An escape of single characters none of which begins another one can be undone. -/
theorem flatMap_inj {escape : Char → List Char} (hne : ∀ c, escape c ≠ [])
    (hescape : ∀ c d r s, escape c ++ r = escape d ++ s → c = d ∧ r = s)
    (h : x.flatMap escape = y.flatMap escape) : x = y := by
  induction x generalizing y with
  | nil =>
    cases y with
    | nil => rfl
    | cons d y =>
      rw [List.flatMap_cons, List.flatMap_nil, eq_comm, List.append_eq_nil_iff] at h
      exact absurd h.1 (hne d)
  | cons c x ih =>
    cases y with
    | nil =>
      rw [List.flatMap_cons, List.flatMap_nil, List.append_eq_nil_iff] at h
      exact absurd h.1 (hne c)
    | cons d y =>
      rw [List.flatMap_cons, List.flatMap_cons] at h
      obtain ⟨rfl, hrest⟩ := hescape c d _ _ h
      rw [ih hrest]

/-- Replacing one character replaces it wherever it stands. -/
theorem replaceFrom_singleton (c : Char) (new cs : List Char) :
    replaceFrom [c] new 0 cs = cs.flatMap fun d => if d = c then new else [d] := by
  induction cs with
  | nil => rfl
  | cons d cs ih =>
    rw [replaceFrom, List.flatMap_cons]
    by_cases hd : d = c
    · simp [dropLead?, hd, ih]
    · simp [dropLead?, hd, Ne.symm hd, ih]

/-- **Escaping a text is replacing its marks one after the other.** The ampersand comes first, so
that those of the other replacements stay. -/
theorem escapeText_eq_replaceAll (s : String) :
    escapeText s = replaceAll (replaceAll (replaceAll (replaceAll s "&" "&amp;") "<" "&lt;")
      ">" "&gt;") "\"" "&quot;" := by
  refine congrArg String.ofList ?_
  simp only [replaceAll, String.toList_ofList]
  change _ = replaceFrom ['"'] _ 0 (replaceFrom ['>'] _ 0
    (replaceFrom ['<'] _ 0 (replaceFrom ['&'] _ 0 s.toList)))
  simp only [replaceFrom_singleton, List.flatMap_assoc]
  refine List.flatMap_congr fun c _ => ?_
  fun_cases escapeTextChar c with
  | case5 _ hamp hless hgreater hquote =>
    simp [if_neg hamp, if_neg hless, if_neg hgreater, if_neg hquote]
  | _ => decide

/-- Escaping a value is replacing its marks one after the other. -/
theorem escapeAttribute_eq_replaceAll (s : String) :
    escapeAttribute s = replaceAll (replaceAll s "&" "&amp;") "\"" "&quot;" := by
  refine congrArg String.ofList ?_
  simp only [replaceAll, String.toList_ofList]
  change _ = replaceFrom ['"'] _ 0 (replaceFrom ['&'] _ 0 s.toList)
  simp only [replaceFrom_singleton, List.flatMap_assoc]
  refine List.flatMap_congr fun c _ => ?_
  fun_cases escapeAttributeChar c with
  | case3 _ hamp hquote => simp [if_neg hamp, if_neg hquote]
  | _ => decide

theorem escapeAttributeChar_append_inj (c d : Char) (r s : List Char)
    (h : escapeAttributeChar c ++ r = escapeAttributeChar d ++ s) : c = d ∧ r = s := by
  unfold escapeAttributeChar at h
  split at h <;> split at h <;>
    simp only [List.cons_append, List.nil_append, List.cons.injEq] at h <;> grind

theorem escapeTextChar_append_inj (c d : Char) (r s : List Char)
    (h : escapeTextChar c ++ r = escapeTextChar d ++ s) : c = d ∧ r = s := by
  unfold escapeTextChar at h
  split at h <;> split at h <;>
    simp only [List.cons_append, List.nil_append, List.cons.injEq] at h <;> grind

theorem escapeAttribute_inj {v w : String} (h : escapeAttribute v = escapeAttribute w) : v = w := by
  refine String.toList_inj.mp (flatMap_inj ?_ escapeAttributeChar_append_inj ?_)
  · intro c
    unfold escapeAttributeChar
    split <;> simp
  · simpa [escapeAttribute] using congrArg String.toList h

theorem escapeText_inj {v w : String} (h : escapeText v = escapeText w) : v = w := by
  refine String.toList_inj.mp (flatMap_inj ?_ escapeTextChar_append_inj ?_)
  · intro c
    unfold escapeTextChar
    split <;> simp
  · simpa [escapeText] using congrArg String.toList h

theorem ne_quote_of_mem_escapeAttribute {v : String} {c : Char}
    (h : c ∈ (escapeAttribute v).toList) : c ≠ '"' := by
  simp only [escapeAttribute, String.toList_ofList, List.mem_flatMap] at h
  obtain ⟨d, _, h⟩ := h
  unfold escapeAttributeChar at h
  split at h <;> grind

theorem ne_bracket_of_mem_escapeText {v : String} {c : Char}
    (h : c ∈ (escapeText v).toList) : c ≠ '<' := by
  simp only [escapeText, String.toList_ofList, List.mem_flatMap] at h
  obtain ⟨d, _, h⟩ := h
  unfold escapeTextChar at h
  split at h <;> grind

end Text

/-! ## Tags -/

theorem IsPlainName.ne_of_mem {name : String} (h : IsPlainName name) {c d : Char}
    (hc : c ∈ name.toList) (hd : d.isWhitespace = true ∨ d ∈ "\"'=<>/".toList) : c ≠ d := by
  rintro rfl
  rcases hd with hblank | hmark
  · exact absurd (h.2 c hc).1 (by simp [hblank])
  · exact (h.2 c hc).2 hmark

theorem Element.HasPlainNames.markupAttributes {e : Element} (h : e.HasPlainNames) :
    ∀ name ∈ e.markupAttributes.keys, IsPlainName name := by
  have hset : ∀ {es : Entries String} {key : String} (value : String), IsPlainName key →
      (∀ name ∈ es.keys, IsPlainName name) →
        ∀ name ∈ (es.set key value).keys, IsPlainName name := by
    intro es key value hkey hes name hname
    rw [Entries.keys_set] at hname
    split at hname
    · exact hes name hname
    · rcases List.mem_append.mp hname with hold | hnew
      · exact hes name hold
      · exact List.mem_singleton.mp hnew ▸ hkey
  have hclass := hset e.classValue (show IsPlainName "class" by decide) h.2
  unfold Element.markupAttributes
  cases e.onClick with
  | none => exact hclass
  | some handler => exact hset _ (by decide) hclass

section

variable {as bs : Entries String} {r s : List Char} {tag tag' : String}

theorem attributesText_cons (name value : String) (as : Entries String) :
    (attributesText ((name, value) :: as)).toList =
      ' ' :: (name.toList ++ '=' :: '"' :: ((Text.escapeAttribute value).toList ++
        '"' :: (attributesText as).toList)) := by
  simp [attributesText]

/-- Attributes, and where they end, can be read off an opening tag. -/
theorem attributesText_append_inj (has : ∀ name ∈ as.keys, IsPlainName name)
    (hbs : ∀ name ∈ bs.keys, IsPlainName name)
    (h : (attributesText as).toList ++ '>' :: r = (attributesText bs).toList ++ '>' :: s) :
    as = bs ∧ r = s := by
  induction as generalizing bs with
  | nil =>
    cases bs with
    | nil => exact ⟨rfl, (List.cons.inj h).2⟩
    | cons b bs =>
      rw [attributesText_cons] at h
      exact absurd (List.cons.inj h).1 (by decide)
  | cons a as ih =>
    cases bs with
    | nil =>
      rw [attributesText_cons] at h
      exact absurd (List.cons.inj h).1 (by decide)
    | cons b bs =>
      rw [Entries.keys_cons, List.forall_mem_cons] at has hbs
      rw [attributesText_cons, attributesText_cons] at h
      simp only [List.cons_append, List.append_assoc] at h
      -- The name ends at the first equals sign, and the value at the first quote.
      obtain ⟨hname, _, hvalue⟩ := Text.append_mark_inj (p := (· ≠ '='))
        (fun c hc => has.1.ne_of_mem hc (by decide)) (fun c hc => hbs.1.ne_of_mem hc (by decide))
        (by decide) (by decide) (List.cons.inj h).2
      obtain ⟨hescaped, _, hrest⟩ := Text.append_mark_inj (p := (· ≠ '"'))
        (fun c hc => Text.ne_quote_of_mem_escapeAttribute hc)
        (fun c hc => Text.ne_quote_of_mem_escapeAttribute hc) (by decide) (by decide)
        (List.cons.inj hvalue).2
      obtain ⟨rfl, rfl⟩ := ih has.2 hbs.2 hrest
      have hsame : a = b := Prod.ext (String.toList_inj.mp hname)
        (Text.escapeAttribute_inj (String.toList_inj.mp hescaped))
      exact ⟨by rw [hsame], rfl⟩

/-- A tag with its attributes, and where they end, can be read off. -/
theorem openTag_append_inj (htag : IsPlainName tag) (htag' : IsPlainName tag')
    (has : ∀ name ∈ as.keys, IsPlainName name) (hbs : ∀ name ∈ bs.keys, IsPlainName name)
    (h : (openTag tag as).toList ++ r = (openTag tag' bs).toList ++ s) :
    tag = tag' ∧ as = bs ∧ r = s := by
  have hhead : ∀ (es : Entries String) (t : List Char), ∃ c u,
      (attributesText es).toList ++ '>' :: t = c :: u ∧ ¬ (c ≠ ' ' ∧ c ≠ '>') := by
    intro es t
    cases es with
    | nil => exact ⟨'>', t, rfl, by decide⟩
    | cons e es => exact ⟨' ', _, by rw [attributesText_cons]; rfl, by decide⟩
  have hplain : ∀ {name : String}, IsPlainName name → ∀ c ∈ name.toList, c ≠ ' ' ∧ c ≠ '>' :=
    fun hname c hc => ⟨hname.ne_of_mem hc (by decide), hname.ne_of_mem hc (by decide)⟩
  have hopen : tag.toList ++ ((attributesText as).toList ++ '>' :: r) =
      tag'.toList ++ ((attributesText bs).toList ++ '>' :: s) := by
    simpa [openTag] using h
  obtain ⟨c, u, hc, hmark⟩ := hhead as r
  obtain ⟨d, v, hd, hmark'⟩ := hhead bs s
  rw [hc, hd] at hopen
  obtain ⟨hname, hcd, huv⟩ :=
    Text.append_mark_inj (hplain htag) (hplain htag') hmark hmark' hopen
  refine ⟨String.toList_inj.mp hname, attributesText_append_inj has hbs ?_⟩
  rw [hc, hd, hcd, huv]

end

/-! ## Trees -/

namespace Node

theorem HasPlainNames.child {b : Option Boundary} {e : Element} {cs : List Node}
    (h : (mk b e cs).HasPlainNames) : ∀ c ∈ cs, c.HasPlainNames := fun _ hc m hm =>
  h m ((preorder_sublist (mem_preorder_child (n := mk b e cs) hc)).subset hm)

theorem HasPlainNames.element {n : Node} (h : n.HasPlainNames) : n.element.HasPlainNames :=
  h n (mem_preorder_self n)

/-- Children as they stand in the markup, each after a line break. -/
def lines (cs : List Node) : List Char := cs.flatMap fun c => '\n' :: c.markup.toList

theorem lines_cons (c : Node) (cs : List Node) :
    lines (c :: cs) = '\n' :: (c.markup.toList ++ lines cs) := by simp [lines]

theorem intercalate_markups (c : Node) (cs : List Node) :
    '\n' :: ['\n'].intercalate ((markups (c :: cs)).map String.toList) = lines (c :: cs) := by
  induction cs generalizing c with
  | nil => simp [markups, lines]
  | cons d cs ih =>
    rw [lines_cons, ← ih d]
    simp [markups, List.intercalate_cons_cons]

/-- What stands between the tags of an element. -/
def inner (e : Element) (cs : List Node) : List Char :=
  match cs with
  | [] => (Text.escapeText (e.text.getD "")).toList
  | c :: cs => lines (c :: cs) ++ ['\n']

theorem toList_markup (b : Option Boundary) (e : Element) (cs : List Node) :
    (mk b e cs).markup.toList =
      (openTag e.tag e.markupAttributes).toList ++ inner e cs ++ (closeTag e.tag).toList := by
  cases cs with
  | nil =>
    cases htext : e.text <;> simp [markup, markups, elementText, inner, htext, Text.escapeText]
  | cons c cs =>
    rw [inner, ← intercalate_markups]
    simp [markup, markups, elementText, Text.join, String.toList_intercalate]

/-- The markup of a tree begins with an opening tag. -/
theorem exists_markup_append {n : Node} (hn : n.HasPlainNames) (r : List Char) :
    ∃ c u, n.markup.toList ++ r = '<' :: c :: u ∧ c ≠ '/' := by
  obtain ⟨b, e, cs⟩ := n
  have htag : IsPlainName e.tag := hn.element.1
  cases hchars : e.tag.toList with
  | nil => exact absurd (String.toList_eq_nil_iff.mp hchars) htag.1
  | cons c u =>
    refine ⟨c, u ++ ((attributesText e.markupAttributes).toList ++
      '>' :: (inner e cs ++ ((closeTag e.tag).toList ++ r))), ?_, ?_⟩
    · simp [toList_markup, openTag, hchars]
    · exact htag.ne_of_mem (by simp [hchars]) (by decide)

theorem toList_closeTag_append (tag : String) (r : List Char) :
    (closeTag tag).toList ++ r = '<' :: '/' :: (tag.toList ++ '>' :: r) := by
  simp [closeTag]

/-- No child begins where the closing tag of its parent stands. -/
theorem close_ne_markup {c : Node} (hc : c.HasPlainNames) {x r : List Char} :
    '<' :: '/' :: x ≠ c.markup.toList ++ r := by
  obtain ⟨d, u, hmarkup, hd⟩ := exists_markup_append hc r
  rw [hmarkup]
  intro h
  exact hd (List.cons.inj (List.cons.inj h).2).1.symm

/-- A text is not taken for children: it has no bracket, so that a closing tag follows it. -/
theorem text_ne_lines {t : String} {c : Node} (hc : c.HasPlainNames) {cs : List Node}
    {x r : List Char} :
    (Text.escapeText t).toList ++ '<' :: '/' :: x ≠ lines (c :: cs) ++ r := by
  intro h
  obtain ⟨d, u, hmarkup, hd⟩ := exists_markup_append hc (lines cs ++ r)
  rw [lines_cons, List.cons_append, List.append_assoc, hmarkup] at h
  obtain ⟨_, _, hclose⟩ := Text.append_mark_inj (y := ['\n']) (p := (· ≠ '<'))
    (fun c hc => Text.ne_bracket_of_mem_escapeText hc) (by simp) (by decide) (by decide) h
  exact hd (List.cons.inj hclose).1.symm

/-- What stands between the tags can be read off, and where it ends as well, if this holds of
the children. -/
theorem inner_append_inj {e f : Element} {cs ds : List Node} {x y : List Char}
    (hcs : ∀ c ∈ cs, c.HasPlainNames) (hds : ∀ d ∈ ds, d.HasPlainNames)
    (hlines : lines cs ++ '\n' :: '<' :: '/' :: x = lines ds ++ '\n' :: '<' :: '/' :: y →
      writtenAll cs = writtenAll ds ∧ x = y)
    (h : inner e cs ++ '<' :: '/' :: x = inner f ds ++ '<' :: '/' :: y) :
    (if cs.isEmpty then e.text.getD "" else "") = (if ds.isEmpty then f.text.getD "" else "") ∧
      writtenAll cs = writtenAll ds ∧ x = y := by
  cases cs with
  | nil =>
    cases ds with
    | nil =>
      obtain ⟨htext, _, hclose⟩ := Text.append_mark_inj (p := (· ≠ '<'))
        (fun c hc => Text.ne_bracket_of_mem_escapeText hc)
        (fun c hc => Text.ne_bracket_of_mem_escapeText hc) (by decide) (by decide) h
      exact ⟨Text.escapeText_inj (String.toList_inj.mp htext), rfl, (List.cons.inj hclose).2⟩
    | cons d ds =>
      simp only [inner, List.append_assoc] at h
      exact absurd h (text_ne_lines (hds d List.mem_cons_self))
  | cons c cs =>
    cases ds with
    | nil =>
      simp only [inner, List.append_assoc] at h
      exact absurd h.symm (text_ne_lines (hcs c List.mem_cons_self))
    | cons d ds =>
      simp only [inner, List.append_assoc, List.singleton_append] at h
      exact ⟨rfl, hlines h⟩

mutual

/-- **A tree can be read off its markup**, and where its markup ends as well. -/
theorem markup_append_inj : ∀ {a b : Node} {r s : List Char}, a.HasPlainNames → b.HasPlainNames →
    a.markup.toList ++ r = b.markup.toList ++ s → a.written = b.written ∧ r = s
  | mk ba e cs, mk bb f ds, r, s, ha, hb, h => by
    have htagged : e.HasPlainNames := ha.element
    have htagged' : f.HasPlainNames := hb.element
    simp only [toList_markup, List.append_assoc, toList_closeTag_append] at h
    obtain ⟨htag, hattributes, hinner⟩ := openTag_append_inj htagged.1 htagged'.1
      htagged.markupAttributes htagged'.markupAttributes h
    obtain ⟨htext, hchildren, hclose⟩ :=
      inner_append_inj ha.child hb.child (lines_append_inj ha.child hb.child) hinner
    rw [htag] at hclose
    refine ⟨?_, (List.cons.inj (List.append_cancel_left hclose)).2⟩
    rw [written, written, htag, hattributes, htext, hchildren]

/-- Children can be read off their lines, and where the closing tag of their parent stands. -/
theorem lines_append_inj : ∀ {cs ds : List Node} {x y : List Char},
    (∀ c ∈ cs, c.HasPlainNames) → (∀ d ∈ ds, d.HasPlainNames) →
    lines cs ++ '\n' :: '<' :: '/' :: x = lines ds ++ '\n' :: '<' :: '/' :: y →
    writtenAll cs = writtenAll ds ∧ x = y
  | [], [], _, _, _, _, h => by
    simp only [lines, List.flatMap_nil, List.nil_append, List.cons.injEq, true_and] at h
    exact ⟨rfl, h⟩
  | [], d :: ds, _, _, _, hds, h => by
    rw [lines_cons, List.cons_append, List.append_assoc] at h
    exact absurd (List.cons.inj h).2 (close_ne_markup (hds d List.mem_cons_self))
  | c :: cs, [], _, _, hcs, _, h => by
    rw [lines_cons, List.cons_append, List.append_assoc] at h
    exact absurd (List.cons.inj h).2.symm (close_ne_markup (hcs c List.mem_cons_self))
  | c :: cs, d :: ds, _, _, hcs, hds, h => by
    rw [List.forall_mem_cons] at hcs hds
    rw [lines_cons, lines_cons, List.cons_append, List.cons_append, List.append_assoc,
      List.append_assoc] at h
    obtain ⟨hfirst, hrest⟩ := markup_append_inj hcs.1 hds.1 (List.cons.inj h).2
    obtain ⟨hothers, hend⟩ := lines_append_inj hcs.2 hds.2 hrest
    exact ⟨by rw [writtenAll, writtenAll, hfirst, hothers], hend⟩

end

mutual

/-- Markup is made of what it says. -/
theorem markup_eq_of_written_eq : ∀ {a b : Node}, a.written = b.written → a.markup = b.markup
  | mk ba e cs, mk bb f ds, h => by
    rw [written, written, Written.mk.injEq] at h
    obtain ⟨htag, hattributes, htext, hchildren⟩ := h
    obtain ⟨hempty, hlines⟩ := lines_eq_of_writtenAll_eq hchildren
    refine String.toList_inj.mp ?_
    have hinner : inner e cs = inner f ds := by
      cases cs with
      | nil =>
        cases ds with
        | nil => exact congrArg (fun t => (Text.escapeText t).toList) htext
        | cons d ds => cases hempty
      | cons c cs =>
        cases ds with
        | nil => cases hempty
        | cons d ds => simp only [inner, hlines]
    rw [toList_markup, toList_markup, htag, hattributes, hinner]

theorem lines_eq_of_writtenAll_eq : ∀ {cs ds : List Node}, writtenAll cs = writtenAll ds →
    cs.isEmpty = ds.isEmpty ∧ lines cs = lines ds
  | [], [], _ => ⟨rfl, rfl⟩
  | [], d :: ds, h => by cases h
  | c :: cs, [], h => by cases h
  | c :: cs, d :: ds, h => by
    rw [writtenAll, writtenAll, List.cons.injEq] at h
    refine ⟨rfl, ?_⟩
    rw [lines_cons, lines_cons, markup_eq_of_written_eq h.1, (lines_eq_of_writtenAll_eq h.2).2]

end

/-- **Markup tells trees apart.** Trees with plain names have the same markup exactly if they
have the same shape, the same tags, the same attributes in the same order, with the merged class
and the click handler, and the same text where nothing stands below it; no text is like an empty
one. Texts, values of attributes and handlers may be anything. -/
theorem markup_eq_iff_written_eq {a b : Node} (ha : a.HasPlainNames) (hb : b.HasPlainNames) :
    a.markup = b.markup ↔ a.written = b.written := by
  refine ⟨fun h => ?_, markup_eq_of_written_eq⟩
  exact (markup_append_inj (r := []) (s := []) ha hb (by rw [h])).1

/-- A text that looks like a child with a forged attribute is not taken for one. -/
theorem markup_ne_of_forged_text :
    let card (text : Option String) (children : List Node) : Node :=
      .mk none ⟨"div", "t1", [("title", "a\"><b x=\"")], text, some (.call "go" [])⟩ children
    let child : Node := .mk (some { key := "B" }) { tag := "b", token := "t2" } []
    (card (some "\n<b class=\"t2\"></b>\n") []).markup ≠ (card none [child]).markup ∧
      (card none []).markup = (card (some "") []).markup := by
  intro card child
  constructor
  · rw [ne_eq, markup_eq_iff_written_eq (by decide) (by decide)]
    simp [card, child, written, writtenAll]
  · rw [markup_eq_iff_written_eq (by decide) (by decide)]
    rfl

end Node

end Pageloom
