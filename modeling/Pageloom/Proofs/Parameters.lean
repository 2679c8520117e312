import Pageloom.Proofs.Calling
import Pageloom.Proofs.Giving
import Pageloom.Proofs.Rebuild

/-!
# Parameters of nested components

A builder gives a component the names that its tree refers to as its parameters. It finds them
on a walk over the whole tree, across nested components, whereas the steps of the factory stop
at a nested component and pass its parameters on. Both come to the same names in the same order
of first use, so a factory has a parameter for whatever its steps use. This is for trees that
the builder made itself: the parameters are read off the tree when the component is made, and
whatever the builder makes later leaves that tree as it is.

## Main definitions

* `Pageloom.Forest.Closed` -- forests whose components were named by their trees
* `Pageloom.Program.conduct_closed` -- evaluation keeps a forest so
* `Pageloom.Program.parameters_eq_names` -- parameters are the names that the steps use
-/

namespace Pageloom

namespace Node

theorem childBody_of_boundary {n : Node} {b : Boundary} (h : n.boundary = some b) :
    n.childBody = .call b.key b.parameters := by
  obtain ⟨_, e, cs⟩ := n
  cases h
  rfl

theorem childBody_of_none {n : Node} (h : n.boundary = none) : n.childBody = n.body := by
  obtain ⟨_, e, cs⟩ := n
  cases h
  rfl

end Node

/-! ## Reading a body again -/

namespace Forest

variable {f g : Forest} {cue : Cue}

theorem boundary_readWithin {enter : Nat → Except Fault (Boundary × Nat)}
    {check : ElementCell → Except Fault Unit} {depth i : Nat} {b : Option Boundary} {n : Node}
    (h : f.readWithin enter check depth b i = .ok n) : n.boundary = b := by
  cases depth with
  | zero => cases h
  | succ depth =>
    rw [readWithin] at h
    split at h
    · obtain ⟨_, _, h⟩ := except_bind_eq_ok.mp h
      obtain ⟨_, _, h⟩ := except_bind_eq_ok.mp h
      cases h
      rfl
    · cases h

theorem bodies_of_mapM {read : NodeId → Except Fault Node} {reread : NodeId → Except Fault Body}
    (h : ∀ id n, read id = .ok n → reread id = .ok n.childBody) : ∀ {ids : List NodeId}
      {ns : List Node}, ids.mapM read = .ok ns → ids.mapM reread = .ok (Node.bodies ns)
  | [], _, hread => by
    cases hread
    rfl
  | id :: ids, _, hread => by
    obtain ⟨n, ns, rfl, hfirst, hrest⟩ := mapM_cons_eq_ok hread
    rw [List.mapM_cons, h id n hfirst, bodies_of_mapM h hrest]
    rfl

theorem Extends.size_le (h : f.Extends g) : f.elements.size ≤ g.elements.size := by
  by_contra hlt
  obtain ⟨d, hd, _⟩ := h.elements (Array.getElem?_eq_getElem (i := g.elements.size) (by omega))
  simp at hd

/-- What was read of a tree is read again as a body in every later state, where the check passes. -/
theorem Extends.readBodyWithin {check check' : ElementCell → Except Fault Unit} (h : f.Extends g)
    (hcheck : ∀ (i : Nat) (c : ElementCell), g.elements[i]? = some c → check' c = .ok ()) :
    ∀ {depth depth' i : Nat} {b : Option Boundary} {n : Node},
      f.readWithin f.boundaryOf check depth b i = .ok n → depth ≤ depth' →
      g.readBodyWithin check' depth' i = .ok n.body
  | 0, _, _, _, _, hread, _ => by cases hread
  | depth + 1, 0, _, _, _, _, hle => by omega
  | depth + 1, depth' + 1, i, b, n, hread, hle => by
    rw [readWithin] at hread
    split at hread
    · next c hc =>
      obtain ⟨_, _, hread⟩ := except_bind_eq_ok.mp hread
      obtain ⟨ns, hchildren, hread⟩ := except_bind_eq_ok.mp hread
      cases hread
      obtain ⟨d, hd, helement, hsame⟩ := h.elements hc
      rw [Forest.readBodyWithin, hd]
      refine except_bind_eq_ok.mpr ⟨(), hcheck i d hd, ?_⟩
      refine except_bind_eq_ok.mpr ⟨Node.bodies ns, ?_, ?_⟩
      · rw [hsame]
        refine bodies_of_mapM (fun id n hn => ?_) hchildren
        cases id with
        | element j =>
          rw [Node.childBody_of_none (boundary_readWithin hn)]
          exact h.readBodyWithin hcheck hn (by omega)
        | component j =>
          dsimp only at hn
          split at hn
          · next b' r hj =>
            obtain ⟨_, k, b'', heq, hk, hkey, hparameters⟩ := rootOf_of_boundaryOf hj
            cases heq
            obtain ⟨l, hl, _, hkey', hparameters'⟩ := h.components hk
            rw [Node.childBody_of_boundary (boundary_readWithin hn)]
            simp only [hl, hkey', hparameters', hkey, hparameters]
          · cases hn
      · rw [helement]
        rfl
    · cases hread

end Forest

/-! ## Elements of texts -/

/-- Strays that are broken texts. -/
structure Strays.Plain (s : Strays) : Prop where
  attributes : ∀ a ∈ s.attributes, ∃ pieces, a.2 = .brokenText pieces
  text : ∀ v, s.text = some v → ∃ pieces, v = .brokenText pieces
  onClick : s.onClick = none

theorem Strays.plain_none : ({} : Strays).Plain := ⟨by simp, by simp, rfl⟩

theorem Value.ofPieces_cases (pieces : List Text.Piece) :
    (∃ s, Value.ofPieces pieces = .text s) ∨ Value.ofPieces pieces = .brokenText pieces := by
  unfold Value.ofPieces
  cases Text.whole? pieces with
  | some s => exact .inl ⟨s, rfl⟩
  | none => exact .inr rfl

namespace ElementCell

variable {c : ElementCell}

theorem checkAttribute_of_plain (h : c.strays.Plain) (others : List String) (name : String) :
    c.checkAttribute others name = .ok () := by
  unfold checkAttribute
  cases hstray : c.strays.attributes.get? name with
  | none => rfl
  | some v =>
    obtain ⟨pieces, rfl⟩ := h.attributes _ (Entries.mem_of_get? hstray)
    dsimp only
    split <;> rfl

theorem checkAttributes_of_plain (h : c.strays.Plain) (others : List String) :
    c.checkAttributes others = .ok () := by
  unfold checkAttributes
  induction c.element.attributes with
  | nil => rfl
  | cons a attributes ih =>
    exact except_bind_eq_ok.mpr ⟨_, checkAttribute_of_plain h others a.1, ih⟩

theorem checkSteps_of_plain (h : c.strays.Plain) : c.checkSteps = .ok () := by
  have htext : c.checkText = .ok () := by
    unfold checkText
    cases hstray : c.strays.text with
    | none => rfl
    | some v =>
      obtain ⟨pieces, rfl⟩ := h.text v hstray
      dsimp only
      split <;> rfl
  rw [checkSteps, checkNames, checkAttributes_of_plain h, htext, checkClick, h.onClick]
  rfl

theorem Write.plain {change : ElementCell → ElementCell} (h : Write change) (hc : c.strays.Plain) :
    (change c).strays.Plain := by
  rcases h with ⟨name, pieces⟩ | ⟨pieces⟩ | ⟨handler⟩
  · refine ⟨fun a ha => ?_, hc.text, hc.onClick⟩
    rcases Value.ofPieces_cases pieces with ⟨s, hs⟩ | hbroken
    · rw [hs] at ha
      exact hc.attributes a (List.mem_filter.mp ha).1
    · rw [hbroken] at ha
      rcases Entries.mem_set ha with hold | hnew
      · exact hc.attributes a hold
      · exact ⟨pieces, hnew⟩
  · refine ⟨hc.attributes, fun v hv => ?_, hc.onClick⟩
    rcases Value.ofPieces_cases pieces with ⟨s, hs⟩ | hbroken
    · rw [hs] at hv
      cases hv
    · rw [hbroken] at hv
      cases hv
      exact ⟨pieces, rfl⟩
  · exact ⟨hc.attributes, hc.text, rfl⟩

end ElementCell

namespace Forest

variable {f g : Forest} {cue : Cue}

/-- All that was written to the elements of a forest is of the right kind. -/
def Plain (f : Forest) : Prop :=
  ∀ (i : Nat) (c : ElementCell), f.elements[i]? = some c → c.strays.Plain

theorem Plain.modifyElement (h : f.Plain) (i : Nat) {change : ElementCell → ElementCell}
    (hchange : ∀ c, c.strays.Plain → (change c).strays.Plain) :
    (f.modifyElement i change).Plain := by
  intro j c hc
  rw [elements_modifyElement] at hc
  split at hc
  · obtain ⟨d, hd, rfl⟩ := Option.map_eq_some_iff.mp hc
    exact hchange d (h j d hd)
  · exact h j c hc

theorem Plain.addElement (h : f.Plain) (tag token : String) : (f.addElement tag token).1.Plain := by
  intro i c hc
  rw [Forest.addElement, Array.getElem?_push] at hc
  split at hc
  · cases hc
    exact Strays.plain_none
  · exact h i c hc

theorem Plain.addChild (h : f.Plain) {parent : Nat} {id : NodeId}
    (hadd : f.addChild parent id = .ok g) : g.Plain := by
  obtain ⟨_, _, _, rfl⟩ := addChild_eq_ok hadd
  cases id with
  | element j =>
    refine Plain.modifyElement (Plain.modifyElement h j ?_) parent ?_
    · exact fun _ hc => hc
    · exact fun _ hc => hc
  | component j =>
    refine Plain.modifyElement (f := f.modifyComponent j _) h parent ?_
    exact fun _ hc => hc

theorem Plain.addComponent (h : f.Plain) {root i : Nat} {key : String} {parameters : List String}
    (hadd : f.addComponent root key parameters = .ok (g, i)) : g.Plain := by
  obtain ⟨_, _, rfl⟩ := addComponent_eq_ok hadd
  exact Plain.modifyElement (f := { f with components := _ }) h root fun _ hc => hc

theorem size_addChild {parent : Nat} {id : NodeId} (hadd : f.addChild parent id = .ok g) :
    g.components.size = f.components.size := by
  obtain ⟨_, _, _, rfl⟩ := addChild_eq_ok hadd
  cases id with
  | element j => rfl
  | component j => exact Array.size_modify

/-! ## Closed forests -/

/-- Elements have texts where texts belong, and the parameters of every component were read off
the tree below it, in an earlier state of the forest. -/
structure Closed (cue : Cue) (f : Forest) : Prop where
  plain : f.Plain
  named : ∀ (j : Nat) (k : ComponentCell), f.components[j]? = some k →
    ∃ (earlier : Forest) (r : Nat) (n : Node), earlier.Extends f ∧ k.root = some r ∧
    earlier.readChecked earlier.boundaryOf ElementCell.checkNames (.element r) = .ok n ∧
    k.boundary.parameters = n.boundNames cue

theorem closed_empty (cue : Cue) : Forest.empty.Closed cue where
  plain i c hc := by simp [Forest.empty] at hc
  named j k hk := by simp [Forest.empty] at hk

theorem Closed.of_extends (h : f.Closed cue) (hfg : f.Extends g)
    (hsize : g.components.size = f.components.size) (hplain : g.Plain) : g.Closed cue where
  plain := hplain
  named j l hl := by
    have hj : j < f.components.size := hsize ▸ (Array.getElem?_eq_some_iff.mp hl).1
    obtain ⟨l', hl', hroot, _, hparameters⟩ := hfg.components (Array.getElem?_eq_getElem hj)
    cases Option.some.inj (hl.symm.trans hl')
    obtain ⟨earlier, r, n, hearlier, hr, hread, hnames⟩ :=
      h.named j _ (Array.getElem?_eq_getElem hj)
    exact ⟨earlier, r, n, hearlier.trans hfg, hroot.trans hr, hread, hparameters.trans hnames⟩

theorem Closed.addHooks (h : f.Closed cue) (i : Nat) (hooks : List Value) :
    (f.addHooks i hooks).Closed cue :=
  h.of_extends (extends_addHooks f i hooks) Array.size_modify h.plain

/-- A component that is made takes its parameters from the tree below it. -/
theorem Closed.addComponent (h : f.Closed cue) {root i : Nat} {key : String} {n : Node}
    (hread : f.readChecked f.boundaryOf ElementCell.checkNames (.element root) = .ok n)
    (hadd : f.addComponent root key (n.boundNames cue) = .ok (g, i)) : g.Closed cue where
  plain := h.plain.addComponent hadd
  named j l hl := by
    have hfg := (extends_addComponent hadd).1
    obtain ⟨_, _, rfl⟩ := addComponent_eq_ok hadd
    rw [modifyElement, Array.getElem?_push] at hl
    split at hl
    · cases hl
      exact ⟨f, root, n, hfg, rfl, hread, rfl⟩
    · obtain ⟨earlier, r, m, hearlier, hr, hread', hnames⟩ := h.named j l hl
      exact ⟨earlier, r, m, hearlier.trans hfg, hr, hread', hnames⟩

/-- The parameters of a component are the names that its factory uses, in order of first use. -/
theorem Closed.parameters_eq (h : f.Closed cue) {j : Nat} {k : ComponentCell}
    (hk : f.components[j]? = some k) : ∃ body, f.readBody (.component j) = .ok body ∧
      k.boundary.parameters = distinct (body.names cue) := by
  obtain ⟨earlier, r, n, hearlier, hr, hread, hnames⟩ := h.named j k hk
  -- The tree was read when the component was made, and stands as it was.
  refine ⟨n.body, ?_, ?_⟩
  · rw [readBody, readBodyChecked, rootOf, root_eq_ok.mpr ⟨k, hk, hr⟩]
    exact hearlier.readBodyWithin
      (fun i c hc => ElementCell.checkSteps_of_plain (h.plain i c hc)) hread hearlier.size_le
  · rw [hnames, Node.distinct_names_body]
    refine ((stands_of_readChecked hread).mono hearlier).parameters_eq fun i c _ j' k' _ hk' => ?_
    obtain ⟨earlier', r', n', hearlier', hr', hread', hnames'⟩ := h.named j' k' hk'
    exact ⟨k', r', n', hk', hr', (stands_of_readChecked hread').mono hearlier', hnames'⟩

end Forest

/-! ## Evaluation -/

/-- The cue of a sigil. Where no value can be a reference, none is looked at. -/
def Sigil.cue (s : Sigil) : Cue := s.cue?.getD (.ofText "")

theorem Sigil.forValues_eq_ok {s : Sigil} {values : List String} {cue : Cue}
    (h : s.forValues values = .ok cue) : cue = s.cue := by
  unfold forValues at h
  unfold Sigil.cue
  split at h
  · next hcue =>
    cases h
    rw [hcue]
    rfl
  · next hcue =>
    split at h
    · cases h
      rw [hcue]
      rfl
    · cases h

namespace Workshop

variable {w v u : Workshop} {cue : Cue}

/-- A workshop whose active builder has a cue, and whose forest is closed for it. -/
structure Sealed (cue : Cue) (w : Workshop) : Prop where
  sigil : (w.builder w.active).sigil.cue = cue
  forest : w.forest.Closed cue

/-- A workshop after work that makes no component. -/
structure Rises (w v : Workshop) : Prop where
  active : v.active = w.active
  sigil : ∀ seat, (v.builder seat).sigil = (w.builder seat).sigil
  later : w.forest.Extends v.forest
  size : v.forest.components.size = w.forest.components.size
  plain : w.forest.Plain → v.forest.Plain

theorem Rises.sealed (h : w.Rises v) (hw : w.Sealed cue) : v.Sealed cue where
  sigil := by rw [h.active, h.sigil, hw.sigil]
  forest := hw.forest.of_extends h.later h.size (h.plain hw.forest.plain)

theorem rises_of_forest (hactive : v.active = w.active)
    (hsigil : ∀ seat, (v.builder seat).sigil = (w.builder seat).sigil)
    (hforest : v.forest = w.forest) : w.Rises v where
  active := hactive
  sigil := hsigil
  later := hforest ▸ .refl _
  size := by rw [hforest]
  plain := by
    rw [hforest]
    exact id

theorem rises_addHooks (w : Workshop) (i : Nat) (hooks : List Value) :
    w.Rises { w with forest := w.forest.addHooks i hooks } where
  active := rfl
  sigil _ := rfl
  later := Forest.extends_addHooks _ _ _
  size := Array.size_modify
  plain := id

theorem rises_withWaiting (w : Workshop) (seat : Seat) (waiting : List (Nat × List Value)) :
    w.Rises (w.withWaiting seat waiting) :=
  rises_of_forest (by cases seat <;> rfl) (fun other => by cases other <;> cases seat <;> rfl)
    (forest_withWaiting w seat waiting)

theorem Rises.trans (h : w.Rises u) (h' : u.Rises v) : w.Rises v where
  active := h'.active.trans h.active
  sigil seat := (h'.sigil seat).trans (h.sigil seat)
  later := h.later.trans h'.later
  size := h'.size.trans h.size
  plain hw := h'.plain (h.plain hw)

theorem raising_rises (seat : Seat) (w : Workshop) : Build.Raising seat w w.Rises where
  spend _ := rises_of_forest (by cases seat <;> rfl)
    (fun other => by cases other <;> cases seat <;> rfl) (by cases seat <;> rfl)
  start tag token _ :=
    { active := by cases seat <;> rfl
      sigil := fun other => by cases other <;> cases seat <;> rfl
      later := Forest.extends_addElement _ _ _
      size := rfl
      plain := fun hw => hw.addElement tag token }
  write hu hchange :=
    { active := hu.active
      sigil := hu.sigil
      later := hu.later.modifyNew _
      size := hu.size
      plain := fun hw => (hu.plain hw).modifyElement _ fun _ hc => hchange.plain hc }
  child hu hadd :=
    { active := hu.active
      sigil := hu.sigil
      later := hu.later.addChildNew hadd
      size := (Forest.size_addChild hadd).trans hu.size
      plain := fun hw => (hu.plain hw).addChild hadd }
  remark _ hu := ⟨hu.active, hu.sigil, hu.later, hu.size, hu.plain⟩

end Workshop

namespace Program

/-- **Evaluation keeps the parameters of components in step with their trees.** -/
theorem conduct_closed (p : Program) (cue : Cue) :
    p.Conduct fun w v => v.active = w.active ∧ (w.Sealed cue → v.Sealed cue) where
  refl _ := ⟨rfl, id⟩
  trans h h' := ⟨h'.1.trans h.1, fun hw => h'.2 (h.2 hw)⟩
  names w names := ⟨rfl, fun hw => ⟨hw.sigil, hw.forest⟩⟩
  raise w seat := ⟨_, Workshop.raising_rises seat w, fun _ hv => ⟨hv.active, hv.sealed⟩⟩
  lend _ _ v := ⟨rfl, (v.rises_addHooks _ _).sealed⟩
  wait w seat _ _ _ :=
    have hrises := w.rises_withWaiting seat _
    ⟨hrises.active, hrises.sealed⟩
  wrap {_ _ _ w _ v _ e names g i} _ hwv hnames hadd := by
    refine ⟨rfl, fun hv => ⟨hv.sigil, Forest.Closed.addHooks ?_ i _⟩⟩
    obtain ⟨_, n, cue', hread, hcue, rfl⟩ := Build.boundNames_read hnames
    rw [← hwv.1] at hcue
    cases (Sigil.forValues_eq_ok hcue).trans hv.sigil
    exact hv.forest.addComponent hread hadd
  claim w seat i waiting hooks _ _ :=
    have hrises := (w.rises_withWaiting seat waiting).trans (Workshop.rises_addHooks _ i hooks)
    ⟨hrises.active, hrises.sealed⟩

/-- Whatever is evaluated in a fresh workshop leaves a forest that is closed for the cue of the
active builder. -/
theorem closed_of_reaches {p : Program} {start w : Workshop} (hstart : start.IsFresh)
    (hreach : p.Reaches start w) :
    w.forest.Closed (start.builder start.active).sigil.cue := by
  have hsealed : start.Sealed (start.builder start.active).sigil.cue :=
    ⟨rfl, hstart.forest ▸ Forest.closed_empty _⟩
  exact (((p.conduct_closed _).reaches hreach).2 hsealed).forest

/-- **The parameters of a nested component are the names that its steps use**, each once and in
order of first use. This holds of every component that a builder makes, when its factory is
compiled with the builder's own sigil. So a factory can supply the arguments that it passes on,
and a call of factories of such components, which call each other only, never meets a name that is
not bound. -/
theorem parameters_eq_names {p : Program} {start w : Workshop} {settings : Settings}
    (hstart : start.IsFresh) (hreach : p.Reaches start w)
    (hsigil : settings.sigilOf = (start.builder start.active).sigil) :
    (∀ (j : Nat) (k : ComponentCell), w.forest.components[j]? = some k →
      ∃ body, w.forest.readBody (.component j) = .ok body ∧
        (settings.sigilOf.cue?.isSome = true → settings.variableLead.hasText = true →
          body.isWritable = true → ∃ steps, settings.compile body = .ok steps) ∧
        (∀ steps, settings.compile body = .ok steps →
          k.boundary.parameters = distinct (steps.flatMap Instruction.names)) ∧
        ∀ call ∈ body.calls, call.2 ⊆ k.boundary.parameters) ∧
    ∀ (r : Registry) (keys : String → Prop),
      (∀ key registration, keys key → Entries.get? r key = some registration →
        ∃ j k body steps, w.forest.components[j]? = some k ∧
          w.forest.readBody (.component j) = .ok body ∧ settings.compile body = .ok steps ∧
          (∀ call ∈ body.calls, keys call.1) ∧
          registration.factory = .steps k.boundary.parameters steps) →
      ∀ key registration arguments s fault t, keys key → Entries.get? r key = some registration →
        r.call key registration arguments s = .error fault t → ∀ name, fault ≠ .unbound name := by
  have hclosed := closed_of_reaches hstart hreach
  rw [← hsigil] at hclosed
  constructor
  · intro j k hk
    obtain ⟨body, hbody, hparameters⟩ := hclosed.parameters_eq hk
    refine ⟨body, hbody, fun hcue hlead hclicks => ?_, fun steps hsteps => ?_,
      fun call hcall name hname => ?_⟩
    · obtain ⟨cue, hcue⟩ := Option.isSome_iff_exists.mp hcue
      exact ⟨_, (Settings.compile_of_cue hcue hlead body).trans (if_pos hclicks)⟩
    · obtain ⟨lead, cue, _, hcue, _, rfl⟩ := Settings.compile_eq_ok hsteps
      rw [hparameters, Body.names_compile, Sigil.forValues_eq_ok hcue]
    · rw [hparameters, mem_distinct]
      exact Body.mem_names.mpr (.inr ⟨_, hcall, hname⟩)
  · intro r keys hr key registration arguments s fault t hkey hget hcall name hname
    have hcompiled : r.Compiled keys fun parameters body cue => body.names cue ⊆ parameters := by
      intro key registration hkey hget
      obtain ⟨j, k, body, steps, hk, hbody, hsteps, hcalls, hfactory⟩ :=
        hr key registration hkey hget
      obtain ⟨body', hbody', hparameters⟩ := hclosed.parameters_eq hk
      cases Except.ok.inj (hbody.symm.trans hbody')
      obtain ⟨lead, cue, _, hcue, _, rfl⟩ := Settings.compile_eq_ok hsteps
      refine ⟨_, body, lead, cue, fun name hname => ?_, hcalls, hfactory⟩
      rw [hparameters, mem_distinct, ← Sigil.forValues_eq_ok hcue]
      exact hname
    rcases Registry.callWithin_eq_error hcompiled _ hkey hget hcall with
      rfl | rfl | ⟨_, _, _, hnames, ⟨_, _, _, rfl⟩ | ⟨_, hused, hnotin, _⟩⟩
    · cases hname
    · cases hname
    · cases hname
    · exact hnotin (hnames hused)

/-- A list of two rows: each row is a component that refers to names, and the list, a component as
well, refers to one of them before the rows do. -/
theorem parameters_eq_names_rows :
    let item (name : String) : Expr :=
      .build (.component "Row") (.table [("name", .value (.text name))]) []
    let program : Program :=
      [("List", ⟨"List", [], .build (.value (.text "ul")) (.table [("title", .value (.text "$b"))])
          [item "$a", item "$b"], [], false⟩),
        ("Row", ⟨"Row", ["props"],
          .build (.value (.text "li")) (.table [("id", .value (.text "$c"))])
          [.prop "name" (.value (.text "none"))], [], false⟩)]
    ∃ x w list row listSteps rowSteps,
      program.eval (.build (.component "List") (.value .none) []) {} = .ok x w ∧
      w.forest.components[2]? = some list ∧ w.forest.components[0]? = some row ∧
      list.boundary.parameters = ["b", "c", "a"] ∧ row.boundary.parameters = ["c", "a"] ∧
      distinct (listSteps.flatMap Instruction.names) = ["b", "c", "a"] ∧
      distinct (rowSteps.flatMap Instruction.names) = ["c", "a"] ∧
      ∀ arguments s fault t, Registry.call
        [("List", ⟨.steps list.boundary.parameters listSteps, false⟩),
          ("Row", ⟨.steps row.boundary.parameters rowSteps, false⟩)]
        "List" ⟨.steps list.boundary.parameters listSteps, false⟩ arguments s = .error fault t →
        ∀ name, fault ≠ .unbound name := by
  intro item program
  obtain ⟨x, w, heval, hcheck⟩ :=
    Build.exists_ok_of_check
      (x := program.eval (.build (.component "List") (.value .none) [])) (w := {})
      (fun _ w => (w.forest.components[2]?.any fun k => k.boundary.parameters = ["b", "c", "a"]) &&
        (w.forest.components[0]?.any fun k => k.boundary.parameters = ["c", "a"]) &&
        [0, 2].all fun j => (w.forest.readBody (.component j)).toOption.any Body.isWritable)
      (by decide +kernel)
  rw [Bool.and_eq_true, Bool.and_eq_true, Option.any_eq_true, Option.any_eq_true,
    List.all_eq_true] at hcheck
  obtain ⟨⟨⟨list, hlist, hlistNames⟩, row, hrow, hrowNames⟩, hclicks⟩ := hcheck
  have hwritable : ∀ j ∈ [0, 2], ∀ body, w.forest.readBody (.component j) = .ok body →
      body.isWritable = true := by
    intro j hj body hbody
    simpa [hbody, Except.toOption] using hclicks j hj
  have hsigil : ({} : Settings).sigilOf = (({} : Workshop).builder .fallback).sigil := rfl
  obtain ⟨hparts, hcalls⟩ :=
    parameters_eq_names Workshop.isFresh_default (.value .refl heval) hsigil
  obtain ⟨listBody, hlistBody, hlistCompiles, hlistUses, _⟩ := hparts 2 list hlist
  obtain ⟨rowBody, hrowBody, hrowCompiles, hrowUses, _⟩ := hparts 0 row hrow
  obtain ⟨listSteps, hlistSteps⟩ := hlistCompiles (by decide) (by decide)
    (hwritable 2 (by simp) _ hlistBody)
  obtain ⟨rowSteps, hrowSteps⟩ := hrowCompiles (by decide) (by decide)
    (hwritable 0 (by simp) _ hrowBody)
  have hlistNames := of_decide_eq_true hlistNames
  have hrowNames := of_decide_eq_true hrowNames
  refine ⟨x, w, list, row, listSteps, rowSteps, heval, hlist, hrow, hlistNames, hrowNames,
    hlistNames ▸ (hlistUses _ hlistSteps).symm, hrowNames ▸ (hrowUses _ hrowSteps).symm,
    fun arguments s fault t => hcalls _ (fun _ => True) ?_ "List" _ arguments s fault t trivial rfl⟩
  intro key registration _ hget
  rcases List.mem_pair.mp (Entries.mem_of_get? hget) with heq | heq <;> cases heq
  · exact ⟨2, list, listBody, listSteps, hlist, hlistBody, hlistSteps, fun _ _ => trivial, rfl⟩
  · exact ⟨0, row, rowBody, rowSteps, hrow, hrowBody, hrowSteps, fun _ _ => trivial, rfl⟩

end Program

end Pageloom
