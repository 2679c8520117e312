import Mathlib.Data.List.Induction
import Pageloom.Proofs.Entries
import Pageloom.Proofs.Picture
import Pageloom.Proofs.Trees

/-!
# Filled-in faces

The face of an element on a live page, said at once. Where every reference has a
value, writing the attributes one by one comes to the face with each value filled
in: the class and the style in places of their own, the other attributes in order.

A factory binds each of its parameters to the argument at the parameter's place; one
that no argument was passed for is undefined, and of two parameters with one name the
later counts. A call that passes on its own parameters binds them to the same texts.

## Main definitions

* `Pageloom.filled` -- a value with its reference filled in
* `Pageloom.Bindings.Give` -- names that have given texts
* `Pageloom.argumentText` -- the text that a parameter is bound to
* `Pageloom.Element.picture` -- the face of an element with its values filled in
* `Pageloom.Element.face_eq_picture` -- the face that a construction writes
-/

namespace Pageloom

/-- A value with its reference filled in: a reference becomes what `fill` says of
its name, any other value stays. -/
def filled (cue : Cue) (fill : String → String) (value : String) : String :=
  match referenceName? cue value with
  | some name => fill name
  | none => value

/-- Every value among the given ones has the live text that `fill` says. -/
def Fills (cue : Cue) (bindings : Bindings) (fill : String → String) (values : List String) :
    Prop :=
  ∀ value ∈ values, liveText cue bindings value = .ok (filled cue fill value)

theorem Fills.mono {cue : Cue} {bindings : Bindings} {fill : String → String}
    {values values' : List String} (h : Fills cue bindings fill values) (hsub : values' ⊆ values) :
    Fills cue bindings fill values' := fun value hmem => h value (hsub hmem)

/-- Every name among the given ones is bound to a value with the text that `fill` says. -/
def Bindings.Give (bindings : Bindings) (fill : String → String) (names : List String) : Prop :=
  ∀ name ∈ names, Live.resolve bindings name = .ok (fill name)

/-- Where the names of a tree are bound, its values are filled. -/
theorem Bindings.Give.fills {cue : Cue} {bindings : Bindings} {fill : String → String} {n : Node}
    (h : bindings.Give fill (n.boundNames cue)) :
    Fills cue bindings fill (n.preorder.flatMap Node.values) := by
  intro value hvalue
  obtain ⟨m, hm, hvalue⟩ := List.mem_flatMap.mp hvalue
  unfold liveText filled
  cases hname : referenceName? cue value with
  | none => rfl
  | some name =>
    refine h name (mem_distinct.mpr (List.mem_flatMap.mpr ⟨m, hm, ?_⟩))
    exact List.mem_filterMap.mpr ⟨value, hvalue, hname⟩

namespace Element

/-- The attributes other than the class and the style, filled in. -/
def otherAttributes (cue : Cue) (fill : String → String) (e : Element) : Entries String :=
  (e.plainAttributes.filter fun a => a.1 ≠ "style").map fun a => (a.1, filled cue fill a.2)

/-- The style, filled in. -/
def style? (cue : Cue) (fill : String → String) (e : Element) : Option String :=
  (e.attributes.get? "style").map (filled cue fill)

/-- The face of an element with its values filled in. -/
def picture (cue : Cue) (fill : String → String) (childless : Bool) (e : Element) : Face where
  tag := e.tag
  className := .text e.classValue
  style := .text ((e.style? cue fill).getD "")
  text := ((if childless then e.text else none).map fun t => .text (filled cue fill t)).getD .none
  onClick := (e.onClick.map fun h => .text h.expression).getD .none
  attributes := (e.otherAttributes cue fill).map fun a => (a.1, .text a.2)

theorem keys_otherAttributes (cue : Cue) (fill : String → String) (e : Element) :
    (e.otherAttributes cue fill).keys =
      e.attributes.keys.filter fun k => k ≠ "class" ∧ k ≠ "style" := by
  rw [otherAttributes, Entries.keys_map, plainAttributes, List.filter_filter, Entries.keys,
    Entries.keys, List.filter_map]
  congr 2
  funext a
  simp [Bool.and_comm]

end Element

/-- Writing attributes with distinct new names puts the style in its place and the
others at the end, in order. -/
theorem foldlM_write {cue : Cue} {bindings : Bindings} {fill : String → String} :
    ∀ {as : Entries String} {f : Face}, as.keys.Nodup →
      (∀ name ∈ as.keys, name ∉ f.attributes.keys) →
      Fills cue bindings fill (as.map Prod.snd) →
      as.foldlM (Face.write cue bindings) f = .ok
        { f with
          style := (((as.get? "style").map fun v => Value.text (filled cue fill v)).getD f.style)
          attributes := f.attributes ++
            (as.filter fun a => a.1 ≠ "style").map fun a =>
              (a.1, Value.text (filled cue fill a.2)) }
  | [], f, _, _, _ => by simp [pure, Except.pure]
  | (k, v) :: as, f, hnodup, hfresh, hfills => by
    rw [Entries.keys_cons, List.nodup_cons] at hnodup
    have hvalue : liveText cue bindings v = .ok (filled cue fill v) := hfills v (by simp)
    have hrest : Fills cue bindings fill (as.map Prod.snd) := hfills.mono (by simp)
    rw [List.foldlM_cons]
    by_cases hk : k = "style"
    · have hstep : Face.write cue bindings f (k, v) =
          .ok { f with style := .text (filled cue fill v) } := by
        simp only [Face.write, hvalue, hk]
        rfl
      have hstyle : Entries.get? as "style" = none := Entries.get?_eq_none_iff.mpr (hk ▸ hnodup.1)
      rw [hstep]
      refine (foldlM_write hnodup.2 (fun name hname => ?_) hrest).trans ?_
      · exact hfresh name (List.mem_cons_of_mem _ hname)
      · simp [hk, hstyle, Entries.get?_cons]
    · have hstep : Face.write cue bindings f (k, v) = .ok { f with
          attributes := f.attributes ++ [(k, .text (filled cue fill v))] } := by
        rw [← Entries.set_of_notMem (hfresh k (by simp))]
        simp only [Face.write, hvalue, if_neg hk]
        rfl
      rw [hstep]
      refine (foldlM_write hnodup.2 (fun name hname => ?_) hrest).trans ?_
      · have hne : name ≠ k := fun heq => hnodup.1 (heq ▸ hname)
        simp [hfresh name (List.mem_cons_of_mem _ hname), hne]
      · simp [hk, Entries.get?_cons]

/-- An element whose references all have values has its picture as its face. -/
theorem Element.face_eq_picture {cue : Cue} {bindings : Bindings} {fill : String → String}
    {childless : Bool} {e : Element} (hnodup : e.attributes.keys.Nodup)
    (hfills : Fills cue bindings fill (e.values childless)) :
    e.face cue bindings childless = .ok (e.picture cue fill childless) := by
  have hplain : e.plainAttributes.keys.Nodup :=
    hnodup.sublist (Entries.keys_filter_sublist _ _)
  have hwrite := foldlM_write (f := { tag := e.tag, className := .text e.classValue }) hplain
    (by simp) (hfills.mono (by simp [Element.values]))
  have htext : optionalText cue bindings (if childless then e.text else none) =
      .ok (((if childless then e.text else none).map fun t => .text (filled cue fill t)).getD
        .none) := by
    cases hgiven : (if childless then e.text else none) with
    | none => rfl
    | some t =>
      have ht : liveText cue bindings t = .ok (filled cue fill t) := by
        refine hfills t (List.mem_append_right _ ?_)
        cases childless <;> simp_all
      simp only [optionalText, ht]
      rfl
  have hstyle : e.plainAttributes.get? "style" = e.attributes.get? "style" :=
    Entries.get?_filter (by simp) _
  rw [Element.face, hwrite]
  cases hget : e.attributes.get? "style" <;>
    simp [htext, hstyle, hget, picture, otherAttributes, style?, bind, Except.bind, pure,
      Except.pure, Function.comp_def]

/-! ## Arguments -/

/-- The last place of a name among parameters. -/
def placeOf (parameters : List String) (name : String) : Nat :=
  parameters.length - 1 - parameters.reverse.idxOf name

/-- The argument for a parameter, which is `undefined` where no argument was passed. -/
def argumentOf (parameters : List String) (arguments : List Value) (name : String) : Value :=
  (arguments[placeOf parameters name]?).getD missingArgument

/-- The text of the argument for a parameter. -/
def argumentText (parameters : List String) (arguments : List Value) (name : String) : String :=
  (argumentOf parameters arguments name).plain

theorem getElem?_placeOf {parameters : List String} {name : String} (h : name ∈ parameters) :
    parameters[placeOf parameters name]? = some name := by
  have hmem : name ∈ parameters.reverse := List.mem_reverse.mpr h
  have hlt := List.idxOf_lt_length_iff.mpr hmem
  rw [List.length_reverse] at hlt
  have hplace := List.getElem?_reverse (l := parameters) hlt
  rw [placeOf, ← hplace]
  exact List.getElem?_idxOf hmem

theorem get?_reverse_mapIdx {α : Type} (g : Nat → α) {parameters : List String} {name : String}
    (h : name ∈ parameters) :
    Entries.get? (parameters.mapIdx fun i p => (p, g i)).reverse name =
      some (g (placeOf parameters name)) := by
  induction parameters using List.reverseRecOn with
  | nil => cases h
  | append_singleton ps p ih =>
    rw [List.mapIdx_concat, List.reverse_append, List.reverse_singleton, List.singleton_append,
      Entries.get?_cons, placeOf, List.reverse_append, List.reverse_singleton,
      List.singleton_append, List.idxOf_cons]
    by_cases hp : p = name
    · simp [hp]
    · have hmem : name ∈ ps := by simpa [Ne.symm hp] using h
      rw [if_neg hp, ih hmem]
      simp only [placeOf, beq_false_of_ne hp, cond_false, List.length_append,
        List.length_singleton]
      congr 2
      omega

/-- **A parameter is bound to the argument at its place.** -/
theorem bindArguments_of_mem {parameters : List String} {name : String} (h : name ∈ parameters)
    (arguments : List Value) :
    bindArguments parameters arguments name = .ok (argumentOf parameters arguments name) := by
  rw [bindArguments, Bindings.ofEntries, Entries.get?_ofPairs,
    get?_reverse_mapIdx (fun i => (arguments[i]?).getD missingArgument) h]
  rfl

theorem resolve_bindArguments {parameters : List String} {name : String} (h : name ∈ parameters)
    (arguments : List Value) : Live.resolve (bindArguments parameters arguments) name =
      (argumentOf parameters arguments name).plainText := by
  rw [Live.resolve, bindArguments_of_mem h]
  rfl

/-- Parameters whose arguments have texts are bound to these texts. -/
theorem give_bindArguments {parameters names : List String} {arguments : List Value}
    (hnames : ∀ name ∈ names, name ∈ parameters)
    (htext : ∀ name ∈ names, (argumentOf parameters arguments name).hasText = true) :
    (bindArguments parameters arguments).Give (argumentText parameters arguments) names := by
  intro name hname
  rw [resolve_bindArguments (hnames name hname)]
  exact Value.plainText_of_hasText (htext name hname)

theorem Bindings.Give.callArguments_eq {bindings : Bindings} {fill : String → String}
    {names : List String} (h : bindings.Give fill names) :
    callArguments bindings names = .ok (names.map fun name => .text (fill name)) := by
  refine mapM_eq_ok fun name hname => ?_
  rw [h name hname]
  rfl

/-- Parameters that a call passes on keep their texts. -/
theorem bindArguments_passedOn {parameters : List String} (fill : String → String) :
    (bindArguments parameters (parameters.map fun p => .text (fill p))).Give fill parameters := by
  intro name hname
  have hargument : argumentOf parameters (parameters.map fun p => .text (fill p)) name =
      .text (fill name) := by
    rw [argumentOf, List.getElem?_map, getElem?_placeOf hname]
    rfl
  exact Live.resolve_of_hasText ((bindArguments_of_mem hname _).trans (by rw [hargument])) rfl

end Pageloom
