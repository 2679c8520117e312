import Pageloom.Collection
import Pageloom.Proofs.Building
import Pageloom.Proofs.Operations

/-!
# Evaluation keeps a workshop orderly

Authored code that holds no nodes of its own makes nodes only by building them.
Evaluating it leaves an orderly workshop orderly and all finished trees as they
were, and gives values whose nodes may be children. This follows each expression,
and each call by the depth to which calls may nest.

## Main definitions

* `Pageloom.Expr.literals` -- the values that stand in an expression
* `Pageloom.Workshop.Orderly`, `Pageloom.Workshop.Advances` -- what evaluation keeps
* `Pageloom.Program.evalIn_advances`, `Pageloom.Program.callWithin_advances`
* `Pageloom.Program.renderEntries_advances` -- the workshop after all entries are called
-/

namespace Pageloom

namespace Expr

mutual

/-- The values that stand in an expression. -/
def literals : Expr → List Value
  | .value v => [v]
  | .list items => literalsAll items
  | .tuple items => literalsAll items
  | .table entries => literalsOf entries
  | .view entries => literalsOf entries
  | .handler _ fields => literalsOf fields
  | .build type given children => literals type ++ literals given ++ literalsAll children
  | .component _ => []
  | .callFragment given => literals given
  | .prop _ fallback => literals fallback
  | .props => []
  | .param _ => []
  | .bind _ expr => literals expr
  | .ref _ => []
  | .seq items => literalsAll items

/-- The values that stand in expressions. -/
def literalsAll : List Expr → List Value
  | [] => []
  | e :: es => literals e ++ literalsAll es

/-- The values that stand in named expressions. -/
def literalsOf : List (String × Expr) → List Value
  | [] => []
  | (_, e) :: es => literals e ++ literalsOf es

end

end Expr

/-- A program in which no value that stands in it holds a node, so that its
components make nodes by building them and in no other way. -/
def Program.IsNodeFree (p : Program) : Prop :=
  ∀ e ∈ p, ∀ v ∈ e.2.body.literals, v.nodes = []

/-! ## Orderly workshops -/

/-- A workshop that is served by the builder of the build, with an orderly forest and
named values whose nodes are fit. -/
structure Workshop.Orderly (cue : Cue) (w : Workshop) : Prop where
  serves : w.active = .own
  sigil : w.own.sigil.cue? = some cue
  forest : w.forest.Orderly cue
  names : ∀ e ∈ w.names, e.2.Among (w.forest.Fit cue)

/-- An orderly workshop with a later forest. -/
structure Workshop.Advances (cue : Cue) (w v : Workshop) : Prop where
  orderly : v.Orderly cue
  later : w.forest.Extends v.forest

namespace Workshop

variable {cue : Cue} {w v u : Workshop}

theorem Advances.refl (hw : w.Orderly cue) : w.Advances cue w := ⟨hw, .refl _⟩

theorem Advances.trans (h : w.Advances cue v) (h' : v.Advances cue u) : w.Advances cue u :=
  ⟨h'.orderly, h.later.trans h'.later⟩

theorem Orderly.advances_of_like (hw : w.Orderly cue) (hlike : w.Like v)
    (hlater : w.forest.Extends v.forest) (hforest : v.forest.Orderly cue) : w.Advances cue v where
  orderly :=
    { serves := hlike.active.trans hw.serves
      sigil := hlike.sigil ▸ hw.sigil
      forest := hforest
      names := fun e he => (hw.names e (hlike.names ▸ he)).imp fun _ hfit => hfit.mono hlater }
  later := hlater

theorem Orderly.advances_of_settles (hw : w.Orderly cue) (h : w.Settles v) : w.Advances cue v :=
  hw.advances_of_like h.like h.later (hw.forest.of_extends h.later h.size)

theorem Orderly.advances_of_grown (hw : w.Orderly cue) (hlike : w.Like v)
    (h : w.forest.Grown cue v.forest) : w.Advances cue v :=
  hw.advances_of_like hlike h.later (h.orderly hw.forest)

theorem Advances.among (h : w.Advances cue v) {x : Value} (hx : x.Among (w.forest.Fit cue)) :
    x.Among (v.forest.Fit cue) := hx.imp fun _ hfit => hfit.mono h.later

end Workshop

/-! ## Nodes -/

/-- A call that keeps workshops orderly and gives fit nodes. -/
def IsSound (cue : Cue) (call : Callable → List Value → Build Value) : Prop :=
  ∀ c arguments (w v : Workshop) (x : Value), w.Orderly cue →
    (∀ a ∈ arguments, a.Among (w.forest.Fit cue)) → call c arguments w = .ok x v →
    w.Advances cue v ∧ x.Among (v.forest.Fit cue)

namespace Build

variable {cue : Cue} {w v : Workshop}

theorem fragment_advances {seat : Seat} {props x : Value} (hw : w.Orderly cue)
    (hprops : props.Among (w.forest.Fit cue)) (h : fragment seat props w = .ok x v) :
    w.Advances cue v ∧ x.Among (v.forest.Fit cue) := by
  obtain ⟨hgrown, hlike, g, i, rfl⟩ := fragment_grown hprops h
  exact ⟨hw.advances_of_grown hlike hgrown, Value.among_node.mpr trivial⟩

theorem node_advances {author : Author} (hcall : IsSound cue author.call) {type props x : Value}
    {children : List Value} (hw : w.Orderly cue) (hprops : props.Among (w.forest.Fit cue))
    (hchildren : ∀ c ∈ children, c.Among (w.forest.Fit cue))
    (h : node author .own type props children w = .ok x v) :
    w.Advances cue v ∧ x.Among (v.forest.Fit cue) := by
  unfold node at h
  split at h
  · obtain ⟨hgrown, hlike, g, i, rfl⟩ := element_grown hprops hchildren h
    exact ⟨hw.advances_of_grown hlike hgrown, Value.among_node.mpr trivial⟩
  · obtain ⟨hgrown, hlike, g, i, rfl⟩ := element_grown hprops hchildren h
    exact ⟨hw.advances_of_grown hlike hgrown, Value.among_node.mpr trivial⟩
  · obtain ⟨merged, u, hlift, h⟩ := bind_eq_ok.mp h
    obtain ⟨hmerged, rfl⟩ := lift_eq_ok.mp hlift
    have hmerged := among_mergeChildren hprops hchildren hmerged
    split at h
    · exact fragment_advances hw hmerged h
    · obtain ⟨result, u, hresult, h⟩ := bind_eq_ok.mp h
      obtain ⟨hadvances, hamong⟩ := hcall _ _ _ _ _ hw (by simpa using hmerged) hresult
      have hsigil : (u.builder .own).sigil.cue? = some cue := hadvances.orderly.sigil
      obtain ⟨hsettles, hx⟩ := finish_settles hsigil hamong h
      exact ⟨hadvances.trans (hadvances.orderly.advances_of_settles hsettles), hx⟩
  · cases h

end Build

/-! ## Expressions -/

namespace Program

variable {p : Program} {cue : Cue} {call : Callable → List Value → Build Value} {frame : Frame}

theorem among_of_nodes_eq_nil {P : NodeId → Prop} {v : Value} (h : v.nodes = []) : v.Among P := by
  simp [Value.Among, h]

mutual

theorem evalIn_advances (hcall : IsSound cue call) : ∀ {e : Expr} {w v : Workshop} {x : Value},
    (∀ l ∈ e.literals, l.nodes = []) → w.Orderly cue →
    (∀ a ∈ frame.arguments, a.Among (w.forest.Fit cue)) → evalIn p call frame e w = .ok x v →
    w.Advances cue v ∧ x.Among (v.forest.Fit cue)
  | .value l, w, v, x, hl, hw, _, h => by
    cases h
    exact ⟨.refl hw, among_of_nodes_eq_nil (hl _ (by simp [Expr.literals]))⟩
  | .list items, w, v, x, hl, hw, ha, h => by
    obtain ⟨xs, u, hall, h⟩ := bind_eq_ok.mp h
    cases h
    obtain ⟨hadvances, hxs⟩ := evalAll_advances hcall (by simpa [Expr.literals] using hl) hw ha hall
    exact ⟨hadvances, Value.among_list.mpr hxs⟩
  | .tuple items, w, v, x, hl, hw, ha, h => by
    obtain ⟨xs, u, hall, h⟩ := bind_eq_ok.mp h
    cases h
    obtain ⟨hadvances, hxs⟩ := evalAll_advances hcall (by simpa [Expr.literals] using hl) hw ha hall
    exact ⟨hadvances, Value.among_tuple.mpr hxs⟩
  | .table entries, w, v, x, hl, hw, ha, h => by
    obtain ⟨xs, u, hall, h⟩ := bind_eq_ok.mp h
    cases h
    obtain ⟨hadvances, hxs⟩ :=
      evalEntries_advances hcall (by simpa [Expr.literals] using hl) hw ha hall
    exact ⟨hadvances, Value.among_table.mpr (among_ofPairs hxs)⟩
  | .view entries, w, v, x, hl, hw, ha, h => by
    obtain ⟨xs, u, hall, h⟩ := bind_eq_ok.mp h
    cases h
    obtain ⟨hadvances, hxs⟩ :=
      evalEntries_advances hcall (by simpa [Expr.literals] using hl) hw ha hall
    exact ⟨hadvances, Value.among_view.mpr (among_ofPairs hxs)⟩
  | .handler kind fields, w, v, x, hl, hw, ha, h => by
    obtain ⟨xs, u, hall, h⟩ := bind_eq_ok.mp h
    obtain ⟨hadvances, _⟩ :=
      evalEntries_advances hcall (by simpa [Expr.literals] using hl) hw ha hall
    cases hhandler : Handler.ofFields? kind (Entries.ofPairs xs) with
    | none =>
      simp only [hhandler] at h
      cases h
    | some handler =>
      simp only [hhandler] at h
      cases h
      exact ⟨hadvances, Value.among_handler handler⟩
  | .build type given children, w, v, x, hl, hw, ha, h => by
    simp only [Expr.literals, List.forall_mem_append] at hl
    obtain ⟨t, w1, htype, h⟩ := bind_eq_ok.mp h
    obtain ⟨h1, _⟩ := evalIn_advances hcall hl.1.1 hw ha htype
    obtain ⟨g, w2, hgiven, h⟩ := bind_eq_ok.mp h
    obtain ⟨h2, hg⟩ := evalIn_advances hcall hl.1.2 h1.orderly (fun a hmem => h1.among (ha a hmem))
      hgiven
    have h12 := h1.trans h2
    obtain ⟨cs, w3, hchildren, h⟩ := bind_eq_ok.mp h
    obtain ⟨h3, hcs⟩ := evalAll_advances hcall hl.2 h2.orderly (fun a hmem => h12.among (ha a hmem))
      hchildren
    obtain ⟨w', w4, hget, h⟩ := bind_eq_ok.mp h
    cases hget
    rw [h3.orderly.serves] at h
    obtain ⟨h4, hx⟩ := Build.node_advances hcall h3.orderly (h3.among hg) hcs h
    exact ⟨(h12.trans h3).trans h4, hx⟩
  | .component ref, w, v, x, _, hw, _, h => by
    simp only [evalIn, component] at h
    cases hget : Entries.get? p ref with
    | none =>
      rw [hget] at h
      cases h
    | some d =>
      rw [hget] at h
      cases h
      exact ⟨.refl hw, Value.among_callable _⟩
  | .callFragment given, w, v, x, hl, hw, ha, h => by
    obtain ⟨g, w1, hgiven, h⟩ := bind_eq_ok.mp h
    obtain ⟨h1, hg⟩ := evalIn_advances hcall (by simpa [Expr.literals] using hl) hw ha hgiven
    obtain ⟨w', w2, hget, h⟩ := bind_eq_ok.mp h
    cases hget
    obtain ⟨h2, hx⟩ := Build.fragment_advances h1.orderly hg h
    exact ⟨h1.trans h2, hx⟩
  | .prop name fallback, w, v, x, hl, hw, ha, h => by
    simp only [evalIn] at h
    cases hprop : frame.prop? name with
    | none =>
      rw [hprop] at h
      exact evalIn_advances hcall (by simpa [Expr.literals] using hl) hw ha h
    | some y =>
      rw [hprop] at h
      cases h
      exact ⟨.refl hw, Frame.among_prop? ha hprop⟩
  | .props, w, v, x, _, hw, ha, h => by
    cases h
    exact ⟨.refl hw, Frame.among_first ha⟩
  | .param name, w, v, x, _, hw, ha, h => by
    cases h
    exact ⟨.refl hw, Frame.among_param ha⟩
  | .bind name e, w, v, x, hl, hw, ha, h => by
    obtain ⟨y, u, hy, h⟩ := bind_eq_ok.mp h
    obtain ⟨hadvances, hamong⟩ := evalIn_advances hcall (by simpa [Expr.literals] using hl) hw ha hy
    cases h
    refine ⟨⟨⟨hadvances.orderly.serves, hadvances.orderly.sigil, hadvances.orderly.forest, ?_⟩,
      hadvances.later⟩, hamong⟩
    intro e he
    rcases Entries.mem_set he with hold | hnew
    · exact hadvances.orderly.names e hold
    · exact hnew ▸ hamong
  | .ref name, w, v, x, _, hw, _, h => by
    cases h
    refine ⟨.refl hw, ?_⟩
    cases hget : w.names.get? name with
    | none => exact Value.among_none
    | some y => exact among_get? hw.names hget
  | .seq items, w, v, x, hl, hw, ha, h => by
    obtain ⟨xs, u, hall, h⟩ := bind_eq_ok.mp h
    obtain ⟨hadvances, hxs⟩ := evalAll_advances hcall (by simpa [Expr.literals] using hl) hw ha hall
    cases h
    refine ⟨hadvances, ?_⟩
    cases hlast : xs.getLast? with
    | none => exact Value.among_none
    | some y => exact hxs y (List.mem_of_getLast? hlast)

theorem evalAll_advances (hcall : IsSound cue call) :
    ∀ {es : List Expr} {w v : Workshop} {xs : List Value},
      (∀ l ∈ Expr.literalsAll es, l.nodes = []) → w.Orderly cue →
      (∀ a ∈ frame.arguments, a.Among (w.forest.Fit cue)) → evalAll p call frame es w = .ok xs v →
      w.Advances cue v ∧ ∀ x ∈ xs, x.Among (v.forest.Fit cue)
  | [], w, v, xs, _, hw, _, h => by
    cases h
    exact ⟨.refl hw, by simp⟩
  | e :: es, w, v, xs, hl, hw, ha, h => by
    simp only [Expr.literalsAll, List.forall_mem_append] at hl
    obtain ⟨y, u, hfirst, h⟩ := bind_eq_ok.mp h
    obtain ⟨h1, hy⟩ := evalIn_advances hcall hl.1 hw ha hfirst
    obtain ⟨ys, u', hrest, h⟩ := bind_eq_ok.mp h
    obtain ⟨h2, hys⟩ := evalAll_advances hcall hl.2 h1.orderly (fun a hmem => h1.among (ha a hmem))
      hrest
    cases h
    exact ⟨h1.trans h2, List.forall_mem_cons.mpr ⟨h2.among hy, hys⟩⟩

theorem evalEntries_advances (hcall : IsSound cue call) :
    ∀ {es : List (String × Expr)} {w v : Workshop} {xs : List (String × Value)},
      (∀ l ∈ Expr.literalsOf es, l.nodes = []) → w.Orderly cue →
      (∀ a ∈ frame.arguments, a.Among (w.forest.Fit cue)) →
      evalEntries p call frame es w = .ok xs v →
      w.Advances cue v ∧ ∀ x ∈ xs, x.2.Among (v.forest.Fit cue)
  | [], w, v, xs, _, hw, _, h => by
    cases h
    exact ⟨.refl hw, by simp⟩
  | (k, e) :: es, w, v, xs, hl, hw, ha, h => by
    simp only [Expr.literalsOf, List.forall_mem_append] at hl
    obtain ⟨y, u, hfirst, h⟩ := bind_eq_ok.mp h
    obtain ⟨h1, hy⟩ := evalIn_advances hcall hl.1 hw ha hfirst
    obtain ⟨ys, u', hrest, h⟩ := bind_eq_ok.mp h
    obtain ⟨h2, hys⟩ := evalEntries_advances hcall hl.2 h1.orderly
      (fun a hmem => h1.among (ha a hmem)) hrest
    cases h
    exact ⟨h1.trans h2, List.forall_mem_cons.mpr ⟨h2.among hy, hys⟩⟩

end

/-- Calling what a node-free program defines keeps a workshop orderly, to whatever
depth calls may nest. -/
theorem callWithin_advances (hp : p.IsNodeFree) : ∀ depth, IsSound cue (p.callWithin depth)
  | 0, _, _, _, _, _, _, _, h => by cases h
  | depth + 1, c, arguments, w, v, x, hw, ha, h => by
    have hhead : (arguments.head?.getD .none).Among (w.forest.Fit cue) :=
      Frame.among_first (f := ⟨arguments, []⟩) ha
    cases c with
    | idle =>
      cases h
      exact ⟨.refl hw, Value.among_none⟩
    | fragment =>
      obtain ⟨w', u, hget, h⟩ := bind_eq_ok.mp h
      cases hget
      exact Build.fragment_advances hw hhead h
    | fragmentOf seat => exact Build.fragment_advances hw hhead h
    | component ref name isObject =>
      simp only [callWithin] at h
      cases hget : Entries.get? p ref with
      | none =>
        rw [hget] at h
        cases h
      | some d =>
        rw [hget] at h
        exact evalIn_advances (callWithin_advances hp depth)
          (hp (ref, d) (Entries.mem_of_get? hget)) hw ha h
    | inherent name =>
      simp only [callWithin] at h
      cases hname : Inherent.ofName? name with
      | none =>
        rw [hname] at h
        cases h
      | some i =>
        rw [hname] at h
        obtain ⟨hgives, rfl⟩ := Build.lift_eq_ok.mp h
        exact ⟨.refl hw, Inherent.among_gives hname hgives⟩

end Program

/-! ## Entries -/

/-- The workshop while the builder of the build serves. -/
def Workshop.serving (w : Workshop) : Workshop := { w with active := .own }

namespace Build

variable {cue : Cue} {w v : Workshop}

/-- The root of a build leaves an orderly workshop. -/
theorem renderRoot_advances {author : Author} (hcall : IsSound cue author.call) {entry x : Value}
    {key : Option String} (hw : w.serving.Orderly cue)
    (h : renderRoot author entry key w = .ok x v) : w.serving.Advances cue v.serving := by
  unfold renderRoot at h
  split at h
  case h_2 => cases h
  case h_1 c =>
    obtain ⟨w', u, hget, h⟩ := bind_eq_ok.mp h
    cases hget
    obtain ⟨placeholders, u, hlift, h⟩ := bind_eq_ok.mp h
    obtain ⟨hplaceholders, rfl⟩ := lift_eq_ok.mp hlift
    cases Sigil.placeholders_eq_ok hplaceholders
    obtain ⟨result, u, hresult, h⟩ := bind_eq_ok.mp h
    obtain ⟨u, hcalled, rfl⟩ := serving_eq_ok hresult
    have hadvances : w.serving.Advances cue u :=
      (hcall _ _ _ _ _ hw (by simp) hcalled).1
    -- From here on no element is made, so the rest settles what the call left.
    suffices hsettles : Workshop.Settles { u with active := w.active } v by
      have hserving : u.Settles v.serving :=
        ⟨⟨hadvances.orderly.serves.symm, hsettles.like.sigil, hsettles.like.names⟩,
          hsettles.later, hsettles.size⟩
      exact hadvances.trans (hadvances.orderly.advances_of_settles hserving)
    split at h
    · obtain ⟨f, w1, hforest, h⟩ := bind_eq_ok.mp h
      obtain ⟨rfl, rfl⟩ := forest_eq_ok hforest
      obtain ⟨⟨b, e⟩, w2, hlift, h⟩ := bind_eq_ok.mp h
      obtain ⟨_, rfl⟩ := lift_eq_ok.mp hlift
      obtain ⟨i, w3, hwrap, h⟩ := bind_eq_ok.mp h
      obtain ⟨_, w4, hhooks, h⟩ := bind_eq_ok.mp h
      exact ((wrap_settles hwrap).1.trans (addHooks_settles hhooks)).trans (hooked_settles h).1
    · obtain ⟨i, w1, hwrap, h⟩ := bind_eq_ok.mp h
      exact (wrap_settles hwrap).1.trans (hooked_settles h).1
    · cases h

end Build

/-- The forest of a build after its entries were called is orderly. -/
theorem Program.renderEntries_advances {p : Program} {cue : Cue} (hp : p.IsNodeFree) :
    ∀ {entries : List Value} {seen : List String} {w v : Workshop} {ids : List Nat},
      w.serving.Orderly cue → p.renderEntries seen entries w = .ok ids v →
      w.serving.Advances cue v.serving
  | [], _, _, _, _, hw, h => by
    cases h
    exact .refl hw
  | entry :: entries, seen, w, v, ids, hw, h => by
    obtain ⟨x, u, hroot, h⟩ := bind_eq_ok.mp h
    have hadvances : w.serving.Advances cue u.serving :=
      Build.renderRoot_advances (callWithin_advances hp callDepth) hw hroot
    split at h
    · obtain ⟨f, w1, hforest, h⟩ := bind_eq_ok.mp h
      obtain ⟨rfl, rfl⟩ := Build.forest_eq_ok hforest
      obtain ⟨⟨b, e⟩, w2, hlift, h⟩ := bind_eq_ok.mp h
      obtain ⟨_, rfl⟩ := Build.lift_eq_ok.mp hlift
      by_cases hseen : seen.contains b.key = true
      · simp only [hseen, if_true] at h
        cases h
      · simp only [hseen] at h
        obtain ⟨is, w3, hrest, h⟩ := bind_eq_ok.mp h
        cases h
        exact hadvances.trans (renderEntries_advances hp hadvances.orderly hrest)
    · cases h

end Pageloom
