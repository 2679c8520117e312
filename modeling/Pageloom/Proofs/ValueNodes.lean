import Pageloom.Program
import Pageloom.Proofs.Entries

/-!
# The nodes that a value holds

Authored code passes nodes on within lists, tables and properties. Whatever it does
with values other than building, the nodes of the values that come out are among
those of the values that went in.

## Main definitions

* `Pageloom.Value.nodes` -- the nodes that a value holds
* `Pageloom.Value.Among` -- a value all of whose nodes are of one sort
* `Pageloom.among_mergeChildren`, `Pageloom.among_leavesAll` -- what building
  does with properties and children
-/

namespace Pageloom

namespace Value

mutual

/-- The nodes that a value holds, at any depth. -/
def nodes : Value → List NodeId
  | .node h => [h.id]
  | .list xs => nodesOfItems xs
  | .tuple xs => nodesOfItems xs
  | .table es => nodesOfEntries es
  | .view es => nodesOfEntries es
  | .dictionary ps => nodesOfPairs ps
  | _ => []

/-- The nodes that the values of a list hold. -/
def nodesOfItems : List Value → List NodeId
  | [] => []
  | x :: xs => nodes x ++ nodesOfItems xs

/-- The nodes that the values of a table hold. -/
def nodesOfEntries : List (String × Value) → List NodeId
  | [] => []
  | (_, v) :: es => nodes v ++ nodesOfEntries es

/-- The nodes that the names and the values of a table hold. -/
def nodesOfPairs : List (Value × Value) → List NodeId
  | [] => []
  | (k, v) :: ps => nodes k ++ nodes v ++ nodesOfPairs ps

end

/-- All nodes that a value holds are of one sort. -/
def Among (P : NodeId → Prop) (v : Value) : Prop := ∀ id ∈ v.nodes, P id

variable {P Q : NodeId → Prop}

theorem Among.imp {v : Value} (h : v.Among P) (hPQ : ∀ id, P id → Q id) : v.Among Q :=
  fun id hid => hPQ id (h id hid)

@[simp] theorem among_none : Value.none.Among P := nofun

@[simp] theorem among_scalar (s : Scalar) : (Value.scalar s).Among P := nofun

@[simp] theorem among_handler (h : Handler) : (Value.handler h).Among P := nofun

@[simp] theorem among_callable (c : Callable) : (Value.callable c).Among P := nofun

@[simp] theorem among_node {h : Handle} : (Value.node h).Among P ↔ P h.id := by
  simp [Among, nodes]

theorem among_items {xs : List Value} : (∀ id ∈ nodesOfItems xs, P id) ↔ ∀ x ∈ xs, x.Among P := by
  induction xs with
  | nil => simp [nodesOfItems]
  | cons x xs ih => simp only [nodesOfItems, List.mem_append, or_imp, forall_and, ih,
      List.forall_mem_cons, Among]

theorem among_entries {es : List (String × Value)} :
    (∀ id ∈ nodesOfEntries es, P id) ↔ ∀ e ∈ es, e.2.Among P := by
  induction es with
  | nil => simp [nodesOfEntries]
  | cons e es ih => simp only [nodesOfEntries, List.mem_append, or_imp, forall_and, ih,
      List.forall_mem_cons, Among]

theorem among_pairs {ps : Pairs} :
    (∀ id ∈ nodesOfPairs ps, P id) ↔ ∀ e ∈ ps, e.1.Among P ∧ e.2.Among P := by
  induction ps with
  | nil => simp [nodesOfPairs]
  | cons e ps ih =>
    simp only [nodesOfPairs, List.mem_append, or_imp]
    rw [forall_and, forall_and, ih, List.forall_mem_cons]
    rfl

@[simp] theorem among_list {xs : List Value} : (Value.list xs).Among P ↔ ∀ x ∈ xs, x.Among P :=
  among_items

@[simp] theorem among_tuple {xs : List Value} : (Value.tuple xs).Among P ↔ ∀ x ∈ xs, x.Among P :=
  among_items

@[simp] theorem among_table {es : List (String × Value)} :
    (Value.table es).Among P ↔ ∀ e ∈ es, e.2.Among P := among_entries

@[simp] theorem among_view {es : List (String × Value)} :
    (Value.view es).Among P ↔ ∀ e ∈ es, e.2.Among P := among_entries

@[simp] theorem among_dictionary {ps : Pairs} :
    (Value.dictionary ps).Among P ↔ ∀ e ∈ ps, e.1.Among P ∧ e.2.Among P := among_pairs

/-! ## Tables -/

theorem among_ofEntries {es : Entries Value} (h : ∀ e ∈ es, e.2.Among P) :
    ∀ e ∈ Pairs.ofEntries es, e.1.Among P ∧ e.2.Among P := by
  simp only [Pairs.ofEntries, List.mem_map, forall_exists_index, and_imp]
  rintro _ e he rfl
  exact ⟨among_scalar _, h e he⟩

theorem among_pairs? {v : Value} {ps : Pairs} (hv : v.Among P) (h : v.pairs? = some ps) :
    ∀ e ∈ ps, e.1.Among P ∧ e.2.Among P := by
  cases v <;> simp only [pairs?, reduceCtorEq, Option.some.injEq] at h
  case table es =>
    subst h
    exact among_ofEntries (among_table.mp hv)
  case view es =>
    subst h
    exact among_ofEntries (among_view.mp hv)
  case dictionary ps' =>
    subst h
    exact among_dictionary.mp hv

theorem pairs?_of_ownPairs? {v : Value} {ps : Pairs} (h : v.ownPairs? = some ps) :
    v.pairs? = some ps := by
  cases v <;> simp_all [ownPairs?, pairs?]

end Value

open Value

variable {P : NodeId → Prop}

theorem among_get? {es : Entries Value} {name : String} {v : Value}
    (hes : ∀ e ∈ es, e.2.Among P) (h : es.get? name = some v) : v.Among P :=
  hes (name, v) (Entries.mem_of_get? h)

theorem among_ofPairs {pairs : List (String × Value)} (h : ∀ e ∈ pairs, e.2.Among P) :
    ∀ e ∈ Entries.ofPairs pairs, e.2.Among P := by
  intro e he
  obtain ⟨b, hb, heq⟩ := Entries.mem_ofPairs he
  exact heq ▸ h b hb

namespace Pairs

theorem among_get? {ps : Pairs} {name : String} {v : Value}
    (hps : ∀ e ∈ ps, e.1.Among P ∧ e.2.Among P) (h : ps.get? name = some v) : v.Among P := by
  induction ps with
  | nil => cases h
  | cons e ps ih =>
    rw [List.forall_mem_cons] at hps
    rw [get?] at h
    split at h
    · cases h
      exact hps.1.2
    · exact ih hps.2 h

theorem among_set {ps : Pairs} {k v : Value} (hps : ∀ e ∈ ps, e.1.Among P ∧ e.2.Among P)
    (hk : k.Among P) (hv : v.Among P) : ∀ e ∈ ps.set k v, e.1.Among P ∧ e.2.Among P := by
  induction ps with
  | nil => simpa [set] using ⟨hk, hv⟩
  | cons e ps ih =>
    rw [List.forall_mem_cons] at hps
    rw [set]
    split
    · rw [List.forall_mem_cons]
      exact ⟨⟨hps.1.1, hv⟩, hps.2⟩
    · rw [List.forall_mem_cons]
      exact ⟨hps.1, ih hps.2⟩

theorem among_toValue {ps : Pairs} (hps : ∀ e ∈ ps, e.1.Among P ∧ e.2.Among P) :
    ps.toValue.Among P := by
  unfold toValue
  split
  · simp only [among_table, texts, List.mem_filterMap, Option.map_eq_some_iff, forall_exists_index,
      and_imp]
    rintro _ e he name _ rfl
    exact (hps e he).2
  · exact among_dictionary.mpr hps

end Pairs

theorem among_pair? {x k v : Value} (hx : x.Among P) (h : x.pair? = .ok (k, v)) :
    k.Among P ∧ v.Among P := by
  unfold Value.pair? at h
  split at h
  case h_1 | h_2 =>
    cases h
    simpa using hx
  case h_3 | h_4 =>
    cases h
    exact ⟨among_scalar _, among_scalar _⟩
  case h_5 e f =>
    cases h
    have hpairs := among_dictionary.mp hx
    exact ⟨(hpairs e (by simp)).1, (hpairs f (by simp)).1⟩
  case h_6 =>
    split at h
    · cases h
      exact ⟨among_scalar _, among_scalar _⟩
    · cases h
  all_goals cases h

theorem among_writeAll {xs : List Value} {ps qs : Pairs} (hxs : ∀ x ∈ xs, x.Among P)
    (hps : ∀ e ∈ ps, e.1.Among P ∧ e.2.Among P) (h : Pairs.writeAll xs ps = .ok qs) :
    ∀ e ∈ qs, e.1.Among P ∧ e.2.Among P := by
  induction xs generalizing ps with
  | nil =>
    cases h
    exact hps
  | cons x xs ih =>
    rw [List.forall_mem_cons] at hxs
    rw [Pairs.writeAll] at h
    cases hpair : x.pair? with
    | error fault =>
      rw [hpair] at h
      cases h
    | ok pair =>
      obtain ⟨k, v⟩ := pair
      obtain ⟨hk, hv⟩ := among_pair? hxs.1 hpair
      rw [hpair] at h
      by_cases hkey : k.isKey = true
      · exact ih hxs.2 (Pairs.among_set hps hk hv) (by simpa [bind, Except.bind, hkey] using h)
      · simp [bind, Except.bind, hkey] at h

theorem among_entries_handler (h : Handler) : ∀ e ∈ h.entries, e.2.Among P := by
  cases h with
  | render component target => simp [Handler.entries]
  | call name arguments =>
    have harguments : (Value.table (arguments.map fun a => (a.1, .scalar a.2))).Among P := by
      refine among_table.mpr fun e he => ?_
      obtain ⟨a, _, rfl⟩ := List.mem_map.mp he
      exact among_scalar a.2
    intro e he
    simp only [Handler.entries, List.mem_cons, List.not_mem_nil, or_false] at he
    rcases he with rfl | rfl | rfl
    · exact among_scalar _
    · exact among_scalar _
    · exact harguments

theorem among_propertiesOf {props : Value} {ps : Pairs} (hprops : props.Among P)
    (h : propertiesOf props = .ok ps) : ∀ e ∈ ps, e.1.Among P ∧ e.2.Among P := by
  unfold propertiesOf at h
  split at h
  · cases h
    simp
  · split at h
    case h_1 =>
      cases h
      exact among_ofEntries (among_entries_handler _)
    case h_2 | h_3 => exact among_writeAll (by simpa using hprops) (by simp) h
    case h_4 => cases h
    case h_5 =>
      split at h
      · cases h
        exact among_pairs? hprops ‹_›
      · cases h

/-- The nodes that a component is called with are those of its properties and children. -/
theorem among_mergeChildren {props v : Value} {children : List Value} (hprops : props.Among P)
    (hchildren : ∀ c ∈ children, c.Among P) (h : mergeChildren props children = .ok v) :
    v.Among P := by
  unfold mergeChildren at h
  cases hentries : propertiesOf props with
  | error fault =>
    rw [hentries] at h
    cases h
  | ok ps =>
    rw [hentries] at h
    have hps : ∀ e ∈ ps.erase "children", e.1.Among P ∧ e.2.Among P :=
      fun e he => among_propertiesOf hprops hentries e (List.mem_filter.mp he).1
    cases h
    refine Pairs.among_toValue ?_
    split
    · exact hps
    · exact Pairs.among_set hps (among_scalar _) (hchildren _ (by simp))
    · exact Pairs.among_set hps (among_scalar _) (among_list.mpr hchildren)

/-! ## Children -/

mutual

theorem among_leaves : ∀ {v : Value}, v.Among P → ∀ x ∈ v.leaves, x.Among P
  | .list xs, h => by
    rw [Value.leaves]
    exact among_leavesAll (among_list.mp h)
  | .tuple xs, h => by
    rw [Value.leaves]
    exact among_leavesAll (among_tuple.mp h)
  | .none, h | .scalar _, h | .brokenText _, h | .table _, h | .view _, h | .dictionary _, h
  | .handler _, h | .bytes _, h | .emptySet, h | .moment _, h | .callable _, h | .node _, h
  | .foreign _, h => by
    simp only [Value.leaves, List.forall_mem_singleton]
    exact h

theorem among_leavesAll : ∀ {xs : List Value}, (∀ x ∈ xs, x.Among P) →
    ∀ x ∈ Value.leavesAll xs, x.Among P
  | [], _ => by simp [Value.leavesAll]
  | x :: xs, h => by
    rw [List.forall_mem_cons] at h
    rw [Value.leavesAll, List.forall_mem_append]
    exact ⟨among_leaves h.1, among_leavesAll h.2⟩

end

theorem among_items? {v : Value} {xs : List Value} (hv : v.Among P) (h : v.items? = some xs) :
    ∀ x ∈ xs, x.Among P := by
  cases v <;> simp only [Value.items?, reduceCtorEq, Option.some.injEq] at h
  case list | tuple =>
    subst h
    simpa using hv

theorem among_childrenOf {given : Option Value} (h : ∀ v, given = some v → v.Among P) :
    ∀ x ∈ childrenOf given, x.Among P := by
  unfold childrenOf
  split
  · simp
  · simp
  case h_3 v _ =>
    have hv := h v rfl
    cases hitems : v.items? with
    | none => simpa using hv
    | some xs => exact among_items? hv hitems

/-! ## Frames -/

namespace Frame

variable {f : Frame}

theorem among_first (h : ∀ v ∈ f.arguments, v.Among P) : f.first.Among P := by
  unfold first
  cases hhead : f.arguments.head? with
  | none => exact among_none
  | some v => exact h v (List.mem_of_mem_head? hhead)

theorem among_prop? {name : String} {v : Value} (h : ∀ v ∈ f.arguments, v.Among P)
    (hprop : f.prop? name = some v) : v.Among P := by
  obtain ⟨ps, hps, hget⟩ := Option.bind_eq_some_iff.mp hprop
  exact Pairs.among_get? (among_pairs? (among_first h) (pairs?_of_ownPairs? hps)) hget

theorem among_param {name : String} (h : ∀ v ∈ f.arguments, v.Among P) :
    (f.param name).Among P := by
  unfold param
  split
  · cases hget : f.arguments[f.parameters.idxOf name]? with
    | none => exact among_none
    | some v => exact h v (List.mem_of_getElem? hget)
  · exact among_none

end Frame

theorem Inherent.among_gives {name : String} {i : Inherent} {v : Value}
    (hname : Inherent.ofName? name = some i) (h : i.gives = .ok v) : v.Among P := by
  have hall : (Inherent.all.all fun e =>
      match e.2.gives with
      | .ok v => v.nodes.isEmpty
      | .error _ => true) = true := by decide
  have hempty := List.all_eq_true.mp hall _ (Entries.mem_of_get? hname)
  rw [h, List.isEmpty_iff] at hempty
  simp [Value.Among, hempty]

end Pageloom
