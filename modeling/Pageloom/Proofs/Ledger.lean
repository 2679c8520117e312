import Pageloom.Proofs.Finishing

/-!
# An account of the hooks of components

The hooks of an inline component wait, together with the element that it gave, until a component
is made whose boundary holds the element. If the element had no place when it was given, the
boundary around it is made later, and what it surrounds is settled by then; so the component
finds the element when it is made, and takes the hooks before any other can. Every hook of every
component is accounted for in this way: it was there before, or it came with a callable that gave
the component, or an inline component left it there.

## Main definitions

* `Pageloom.Splice` -- an inline component gave an element
* `Pageloom.Return.receiver?` -- the component that takes the hooks of a callable
* `Pageloom.Program.Ledger` -- what is accounted for in the course of an evaluation
* `Pageloom.Program.attending_ledger` -- evaluation keeps the account
-/

namespace Pageloom

/-! ## What is accounted for -/

/-- An inline component with hooks gave an element, which had a place at that moment or not. -/
structure Splice where
  element : Nat
  hooks : List Value
  isFree : Bool

/-- The splice that the end of a call is, if it is one. -/
def Return.splice? (p : Program) (r : Return) : Option Splice :=
  match r.result.nodeId? with
  | some (.element e) =>
    if isInlineName r.callable.name && !(p.hooks r.callable).isEmpty then
      some ⟨e, p.hooks r.callable, decide (r.workshop.forest.IsFree (.element e))⟩
    else none
  | _ => none

/-- The component that the hooks of a callable go to: the one that it gave, or else the one that
is made of the element that it gave, which has the next number. -/
def Return.receiver? (r : Return) : Option Nat :=
  match r.result.nodeId? with
  | some (.component j) => if r.workshop.forest.Has (.component j) then some j else none
  | some (.element _) =>
    if isInlineName r.callable.name then none else some r.workshop.forest.components.size
  | none => none

namespace Program

/-- The splices whose hooks can be claimed: what waits from before, and those of the record. -/
def splices (p : Program) (start : Workshop) (returns : List Return) : List Splice :=
  (start.own.waiting.map fun entry => ⟨entry.1, entry.2, false⟩) ++
    returns.filterMap (Return.splice? p)

/-- The hooks that a component had before, and those that came with callables that gave it. -/
def given (p : Program) (start : Workshop) (returns : List Return) (j : Nat) : List Value :=
  start.forest.hooks j ++
    (returns.filter fun r => r.receiver? = some j).flatMap fun r => p.hooks r.callable

theorem splices_concat (p : Program) (start : Workshop) (returns : List Return) (r : Return) :
    p.splices start (returns ++ [r]) = p.splices start returns ++ (r.splice? p).toList := by
  unfold splices
  cases hr : r.splice? p <;> simp [hr]

theorem given_concat (p : Program) (start : Workshop) (returns : List Return) (r : Return)
    (j : Nat) : p.given start (returns ++ [r]) j = p.given start returns j ++
      if r.receiver? = some j then p.hooks r.callable else [] := by
  unfold given
  by_cases hr : r.receiver? = some j <;> simp [hr]

/-- The splices are divided into those whose hooks wait, those whose hooks went to the component
`j`, and those whose hooks went elsewhere. While a component is being made, hooks may wait for it
that it is about to claim. -/
structure Account (p : Program) (start : Workshop) (j : Nat) (pending : Option Nat) (w : Workshop)
    (returns : List Return) (waiting taken others : List Splice) : Prop where
  divides : (p.splices start returns).Perm (waiting ++ (taken ++ others))
  waits : w.own.waiting = waiting.map fun s => (s.element, s.hooks)
  unclaimed : ∀ s ∈ waiting, s.isFree = true →
    ∀ k, w.forest.Surrounds k s.element → pending = some k
  within : ∀ s ∈ taken, w.forest.Surrounds j s.element
  outside : ∀ s ∈ others, ∃ k, k ≠ j ∧ w.forest.Surrounds k s.element
  hooks : (w.forest.hooks j).Perm (p.given start returns j ++ taken.flatMap Splice.hooks)

/-- A workshop in the course of an evaluation, in which the hooks of the component `j` are
accounted for. Elements that had no place when they were given are not within the boundaries that
were there before. -/
structure Ledger (p : Program) (start : Workshop) (j : Nat) (pending : Option Nat) (w : Workshop)
    (returns : List Return) : Prop where
  active : w.active = .own
  layered : w.forest.Layered
  size : start.forest.components.size ≤ w.forest.components.size
  late : ∀ s ∈ p.splices start returns, s.isFree = true →
    ∀ k < start.forest.components.size, ¬ w.forest.Surrounds k s.element
  account : ∃ waiting taken others, p.Account start j pending w returns waiting taken others

/-- A component claims some of the hooks that wait, all of which are within its boundary. -/
theorem Account.claim {p : Program} {start w : Workshop} {i j root : Nat} {pending : Option Nat}
    {returns : List Return} {waiting claimed rest taken others : List Splice}
    (h : p.Account start j pending w returns waiting taken others)
    (hdivided : waiting.Perm (claimed ++ rest)) (hroot : w.forest.root? i = some root)
    (hclaimed : ∀ s ∈ claimed, w.forest.Surrounds i s.element)
    (hrest : ∀ s ∈ rest, s.isFree = true → ∀ k, ¬ w.forest.Surrounds k s.element) :
    ∃ taken others, p.Account start j none
      { w.withWaiting .own (rest.map fun s => (s.element, s.hooks)) with
        forest := w.forest.addHooks i (claimed.flatMap Splice.hooks) }
      returns rest taken others := by
  have hi := Forest.has_of_component_root? hroot
  have hdivides := h.divides.trans (hdivided.append_right _)
  have hunclaimed : ∀ s ∈ rest, s.isFree = true → ∀ k,
      (w.forest.addHooks i (claimed.flatMap Splice.hooks)).Surrounds k s.element → none = some k :=
    fun s hs hfree k hk => absurd (Forest.surrounds_addHooks.mp hk) (hrest s hs hfree k)
  by_cases hij : j = i
  · refine ⟨taken ++ claimed, others, ?_, rfl, hunclaimed, fun s hs => ?_, fun s hs => ?_, ?_⟩
    · rw [List.append_assoc] at hdivides ⊢
      exact hdivides.trans ((List.perm_append_comm_assoc _ _ _).trans
        ((List.perm_append_comm_assoc _ _ _).append_left _))
    · refine Forest.surrounds_addHooks.mpr ?_
      rcases List.mem_append.mp hs with hold | hnew
      · exact h.within s hold
      · exact hij ▸ hclaimed s hnew
    · exact (h.outside s hs).imp fun k hk => ⟨hk.1, Forest.surrounds_addHooks.mpr hk.2⟩
    · have hhooks := h.hooks.append_right (claimed.flatMap Splice.hooks)
      rw [List.append_assoc, ← List.flatMap_append] at hhooks
      rw [Forest.hooks_addHooks, if_pos ⟨hij, hi⟩]
      exact hhooks
  · refine ⟨taken, others ++ claimed, ?_, rfl, hunclaimed, fun s hs => ?_, fun s hs => ?_, ?_⟩
    · rw [List.append_assoc] at hdivides
      rw [← List.append_assoc taken]
      exact hdivides.trans ((List.perm_append_comm_assoc _ _ _).trans
        (List.perm_append_comm.append_left _))
    · exact Forest.surrounds_addHooks.mpr (h.within s hs)
    · rcases List.mem_append.mp hs with hold | hnew
      · exact (h.outside s hold).imp fun k hk => ⟨hk.1, Forest.surrounds_addHooks.mpr hk.2⟩
      · exact ⟨i, Ne.symm hij, Forest.surrounds_addHooks.mpr (hclaimed s hnew)⟩
    · rw [Forest.hooks_addHooks, if_neg fun hboth => hij hboth.1]
      exact h.hooks

namespace Ledger

variable {p : Program} {start w v : Workshop} {j : Nat} {pending : Option Nat}
  {returns : List Return} {r : Return}

theorem not_isFree_of_nil {s : Splice} (hs : s ∈ p.splices start []) : s.isFree = false := by
  simp only [splices, List.filterMap_nil, List.append_nil] at hs
  obtain ⟨entry, _, rfl⟩ := List.mem_map.mp hs
  rfl

theorem ofStart (hstart : start.forest.Layered) :
    p.Ledger start j none { start with active := .own } [] where
  active := rfl
  layered := hstart
  size := Nat.le_refl _
  late s hs hfree := by
    rw [not_isFree_of_nil hs] at hfree
    cases hfree
  account := by
    refine ⟨p.splices start [], [], [], by simp, ?_, fun s hs hfree => ?_, by simp, by simp,
      by simp [given]⟩
    · simp [splices, Function.comp_def]
    · rw [not_isFree_of_nil hs] at hfree
      cases hfree

/-- A workshop that looks the same, as far as the account is concerned. -/
theorem congr (h : p.Ledger start j pending w returns) (hactive : v.active = w.active)
    (hlayered : v.forest.Layered)
    (hsize : v.forest.components.size = w.forest.components.size)
    (hwaiting : v.own.waiting = w.own.waiting)
    (hsurrounds : ∀ k i, v.forest.Surrounds k i ↔ w.forest.Surrounds k i)
    (hhooks : v.forest.hooks = w.forest.hooks) : p.Ledger start j pending v returns where
  active := hactive.trans h.active
  layered := hlayered
  size := hsize ▸ h.size
  late s hs hfree k hk hkin := h.late s hs hfree k hk ((hsurrounds k _).mp hkin)
  account := by
    obtain ⟨waiting, taken, others, ha⟩ := h.account
    exact ⟨waiting, taken, others,
      { divides := ha.divides
        waits := hwaiting.trans ha.waits
        unclaimed := fun s hs hfree k hk => ha.unclaimed s hs hfree k ((hsurrounds k _).mp hk)
        within := fun s hs => (hsurrounds j _).mpr (ha.within s hs)
        outside := fun s hs => (ha.outside s hs).imp fun k hk =>
          ⟨hk.1, (hsurrounds k _).mpr hk.2⟩
        hooks := hhooks ▸ ha.hooks }⟩

theorem weaken (h : p.Ledger start j none w returns) (c : Nat) :
    p.Ledger start j (some c) w returns where
  active := h.active
  layered := h.layered
  size := h.size
  late := h.late
  account := by
    obtain ⟨waiting, taken, others, ha⟩ := h.account
    refine ⟨waiting, taken, others, { ha with unclaimed := fun s hs hfree k hk => ?_ }⟩
    cases ha.unclaimed s hs hfree k hk

/-- The end of a call that concerns no component. -/
theorem pass (h : p.Ledger start j pending w returns) (hsplice : r.splice? p = none)
    (hreceiver : r.receiver? = none) : p.Ledger start j pending w (returns ++ [r]) where
  active := h.active
  layered := h.layered
  size := h.size
  late := by
    rw [splices_concat, hsplice]
    simpa using h.late
  account := by
    obtain ⟨waiting, taken, others, ha⟩ := h.account
    refine ⟨waiting, taken, others, { ha with divides := ?_, hooks := ?_ }⟩
    · rw [splices_concat, hsplice]
      simpa using ha.divides
    · rw [given_concat, hreceiver]
      simpa using ha.hooks

/-- The hooks of a callable go to the component `c`. -/
theorem lend (h : p.Ledger start j pending w returns) {c : Nat} (hsplice : r.splice? p = none)
    (hreceiver : ∀ i, r.receiver? = some i ↔ i = c ∧ w.forest.Has (.component c)) :
    p.Ledger start j pending { w with forest := w.forest.addHooks c (p.hooks r.callable) }
      (returns ++ [r]) := by
  have hsplices : p.splices start (returns ++ [r]) = p.splices start returns := by
    rw [splices_concat, hsplice]
    simp
  refine ⟨h.active, h.layered.addHooks _ _, ?_, fun s hs hfree k hk hkin => ?_, ?_⟩
  · exact Nat.le_trans h.size (Nat.le_of_eq Array.size_modify.symm)
  · exact h.late s (hsplices ▸ hs) hfree k hk (Forest.surrounds_addHooks.mp hkin)
  · obtain ⟨waiting, taken, others, ha⟩ := h.account
    refine ⟨waiting, taken, others, hsplices ▸ ha.divides, ha.waits,
      fun s hs hfree k hk => ha.unclaimed s hs hfree k (Forest.surrounds_addHooks.mp hk),
      fun s hs => Forest.surrounds_addHooks.mpr (ha.within s hs),
      fun s hs => (ha.outside s hs).imp fun k hk => ⟨hk.1, Forest.surrounds_addHooks.mpr hk.2⟩, ?_⟩
    rw [given_concat, Forest.hooks_addHooks]
    by_cases hj : j = c ∧ w.forest.Has (.component c)
    · rw [if_pos hj, if_pos ((hreceiver j).mpr hj), List.append_assoc]
      refine (ha.hooks.append_right _).trans ?_
      rw [List.append_assoc]
      exact List.perm_append_comm.append_left _
    · rw [if_neg hj, if_neg fun hr => hj ((hreceiver j).mp hr), List.append_nil]
      exact ha.hooks

/-- The hooks of an inline callable begin to wait. -/
theorem wait (h : p.Ledger start j none w returns) {e : Nat} {hooks : List Value}
    (hsplice : r.splice? p = some ⟨e, hooks, decide (w.forest.IsFree (.element e))⟩)
    (hreceiver : r.receiver? = none) :
    p.Ledger start j none (w.withWaiting .own (w.own.waiting ++ [(e, hooks)]))
      (returns ++ [r]) := by
  -- An element without a place is not within any boundary.
  have hfree : decide (w.forest.IsFree (.element e)) = true →
      ∀ k, ¬ w.forest.Surrounds k e := fun hfree k hk =>
    h.layered.not_isFree_of_surrounds hk (of_decide_eq_true hfree)
  refine ⟨h.active, h.layered, h.size, ?_, ?_⟩
  · rw [splices_concat, hsplice]
    intro s hs hsfree k hk
    rcases List.mem_append.mp hs with hold | hnew
    · exact h.late s hold hsfree k hk
    · cases List.mem_singleton.mp hnew
      exact hfree hsfree k
  · obtain ⟨waiting, taken, others, ha⟩ := h.account
    refine ⟨waiting ++ [⟨e, hooks, decide (w.forest.IsFree (.element e))⟩], taken, others, ?_, ?_,
      ?_, ha.within, ha.outside, ?_⟩
    · rw [splices_concat, hsplice, List.append_assoc]
      refine (ha.divides.append_right _).trans ?_
      rw [List.append_assoc]
      exact List.perm_append_comm.append_left _
    · have hown : (w.withWaiting .own (w.own.waiting ++ [(e, hooks)])).own.waiting =
          w.own.waiting ++ [(e, hooks)] := rfl
      rw [hown, ha.waits, List.map_append]
      rfl
    · intro s hs hsfree k hk
      rcases List.mem_append.mp hs with hold | hnew
      · exact ha.unclaimed s hold hsfree k hk
      · cases List.mem_singleton.mp hnew
        exact absurd hk (hfree hsfree k)
    · rw [given_concat, hreceiver]
      simpa using ha.hooks

/-- A component is made, and is about to claim the hooks that wait within its boundary. -/
theorem wrap (h : p.Ledger start j none w returns) {e i : Nat} {key : String}
    {parameters : List String} {g : Forest} (he : w.forest.Has (.element e))
    (hadd : w.forest.addComponent e key parameters = .ok (g, i)) :
    p.Ledger start j (some i) { w with forest := g } returns := by
  have hlayered := h.layered.addComponent he hadd
  obtain ⟨hlater, _, _⟩ := Forest.extends_addComponent hadd
  obtain ⟨_, _, _, _, hroot, _⟩ := Forest.addComponent_views he hadd
  obtain ⟨_, hi, hg⟩ := Forest.addComponent_eq_ok hadd
  have hold : ∀ {k : Nat}, k ≠ i → ∀ a, g.Surrounds k a ↔ w.forest.Surrounds k a := by
    intro k hk a
    refine hlater.surrounds_iff h.layered.toLinked hlayered.toLinked ?_
    rw [hroot, if_neg (hi ▸ hk)]
  have hmono : ∀ {k a : Nat}, w.forest.Surrounds k a → g.Surrounds k a := by
    intro k a hk
    have hne : k ≠ i := by
      rintro rfl
      obtain ⟨_, hr, _⟩ := hk
      rw [hi, Forest.root?_size] at hr
      cases hr
    exact (hold hne a).mpr hk
  refine ⟨h.active, hlayered, ?_, fun s hs hfree k hk hkin => ?_, ?_⟩
  · rw [hg]
    exact Nat.le_trans h.size (by simp [Forest.modifyElement])
  · have hne : k ≠ i := hi ▸ Nat.ne_of_lt (Nat.lt_of_lt_of_le hk h.size)
    exact h.late s hs hfree k hk ((hold hne _).mp hkin)
  · obtain ⟨waiting, taken, others, ha⟩ := h.account
    refine ⟨waiting, taken, others, ha.divides, ha.waits, fun s hs hfree k hk => ?_,
      fun s hs => hmono (ha.within s hs),
      fun s hs => (ha.outside s hs).imp fun k hk => ⟨hk.1, hmono hk.2⟩, ?_⟩
    · by_cases hne : k = i
      · rw [hne]
      · cases ha.unclaimed s hs hfree k ((hold hne _).mp hk)
    · rw [Forest.hooks_addComponent hadd]
      exact ha.hooks

/-- The component claims what waits within its boundary, and nothing else. -/
theorem claim {i : Nat} (h : p.Ledger start j (some i) w returns) {a : Unit}
    (hclaim : Build.claim .own i w = .ok a v) : p.Ledger start j none v returns := by
  obtain ⟨waiting, taken, others, ha⟩ := h.account
  rcases Build.claim_eq_ok hclaim with ⟨hnone, rfl⟩ | ⟨root, hroot, rfl⟩
  · have hnil : waiting = [] := List.map_eq_nil_iff.mp (ha.waits.symm.trans hnone)
    subst hnil
    exact ⟨h.active, h.layered, h.size, h.late, [], taken, others, { ha with unclaimed := by simp }⟩
  · have hroot : w.forest.root? i = some root := Forest.rootOf_component.mp hroot
    have hheld : ∀ e, (w.forest.ownElements root).contains e = true ↔ w.forest.Surrounds i e := by
      intro e
      rw [List.contains_iff_mem, h.layered.mem_ownElements (h.layered.has_of_root? hroot)]
      exact (Forest.surrounds_iff_of_root? hroot).symm
    have hwaiting : (w.builder .own).waiting = waiting.map fun s => (s.element, s.hooks) := ha.waits
    refine ⟨h.active, h.layered.addHooks _ _,
      Nat.le_trans h.size (Nat.le_of_eq Array.size_modify.symm),
      fun s hs hfree k hk hkin => h.late s hs hfree k hk (Forest.surrounds_addHooks.mp hkin), ?_⟩
    rw [hwaiting, List.filter_map, List.filter_map, List.flatMap_map]
    refine ⟨_, ha.claim (List.filter_append_perm _ _).symm hroot (fun s hs => ?_)
      fun s hs hfree k hk => ?_⟩
    · exact (hheld _).mp (List.mem_filter.mp hs).2
    · obtain ⟨hmem, hnot⟩ := List.mem_filter.mp hs
      cases ha.unclaimed s hmem hfree k hk
      simp only [Function.comp_apply, (hheld _).mpr hk] at hnot
      cases hnot

end Ledger

/-- **Evaluation keeps the account** of the hooks of every component. -/
theorem attending_ledger (p : Program) (start : Workshop) (j : Nat) :
    p.Attending (· = .own) (p.Ledger start j none) fun _ _ => True where
  active h := h.active
  weaken _ := trivial
  names _ h := h.congr rfl h.layered rfl rfl (fun _ _ => Iff.rfl) rfl
  raise seat h := ⟨_, h.layered.filling seat, fun _ hv => h.congr hv.active hv.layered
    hv.components (hv.waiting .own) (fun _ _ => hv.surrounds_iff h.layered) hv.hooks⟩
  spend _ _ _ := trivial
  finish {w returns seat} c result hseat h := by
    subst hseat
    refine Recorded.leaves_ofBuild (fun x v hfinish => ?_) fun _ _ _ => trivial
    obtain ⟨id, hid, hfinishes⟩ := Build.finish_eq_ok hfinish
    -- A component that was given takes the hooks, if it is there.
    have hgiven : ∀ {i : Nat}, result.nodeId? = some (.component i) → ∀ k,
        (⟨c, result, w⟩ : Return).receiver? = some k ↔ k = i ∧ w.forest.Has (.component i) := by
      intro i hi k
      simp only [Return.receiver?, hi]
      split
      · next hhas => simp [hhas, eq_comm]
      · next hhas => simp [hhas]
    cases hfinishes with
    | lend hinline => exact h.lend (by simp [Return.splice?, hid]) (hgiven hid)
    | pass hinline hnone =>
      exact h.pass (by simp [Return.splice?, hid, hnone]) (by simp [Return.receiver?, hid, hinline])
    | wait hinline hsome =>
      exact h.wait (by simp [Return.splice?, hid, hinline, hsome])
        (by simp [Return.receiver?, hid, hinline])
    | give hplain hclaimed =>
      exact ((h.lend (by simp [Return.splice?, hid]) (hgiven hid)).weaken _).claim hclaimed
    | wrap hplain hhas hmade hclaimed =>
      refine ((h.wrap hhas hmade).lend (r := ⟨c, result, w⟩)
        (by simp [Return.splice?, hid, hplain]) fun k => ?_).claim hclaimed
      have hnew : Forest.Has _ (.component w.forest.components.size) :=
        Forest.has_component.mpr ((Forest.extends_addComponent hmade).2.2.imp fun _ hk => hk.1)
      simp [Return.receiver?, hid, hplain, hnew, eq_comm]

end Program

end Pageloom
