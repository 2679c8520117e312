import Pageloom.Proofs.Ledger

/-!
# Where the hooks of inline components end up

The root of a build is a component around what the entry gave. It takes over the hooks of a
component that was given, but not those of the component that an element belongs to already. An
entry that gives such an element has a root that lacks the hooks of its own boundary. In all other
builds the account of the evaluation holds of the finished tree: the hooks of an inline component
are with the component whose boundary holds its element, once for each time that it was called, and
with no other.

## Main definitions

* `Pageloom.Workshop.Roots` -- a workshop with the root of a build
* `Pageloom.Program.Accounts` -- the hooks of a component, as an evaluation accounts for them
* `Pageloom.Program.inline_hooks_settle` -- the hooks of a tree once its root is made
-/

namespace Pageloom

section

open scoped Classical

/-- A workshop `v` with a component more than the workshop `u`: the root of a build, which is made
around the element `e`, and gains hooks. -/
structure Workshop.Roots (u v : Workshop) (e : Nat) (gained : List Value) : Prop where
  layered : v.forest.Layered
  parent : v.forest.parent? = u.forest.parent?
  children : v.forest.children = u.forest.children
  root : ∀ j, v.forest.root? j =
    if j = u.forest.components.size then some e else u.forest.root? j
  hooks : ∀ j, v.forest.hooks j =
    if j = u.forest.components.size then gained else u.forest.hooks j

/-- A claim changes hooks only, and only those of the component that claims. -/
theorem Forest.Layered.claim {w v : Workshop} (hw : w.forest.Layered) {i r : Nat} {a : Unit}
    (hroot : w.forest.root? i = some r) (hclaim : Build.claim .own i w = .ok a v) :
    v.forest.Layered ∧ v.forest.parent? = w.forest.parent? ∧
      v.forest.children = w.forest.children ∧ v.forest.root? = w.forest.root? ∧
      ∀ j, v.forest.hooks j = w.forest.hooks j ++ if j = i then (w.own.waiting.filter fun entry =>
        Relation.ReflTransGen w.forest.Upwards entry.1 r).flatMap Prod.snd else [] := by
  rcases Build.claim_eq_ok hclaim with ⟨hwaiting, rfl⟩ | ⟨r', hr', rfl⟩
  · have hnone : v.own.waiting = [] := hwaiting
    exact ⟨hw, rfl, rfl, rfl, by simp [hnone]⟩
  · cases Option.some.inj (hroot.symm.trans (Forest.rootOf_component.mp hr'))
    have hhas := Forest.has_of_component_root? hroot
    have hheld : (fun entry : Nat × List Value => (w.forest.ownElements r).contains entry.1) =
        fun entry => decide (Relation.ReflTransGen w.forest.Upwards entry.1 r) := by
      funext entry
      rw [← decide_eq_decide.mpr (hw.mem_ownElements (hw.has_of_root? hroot)), List.contains_eq_mem]
    obtain ⟨hparent, hsame, _⟩ := w.forest.addHooks_views i (((w.builder .own).waiting.filter
      fun entry => (w.forest.ownElements r).contains entry.1).flatMap Prod.snd)
    refine ⟨hw.addHooks _ _, hparent, rfl, hsame, fun j => ?_⟩
    dsimp only
    rw [Forest.hooks_addHooks, hheld]
    by_cases hj : j = i
    · rw [if_pos ⟨hj, hhas⟩, if_pos hj]
      rfl
    · rw [if_neg fun hboth => hj hboth.1, if_neg hj, List.append_nil]

namespace Workshop.Roots

variable {u v : Workshop} {e : Nat} {gained : List Value}

/-- The root claims what waits within the element that it is made around. -/
theorem ofClaim {g : Forest} {name : String} {parameters : List String} {hooks : List Value}
    {active : Seat} (hu : u.forest.Layered) (he : u.forest.Has (.element e))
    (hadd : u.forest.addComponent e name parameters = .ok (g, u.forest.components.size))
    (hclaim : Build.claim .own u.forest.components.size
      { u with active, forest := g.addHooks u.forest.components.size hooks } = .ok () v) :
    u.Roots v e (hooks ++ (u.own.waiting.filter fun entry =>
      Relation.ReflTransGen u.forest.Upwards entry.1 e).flatMap Prod.snd) := by
  obtain ⟨_, hparent, hchildren, _, hroot, _⟩ := Forest.addComponent_views he hadd
  obtain ⟨hparent', hroot', _⟩ := g.addHooks_views u.forest.components.size hooks
  have hclaims : (g.addHooks u.forest.components.size hooks).root? u.forest.components.size =
      some e := by rw [hroot', hroot, if_pos rfl]
  obtain ⟨hv, hvparent, hvchildren, hvroot, hvhooks⟩ :=
    ((hu.addComponent he hadd).addHooks _ _).claim hclaims hclaim
  have hup : (g.addHooks u.forest.components.size hooks).Upwards = u.forest.Upwards := by
    unfold Forest.Upwards
    rw [hparent', hparent]
  refine ⟨hv, hvparent.trans (hparent'.trans hparent), hvchildren.trans hchildren, fun j => ?_,
    fun j => ?_⟩
  · rw [hvroot, hroot', hroot]
  · have hhas : g.Has (.component u.forest.components.size) :=
      Forest.has_component.mpr ((Forest.extends_addComponent hadd).2.2.imp fun _ hk => hk.1)
    have hnone : u.forest.hooks u.forest.components.size = [] := by simp [Forest.hooks]
    rw [hvhooks, hup, Forest.hooks_addHooks, Forest.hooks_addComponent hadd]
    by_cases hj : j = u.forest.components.size
    · rw [if_pos ⟨hj, hhas⟩, if_pos hj, if_pos hj, hj, hnone, List.nil_append]
    · rw [if_neg fun hboth => hj hboth.1, if_neg hj, if_neg hj, List.append_nil]

theorem surrounds_root (h : u.Roots v e gained) {i : Nat} :
    v.forest.Surrounds u.forest.components.size i ↔
      Relation.ReflTransGen u.forest.Upwards i e := by
  have hroot : v.forest.root? u.forest.components.size = some e := by rw [h.root, if_pos rfl]
  rw [Forest.surrounds_iff_of_root? hroot]
  unfold Forest.Upwards
  rw [h.parent]

theorem surrounds_of_ne (h : u.Roots v e gained) {i j : Nat} (hj : j ≠ u.forest.components.size) :
    v.forest.Surrounds j i ↔ u.forest.Surrounds j i := by
  unfold Forest.Surrounds Forest.Upwards
  rw [h.root, if_neg hj, h.parent]

end Workshop.Roots

/-! ## Trees and their hooks -/

namespace Forest

/-- An element is in the tree of a component. -/
def TreeElement (f : Forest) (root i : Nat) : Prop :=
  ∃ r, f.root? root = some r ∧ Relation.ReflTransGen f.Below r i

/-- A component is the one that a tree belongs to, or nested in it. -/
def TreeComponent (f : Forest) (root j : Nat) : Prop :=
  j = root ∨ ∃ i, f.TreeElement root i ∧ .component j ∈ f.children i

/-- Every element of a tree is within the boundary of a component of the tree. -/
theorem TreeElement.exists_surrounds {f : Forest} (h : f.Linked) {root i : Nat}
    (hi : f.TreeElement root i) : ∃ j, f.TreeComponent root j ∧ f.Surrounds j i := by
  obtain ⟨r, hr, hreach⟩ := hi
  induction hreach with
  | refl => exact ⟨root, .inl rfl, r, hr, .refl⟩
  | @tail a b hra hab ih =>
    rcases below_cases.mp hab with hchild | ⟨k, hchild, hroot⟩
    · obtain ⟨j, hj, t, ht, hup⟩ := ih
      exact ⟨j, hj, t, ht, .head (h.upwards_iff.mpr hchild) hup⟩
    · exact ⟨k, .inr ⟨a, ⟨r, hr, hra⟩, hchild⟩, b, hroot, .refl⟩

/-- A component that is nested in a tree has another root than the tree. -/
theorem TreeComponent.root?_ne {f : Forest} (h : f.Layered) {root j r : Nat}
    (hj : f.TreeComponent root j) (hne : j ≠ root) (hr : f.root? root = some r) :
    f.root? j ≠ some r := by
  intro hjr
  rcases hj with heq | ⟨i, ⟨r', hr', hreach⟩, hchild⟩
  · exact hne heq
  · cases Option.some.inj (hr.symm.trans hr')
    have hle : i ≤ r := by
      clear hchild hjr
      induction hreach with
      | refl => exact Nat.le_refl r
      | tail _ hstep ih => exact Nat.le_trans (Nat.le_of_lt (h.lower _ _ hstep)) ih
    exact absurd (h.lower i r (below_cases.mpr (.inr ⟨j, hchild, hjr⟩))) (Nat.not_lt.mpr hle)

end Forest

/-- What a component took, and some of what waits for it, is what was free when it was given, and
strays. -/
theorem Splice.exists_strays (extra : List Splice) {all waiting taken others : List Splice}
    {P : Splice → Prop}
    (hall : all.Perm (waiting ++ (taken ++ others)))
    (hwaiting : ∀ s ∈ waiting, s.isFree = true → ¬ P s) (htaken : ∀ s ∈ taken, P s)
    (hothers : ∀ s ∈ others, s.isFree = true → ¬ P s) (hextra : extra.Sublist waiting)
    (hwithin : ∀ s ∈ extra, P s) :
    ∃ strays, strays.Subperm (all.filter fun s => s.isFree = false ∧ P s) ∧
      (taken ++ extra).Perm ((all.filter fun s => s.isFree = true ∧ P s) ++ strays) := by
  have hfree : (all.filter fun s => s.isFree = true ∧ P s).Perm (taken.filter Splice.isFree) := by
    refine (hall.filter _).trans (.of_eq ?_)
    have hnone : ∀ {ss : List Splice}, (∀ s ∈ ss, s.isFree = true → ¬ P s) →
        ss.filter (fun s => s.isFree = true ∧ P s) = [] := by
      intro ss hss
      simpa [List.filter_eq_nil_iff] using hss
    rw [List.filter_append, List.filter_append, hnone hwaiting, hnone hothers, List.nil_append,
      List.append_nil]
    refine List.filter_congr fun s hs => ?_
    simp [htaken s hs]
  refine ⟨taken.filter (fun s => !s.isFree) ++ extra, ?_, ?_⟩
  · have hall : (all.filter fun s => s.isFree = false ∧ P s).Perm _ := hall.filter _
    refine List.Subperm.trans ?_ hall.symm.subperm
    rw [List.filter_append, List.filter_append]
    have htake : taken.filter (fun s => !s.isFree) =
        taken.filter fun s => s.isFree = false ∧ P s := by
      refine List.filter_congr fun s hs => ?_
      simp [htaken s hs]
    have hstray : extra.filter (fun s => s.isFree = false ∧ P s) = extra := by
      refine List.filter_eq_self.mpr fun s hs => ?_
      have hnot : s.isFree ≠ true := fun hs' => hwaiting s (hextra.subset hs) hs' (hwithin s hs)
      simp [hwithin s hs, hnot]
    rw [htake]
    refine List.perm_append_comm.subperm.trans (List.Sublist.subperm ?_)
    exact (hstray ▸ hextra.filter _).append (List.sublist_append_left _ _)
  · refine ((List.filter_append_perm Splice.isFree taken).symm.append_right extra).trans ?_
    rw [List.append_assoc]
    exact hfree.symm.append_right _

namespace Program

variable {p : Program} {c : Callable} {start u v : Workshop} {result : Value}
  {returns : List Return} {e j : Nat} {gained : List Value}

/-- The hooks that the root of a build takes over from the component that the entry gave, if it
gave one, and those of the entry. -/
def givenRoot (p : Program) (c : Callable) (start : Workshop) (result : Value)
    (returns : List Return) : List Value :=
  (match result.nodeId? with
    | some (.component r) => p.given start returns r
    | _ => []) ++ p.hooks c

/-- Where components have roots of their own, an element that was free when it was given is within
the boundary of one component only. -/
theorem Ledger.surrounds_unique (h : p.Ledger start j none u returns)
    (hsole : ∀ j k r, start.forest.components.size ≤ j → u.forest.root? j = some r →
      u.forest.root? k = some r → k = j) {s : Splice} (hs : s ∈ p.splices start returns)
    (hfree : s.isFree = true) {i k : Nat} (hi : u.forest.Surrounds i s.element)
    (hk : u.forest.Surrounds k s.element) : k = i := by
  have hnew : start.forest.components.size ≤ i :=
    Nat.not_lt.mp fun hlt => h.late s hs hfree i hlt hi
  have hsame := h.layered.root?_eq_of_surrounds hi hk
  obtain ⟨r, hr, _⟩ := hi
  exact hsole i k r hnew hr (hsame ▸ hr)

/-- The hooks of a component, as the splices account for them. -/
def Accounts (p : Program) (start v : Workshop) (returns : List Return) (j : Nat)
    (given : List Value) : Prop :=
  ∃ strays : List Splice,
    strays.Subperm ((p.splices start returns).filter fun s =>
      s.isFree = false ∧ v.forest.Surrounds j s.element) ∧
    (v.forest.hooks j).Perm (given ++ (((p.splices start returns).filter fun s =>
      s.isFree = true ∧ v.forest.Surrounds j s.element).flatMap Splice.hooks ++
        strays.flatMap Splice.hooks))

/-- Components that callables made. -/
theorem Ledger.accounts (h : p.Ledger start j none u returns)
    (hsole : ∀ j k r, start.forest.components.size ≤ j → u.forest.root? j = some r →
      u.forest.root? k = some r → k = j) (hv : u.Roots v e gained)
    (hj : j ≠ u.forest.components.size) :
    p.Accounts start v returns j (p.given start returns j) := by
  obtain ⟨waiting, taken, others, ha⟩ := h.account
  have hmem : ∀ s ∈ others, s ∈ p.splices start returns := fun s hs =>
    ha.divides.mem_iff.mpr (List.mem_append_right _ (List.mem_append_right _ hs))
  obtain ⟨strays, hstrays, hperm⟩ := Splice.exists_strays []
    (P := fun s => v.forest.Surrounds j s.element) ha.divides
    (fun s hs hfree hsj => by cases ha.unclaimed s hs hfree j ((hv.surrounds_of_ne hj).mp hsj))
    (fun s hs => (hv.surrounds_of_ne hj).mpr (ha.within s hs))
    (fun s hs hfree hsj => by
      obtain ⟨k, hk, hsk⟩ := ha.outside s hs
      exact hk (h.surrounds_unique hsole (hmem s hs) hfree ((hv.surrounds_of_ne hj).mp hsj) hsk))
    (List.nil_sublist _) (by simp)
  refine ⟨strays, hstrays, ?_⟩
  rw [List.append_nil] at hperm
  rw [hv.hooks, if_neg hj, ← List.flatMap_append]
  exact ha.hooks.trans ((hperm.flatMap_right _).append_left _)

/-- The hooks that wait within an element are those of splices. -/
theorem Account.claimed_eq {pending : Option Nat} {w : Workshop}
    {waiting taken others : List Splice}
    (h : p.Account start j pending w returns waiting taken others) (e : Nat) :
    (w.own.waiting.filter fun entry =>
        Relation.ReflTransGen w.forest.Upwards entry.1 e).flatMap Prod.snd =
      (waiting.filter fun s =>
        Relation.ReflTransGen w.forest.Upwards s.element e).flatMap Splice.hooks := by
  rw [h.waits, List.filter_map, List.flatMap_map]
  rfl

/-- The root of a build, where the entry gave an element that belongs to no component. -/
theorem Ledger.accounts_element (h : p.Ledger start u.forest.components.size none u returns)
    (hparent : u.forest.parent? (.element e) = none) (howner : u.forest.owner? e = none)
    {hooks : List Value} (hv : u.Roots v e (hooks ++ (u.own.waiting.filter fun entry =>
      Relation.ReflTransGen u.forest.Upwards entry.1 e).flatMap Prod.snd)) :
    p.Accounts start v returns u.forest.components.size hooks := by
  obtain ⟨waiting, taken, others, ha⟩ := h.account
  have hnil : taken = [] := by
    refine List.eq_nil_iff_forall_not_mem.mpr fun s hs => ?_
    obtain ⟨r, hr, _⟩ := ha.within s hs
    rw [Forest.root?_size] at hr
    cases hr
  subst hnil
  have hdivided := (List.filter_append_perm
    (fun s => decide (Relation.ReflTransGen u.forest.Upwards s.element e)) waiting).symm
  have hdivides := (ha.divides.trans (hdivided.append_right _)).trans
    ((List.perm_append_comm.append_right _).trans (.of_eq (List.append_assoc _ _ _)))
  obtain ⟨strays, hstrays, hperm⟩ := Splice.exists_strays []
    (P := fun s => v.forest.Surrounds u.forest.components.size s.element) hdivides
    (fun s hs _ hsurrounds => by
      simpa [hv.surrounds_root.mp hsurrounds] using (List.mem_filter.mp hs).2)
    (fun s hs => hv.surrounds_root.mpr (of_decide_eq_true (List.mem_filter.mp hs).2))
    (fun s hs _ hsurrounds => by
      obtain ⟨k, _, r, hr, hup⟩ := ha.outside s hs
      cases Forest.eq_of_upwards hup (hv.surrounds_root.mp hsurrounds) (h.layered.parent?_root hr)
        hparent
      have hsome := h.layered.owned_of_root k e hr
      rw [howner] at hsome
      cases hsome)
    (List.nil_sublist _) (by simp)
  refine ⟨strays, hstrays, ?_⟩
  rw [List.append_nil] at hperm
  rw [hv.hooks, if_pos rfl, ha.claimed_eq, ← List.flatMap_append]
  exact (hperm.flatMap_right _).append_left _

/-- The root of a build, where the entry gave a component. -/
theorem Ledger.accounts_component {r : Nat} (h : p.Ledger start r none u returns)
    (hsole : ∀ j k r, start.forest.components.size ≤ j → u.forest.root? j = some r →
      u.forest.root? k = some r → k = j) (hr : u.forest.root? r = some e)
    {hooks : List Value} (hv : u.Roots v e (u.forest.hooks r ++ hooks ++
      (u.own.waiting.filter fun entry =>
        Relation.ReflTransGen u.forest.Upwards entry.1 e).flatMap Prod.snd)) :
    p.Accounts start v returns u.forest.components.size (p.given start returns r ++ hooks) := by
  obtain ⟨waiting, taken, others, ha⟩ := h.account
  have hsurrounds : ∀ {i : Nat}, v.forest.Surrounds u.forest.components.size i ↔
      u.forest.Surrounds r i := hv.surrounds_root.trans (Forest.surrounds_iff_of_root? hr).symm
  have hmem : ∀ s ∈ others, s ∈ p.splices start returns := fun s hs =>
    ha.divides.mem_iff.mpr (List.mem_append_right _ (List.mem_append_right _ hs))
  obtain ⟨strays, hstrays, hperm⟩ := Splice.exists_strays
    (waiting.filter fun s => Relation.ReflTransGen u.forest.Upwards s.element e)
    (P := fun s => v.forest.Surrounds u.forest.components.size s.element) ha.divides
    (fun s hs hfree hsr => by cases ha.unclaimed s hs hfree r (hsurrounds.mp hsr))
    (fun s hs => hsurrounds.mpr (ha.within s hs))
    (fun s hs hfree hsr => by
      obtain ⟨k, hk, hsk⟩ := ha.outside s hs
      exact hk (h.surrounds_unique hsole (hmem s hs) hfree (hsurrounds.mp hsr) hsk))
    List.filter_sublist (fun s hs => hv.surrounds_root.mpr
      (of_decide_eq_true (List.mem_filter.mp hs).2))
  refine ⟨strays, hstrays, ?_⟩
  rw [hv.hooks, if_pos rfl, ha.claimed_eq, ← List.flatMap_append]
  refine List.Perm.trans ?_ ((hperm.flatMap_right _).append_left _)
  rw [List.flatMap_append, ← List.append_assoc]
  refine List.Perm.append_right _ ((ha.hooks.append_right _).trans ?_)
  rw [List.append_assoc, List.append_assoc]
  exact List.perm_append_comm.append_left _

end Program

end

namespace Program

/-- **The hooks of inline components reach exactly their boundaries.** An entry is called and the
root of the build is made of what it gave, in any workshop that is layered, such as an empty one
or the one that another entry left. Suppose that no two components that callables made have the
same root, and that the entry does not give an element that is one. Then every element of the tree
that an inline component gave, and that had no place at that moment, is within the boundary of
exactly one component of the tree. And the hooks of every component are those that it had, those
of the callables that gave it, those of the inline components that gave such elements of its
boundary, once for each time, and strays: hooks of inline components that gave elements of its
boundary which had a place already. -/
theorem inline_hooks_settle (p : Program) (c : Callable) (key : Option String)
    (start u v : Workshop) (result x : Value) (returns : List Return)
    (hstart : start.forest.Layered)
    (hrecord : p.recordEntry c start = .ok (result, returns) u)
    (hroot : p.renderRoot (.callable c) key start = .ok x v)
    (hsole : ∀ j k r, start.forest.components.size ≤ j → u.forest.root? j = some r →
      u.forest.root? k = some r → k = j)
    (hfree : ∀ e, result.nodeId? = some (.element e) →
      u.forest.Has (.element e) ∧ u.forest.owner? e = none) :
    ∃ root, x.nodeId? = some (.component root) ∧ v.forest.Layered ∧
      (∀ s ∈ p.splices start returns, s.isFree = true → v.forest.TreeElement root s.element →
        ∃! j, v.forest.TreeComponent root j ∧ v.forest.Surrounds j s.element) ∧
      ∀ j, p.Accounts start v returns j
        (if j = root then p.givenRoot c start result returns else p.given start returns j) := by
  have hledger : ∀ j, p.Ledger start j none u returns := fun j =>
    (p.attending_ledger start j).recordEntry (.ofStart hstart) hrecord
  obtain ⟨_, _, e, copied, name, g, hcall, hgiven, _, hadd, hclaim, hx⟩ := renderRoot_eq_ok hroot
  cases (call_of_recordEntry hrecord).symm.trans hcall
  have hu := (hledger 0).layered
  have he : u.forest.Has (.element e) := by
    rcases hgiven with ⟨helement, _⟩ | ⟨r, _, hr, _⟩
    · exact (hfree e helement).1
    · exact hu.has_of_root? hr
  have hv := Workshop.Roots.ofClaim hu he hadd hclaim
  have hvroot : v.forest.root? u.forest.components.size = some e := by rw [hv.root, if_pos rfl]
  refine ⟨_, hx, hv.layered, fun s hs hsfree htree => ?_, fun j => ?_⟩
  · obtain ⟨j, hj, hsj⟩ := htree.exists_surrounds hv.layered.toLinked
    -- The root of the build shares its boundary with no component that is nested in its tree.
    have hroot : ∀ {k : Nat}, v.forest.TreeComponent u.forest.components.size k →
        v.forest.Surrounds k s.element →
        v.forest.Surrounds u.forest.components.size s.element → k = u.forest.components.size := by
      intro k hk hsk hsroot
      by_contra hne
      refine hk.root?_ne hv.layered hne hvroot ?_
      rw [hv.layered.root?_eq_of_surrounds hsk hsroot, hvroot]
    refine ⟨j, ⟨hj, hsj⟩, fun k hk => ?_⟩
    obtain ⟨hk, hsk⟩ := hk
    by_cases hjn : j = u.forest.components.size
    · subst hjn
      exact hroot hk hsk hsj
    · by_cases hkn : k = u.forest.components.size
      · subst hkn
        exact (hroot hj hsj hsk).symm
      · exact (hledger 0).surrounds_unique hsole hs hsfree ((hv.surrounds_of_ne hjn).mp hsj)
          ((hv.surrounds_of_ne hkn).mp hsk)
  · by_cases hj : j = u.forest.components.size
    · subst hj
      rw [if_pos rfl]
      rcases hgiven with ⟨helement, rfl⟩ | ⟨r, hcomponent, hr, rfl⟩
      · rw [givenRoot, helement]
        exact (hledger _).accounts_element (Forest.addComponent_eq_ok hadd).1
          (hfree e helement).2 hv
      · rw [givenRoot, hcomponent]
        exact (hledger r).accounts_component hsole hr hv
    · rw [if_neg hj]
      exact (hledger j).accounts hsole hv hj

/-- A page with a panel: an inline component is used in the panel and in the page itself, and each
of the two holds its hook once. -/
theorem inline_hooks_settle_page :
    let chart : Expr := .build (.component "Chart_INNER") (.value .none) []
    let program : Program :=
      [("Chart_INNER", ⟨"Chart_INNER", [],
          .build (.value (.text "p")) (.value .none) [.value (.text "x")],
          [.handler (.call "draw" [])], false⟩),
        ("Panel", ⟨"Panel", [], .build (.value (.text "div")) (.value .none) [chart], [], false⟩),
        ("Page", ⟨"Page", [], .build (.value (.text "main")) (.value .none)
          [.build (.component "Panel") (.value .none) [], chart], [], false⟩)]
    let page : Callable := .component "Page" "Page" false
    ∃ result returns u x v, program.recordEntry page {} = .ok (result, returns) u ∧
      program.renderRoot (.callable page) none {} = .ok x v ∧
      ((program.splices {} returns).filter Splice.isFree).length = 2 ∧
      (v.forest.hooks 0).length = 1 ∧ (v.forest.hooks 1).length = 1 ∧
      ∃ root, x.nodeId? = some (.component root) ∧
        (∀ s ∈ program.splices {} returns, s.isFree = true →
          v.forest.TreeElement root s.element →
            ∃! j, v.forest.TreeComponent root j ∧ v.forest.Surrounds j s.element) ∧
        ∀ j, program.Accounts {} v returns j
          (if j = root then program.givenRoot page {} result returns
            else program.given {} returns j) := by
  intro chart program page
  obtain ⟨⟨result, returns⟩, u, hrecord, hcheck⟩ := Build.exists_ok_of_check
    (x := program.recordEntry page) (w := {})
    (fun made u => ((program.splices {} made.2).filter Splice.isFree).length = 2 &&
      (made.1.nodeId? = some (.element 3) && (u.forest.Has (.element 3) ∧
        u.forest.owner? 3 = none)) &&
      (∀ j < u.forest.components.size, ∀ k < u.forest.components.size,
        u.forest.root? j = u.forest.root? k → k = j)) (by decide +kernel)
  obtain ⟨x, v, hroot, hhooks⟩ := Build.exists_ok_of_check
    (x := program.renderRoot (.callable page) none) (w := {})
    (fun _ v => (v.forest.hooks 0).length = 1 && (v.forest.hooks 1).length = 1) (by decide +kernel)
  simp only [Bool.and_eq_true, decide_eq_true_eq] at hcheck hhooks
  obtain ⟨⟨hsplices, hgives, hfree⟩, hsole⟩ := hcheck
  obtain ⟨root, hx, _, hunique, haccounts⟩ := inline_hooks_settle program page none {} u v result x
    returns Forest.layered_empty hrecord hroot
    (fun j k r _ hj hk => hsole j (Forest.has_of_component_root? hj) k
      (Forest.has_of_component_root? hk) (hj.trans hk.symm))
    (fun e he => by
      cases hgives.symm.trans he
      exact hfree)
  exact ⟨result, returns, u, x, v, hrecord, hroot, hsplices, hhooks.1, hhooks.2, root, hx, hunique,
    haccounts⟩

/-- An entry that gives an element which belongs to a component already: the hook of the inline
component is with that component, and the root of the build, whose root is the same element, holds
none. No element is the root of two components that callables made. -/
theorem owned_result_loses_hooks :
    let program : Program :=
      [("Chart_INNER", ⟨"Chart_INNER", [],
          .build (.value (.text "p")) (.value .none) [.value (.text "x")],
          [.handler (.call "draw" [])], false⟩),
        ("Frame", ⟨"Frame", ["props"], .prop "children" (.value .none), [], false⟩),
        ("Page", ⟨"Page", [],
          .seq [.bind "chart" (.build (.component "Chart_INNER") (.value .none) []),
          .build (.component "Frame") (.value .none) [.ref "chart"], .ref "chart"], [], false⟩)]
    let page : Callable := .component "Page" "Page" false
    ∃ result returns u x v, program.recordEntry page {} = .ok (result, returns) u ∧
      program.renderRoot (.callable page) none {} = .ok x v ∧
      (∀ j k r, u.forest.root? j = some r → u.forest.root? k = some r → k = j) ∧
      ∃ root, x.nodeId? = some (.component root) ∧
        ∃ s ∈ program.splices {} returns, s.isFree = true ∧ s.hooks.length = 1 ∧
          v.forest.TreeElement root s.element ∧ v.forest.Surrounds root s.element ∧
          v.forest.hooks root = [] := by
  intro program page
  obtain ⟨⟨result, returns⟩, u, hrecord, hcheck⟩ := Build.exists_ok_of_check
    (x := program.recordEntry page) (w := {})
    (fun made u => (∀ j < u.forest.components.size, ∀ k < u.forest.components.size,
        u.forest.root? j = u.forest.root? k → k = j) &&
      (program.splices {} made.2).any fun s => s.isFree && s.hooks.length = 1 && s.element = 0)
    (by decide +kernel)
  obtain ⟨x, v, hroot, hv⟩ := Build.exists_ok_of_check
    (x := program.renderRoot (.callable page) none) (w := {})
    (fun x v => x.nodeId? = some (.component 1) && v.forest.root? 1 = some 0 &&
      (v.forest.hooks 1).isEmpty) (by decide +kernel)
  simp only [Bool.and_eq_true, decide_eq_true_eq, List.any_eq_true, List.isEmpty_iff] at hcheck hv
  obtain ⟨hsole, s, hs, ⟨hfree, hhooks⟩, helement⟩ := hcheck
  obtain ⟨⟨hx, hzero⟩, hnone⟩ := hv
  rw [← helement] at hzero
  refine ⟨result, returns, u, x, v, hrecord, hroot, fun j k r hj hk => ?_, 1, hx, s, hs, hfree,
    hhooks, ⟨_, hzero, .refl⟩, ⟨_, hzero, .refl⟩, hnone⟩
  exact hsole j (Forest.has_of_component_root? hj) k (Forest.has_of_component_root? hk)
    (hj.trans hk.symm)

end Program

end Pageloom
