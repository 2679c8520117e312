import Pageloom.Collection
import Pageloom.Proofs.Entries
import Pageloom.Proofs.Trees

/-!
# What a collection gathers

Gathering walks over the roots and all that is nested in them, and keeps the first
component of every key. A key that no difference was remarked for has the same
content wherever it is used: the same parameters, and the same body up to tokens.
Bodies are compared without looking into nested components, so this says nothing
yet about whole trees.

## Main definitions

* `Pageloom.Component.exists_of_call` -- the component that a body calls
* `Pageloom.Gathering.Accounts` -- what a gathering knows of what it met
* `Pageloom.sameContent_of_gather` -- one key, one content
-/

namespace Pageloom

/-! ## Equality up to tokens -/

namespace Body

mutual

theorem same_refl : ∀ b : Body, b.same b = true
  | .element e cs => by simp [same, Element.sameContent, sameAll_refl cs]
  | .call key names => by simp [same]

theorem sameAll_refl : ∀ cs : List Body, sameAll cs cs = true
  | [] => rfl
  | c :: cs => by simp [sameAll, same_refl c, sameAll_refl cs]

end

mutual

theorem same_symm : ∀ {a b : Body}, a.same b = true → b.same a = true
  | .element e cs, .element f ds, h => by
    simp only [same, Element.sameContent, Bool.and_eq_true, decide_eq_true_eq] at h ⊢
    obtain ⟨⟨⟨⟨htag, hattributes⟩, htext⟩, hclick⟩, hbelow⟩ := h
    exact ⟨⟨⟨⟨htag.symm, hattributes.symm⟩, htext.symm⟩, hclick.symm⟩, sameAll_symm hbelow⟩
  | .call key names, .call key' names', h => by
    simp only [same, decide_eq_true_eq] at h ⊢
    exact h.symm
  | .element _ _, .call _ _, h => by simp [same] at h
  | .call _ _, .element _ _, h => by simp [same] at h

theorem sameAll_symm : ∀ {cs ds : List Body}, sameAll cs ds = true → sameAll ds cs = true
  | [], [], _ => rfl
  | c :: cs, d :: ds, h => by
    simp only [sameAll, Bool.and_eq_true] at h ⊢
    exact ⟨same_symm h.1, sameAll_symm h.2⟩
  | [], _ :: _, h => by simp [sameAll] at h
  | _ :: _, [], h => by simp [sameAll] at h

end

mutual

theorem same_trans : ∀ {a b c : Body}, a.same b = true → b.same c = true → a.same c = true
  | .element e cs, .element f ds, .element g es, h, h' => by
    simp only [same, Element.sameContent, Bool.and_eq_true, decide_eq_true_eq] at h h' ⊢
    obtain ⟨⟨⟨⟨htag, hattributes⟩, htext⟩, hclick⟩, hbelow⟩ := h
    obtain ⟨⟨⟨⟨htag', hattributes'⟩, htext'⟩, hclick'⟩, hbelow'⟩ := h'
    exact ⟨⟨⟨⟨htag.trans htag', hattributes.trans hattributes'⟩, htext.trans htext'⟩,
      hclick.trans hclick'⟩, sameAll_trans hbelow hbelow'⟩
  | .call key _, .call key' _, .call key'' _, h, h' => by
    simp only [same, decide_eq_true_eq] at h h' ⊢
    exact h.trans h'
  | .element _ _, .call _ _, _, h, _ => by simp [same] at h
  | .call _ _, .element _ _, _, h, _ => by simp [same] at h
  | .element _ _, .element _ _, .call _ _, _, h => by simp [same] at h
  | .call _ _, .call _ _, .element _ _, _, h => by simp [same] at h

theorem sameAll_trans : ∀ {cs ds es : List Body}, sameAll cs ds = true → sameAll ds es = true →
    sameAll cs es = true
  | [], [], _, _, h => h
  | c :: cs, d :: ds, e :: es, h, h' => by
    simp only [sameAll, Bool.and_eq_true] at h h' ⊢
    exact ⟨same_trans h.1 h'.1, sameAll_trans h.2 h'.2⟩
  | [], _ :: _, _, h, _ => by simp [sameAll] at h
  | _ :: _, [], _, h, _ => by simp [sameAll] at h
  | _ :: _, _ :: _, [], _, h => by simp [sameAll] at h

end

/-- The keys that a body calls, in order. -/
def calledKeys (b : Body) : List String := b.calls.map Prod.fst

mutual

/-- Bodies that are equal up to tokens call the same keys. -/
theorem calledKeys_eq_of_same : ∀ {a b : Body}, a.same b = true → a.calledKeys = b.calledKeys
  | .element e cs, .element f ds, h => by
    simp only [same, Bool.and_eq_true] at h
    exact calledKeysAll_eq_of_same h.2
  | .call key names, .call key' names', h => by
    simp only [same, decide_eq_true_eq] at h
    simp [calledKeys, calls, h]
  | .element _ _, .call _ _, h => by simp [same] at h
  | .call _ _, .element _ _, h => by simp [same] at h

theorem calledKeysAll_eq_of_same : ∀ {cs ds : List Body}, sameAll cs ds = true →
    (callsAll cs).map Prod.fst = (callsAll ds).map Prod.fst
  | [], [], _ => rfl
  | c :: cs, d :: ds, h => by
    simp only [sameAll, Bool.and_eq_true] at h
    have hfirst : (calls c).map Prod.fst = (calls d).map Prod.fst := calledKeys_eq_of_same h.1
    rw [callsAll, callsAll, List.map_append, List.map_append, hfirst,
      calledKeysAll_eq_of_same h.2]
  | [], _ :: _, h => by simp [sameAll] at h
  | _ :: _, [], h => by simp [sameAll] at h

end

end Body

namespace Component

theorem sameContent_iff {c d : Component} : c.sameContent d = true ↔
    (c.boundary.key = d.boundary.key ∧ c.boundary.parameters = d.boundary.parameters) ∧
      c.body.same d.body = true := by
  simp [sameContent, Boundary.sameAll]

theorem sameContent_refl (c : Component) : c.sameContent c = true :=
  sameContent_iff.mpr ⟨⟨rfl, rfl⟩, Body.same_refl _⟩

/-- Two components with the content of a third have one content. -/
theorem sameContent_of_common {b c d : Component} (hc : b.sameContent c = true)
    (hd : b.sameContent d = true) : c.sameContent d = true := by
  rw [sameContent_iff] at hc hd ⊢
  obtain ⟨⟨hkey, hparameters⟩, hbody⟩ := hc
  obtain ⟨⟨hkey', hparameters'⟩, hbody'⟩ := hd
  exact ⟨⟨hkey.symm.trans hkey', hparameters.symm.trans hparameters'⟩,
    Body.same_trans (Body.same_symm hbody) hbody'⟩

/-! ## Components of a tree -/

theorem mem_all {c d : Component} : d ∈ c.all ↔
    d = c ∨ ∃ n ∈ c.root.nested, n.boundary = some d.boundary ∧ d.root = n.withBoundary none := by
  obtain ⟨b, r⟩ := d
  simp only [all, List.mem_cons, List.mem_filterMap, ofNode?, Option.map_eq_some_iff, mk.injEq]
  refine or_congr Iff.rfl (exists_congr fun n => and_congr Iff.rfl ?_)
  constructor
  · rintro ⟨b', hb, rfl, rfl⟩
    exact ⟨hb, rfl⟩
  · rintro ⟨hb, rfl⟩
    exact ⟨b, hb, rfl, rfl⟩

theorem all_trans {c d e : Component} (hd : d ∈ c.all) (he : e ∈ d.all) : e ∈ c.all := by
  rcases mem_all.mp hd with rfl | ⟨n, hn, _, hroot⟩
  · exact he
  · rcases mem_all.mp he with rfl | ⟨m, hm, hboundary, hroot'⟩
    · exact hd
    · rw [hroot, Node.nested_withBoundary] at hm
      exact mem_all.mpr (.inr ⟨m, Node.nested_trans hn hm, hboundary, hroot'⟩)

/-- The body of a component calls only components below it, whose trees are smaller. -/
theorem exists_of_call {c : Component} {call : String × List String} (h : call ∈ c.body.calls) :
    ∃ d ∈ c.all, call = (d.boundary.key, d.boundary.parameters) ∧
      d.root.preorder.length < c.root.preorder.length := by
  obtain ⟨n, hn, b, hb, hcall⟩ := Node.exists_nested_of_call h
  refine ⟨⟨b, n.withBoundary none⟩, mem_all.mpr (.inr ⟨n, hn, hb, rfl⟩), hcall, ?_⟩
  rw [Node.length_preorder_withBoundary]
  exact Node.length_preorder_nested hn

end Component

/-! ## One key, one content -/

namespace Gathering

/-- What a gathering that began with `roots` knows after it met `met`: each key that
it has seen has its first component, which is kept, and each component that it met
has the content of the first one of its key unless a difference was remarked. -/
structure Accounts (g : Gathering) (roots met : List Component) : Prop where
  kept : ∀ {key first}, g.seen.get? key = some first →
    first.boundary.key = key ∧ first ∈ roots ++ g.nested
  nested_met : ∀ c ∈ g.nested, c ∈ met
  told : ∀ c ∈ met, ∃ first, g.seen.get? c.boundary.key = some first ∧
    (first.sameContent c = true ∨ .contentDiffers c.boundary.key ∈ g.notices)

theorem accounts_start (roots : List Component) : Accounts (.ofRoots roots) roots [] where
  kept h := by
    obtain ⟨c, hc, heq⟩ := List.mem_map.mp (Entries.mem_of_get? h)
    cases heq
    exact ⟨rfl, List.mem_append_left _ hc⟩
  nested_met := by simp [ofRoots]
  told := by simp

theorem Accounts.meet {g : Gathering} {roots met : List Component} (h : g.Accounts roots met)
    (c : Component) : (g.meet c).Accounts roots (met ++ [c]) := by
  unfold Gathering.meet
  cases hget : g.seen.get? c.boundary.key with
  | some first =>
    by_cases hsame : first.sameContent c = true
    · simp only [if_pos hsame]
      refine ⟨h.kept, fun d hd => List.mem_append_left _ (h.nested_met d hd), fun d hd => ?_⟩
      rcases List.mem_append.mp hd with hd | hd
      · exact h.told d hd
      · cases List.mem_singleton.mp hd
        exact ⟨first, hget, .inl hsame⟩
    · simp only [if_neg hsame]
      refine ⟨h.kept, fun d hd => List.mem_append_left _ (h.nested_met d hd), fun d hd => ?_⟩
      rcases List.mem_append.mp hd with hd | hd
      · obtain ⟨first', hfirst, htold⟩ := h.told d hd
        exact ⟨first', hfirst, htold.imp_right (List.mem_append_left _)⟩
      · cases List.mem_singleton.mp hd
        exact ⟨first, hget, .inr (by simp)⟩
  | none =>
    refine ⟨fun {key first} hfirst => ?_, fun d hd => ?_, fun d hd => ?_⟩
    · rw [Entries.get?_append] at hfirst
      cases hold : g.seen.get? key with
      | some first' =>
        rw [hold] at hfirst
        cases hfirst
        obtain ⟨hkey, hmem⟩ := h.kept hold
        exact ⟨hkey, by simpa [or_assoc] using List.mem_append_left [c] hmem⟩
      | none =>
        rw [hold, Option.none_or, Entries.get?_cons] at hfirst
        by_cases hkey : c.boundary.key = key
        · rw [if_pos hkey] at hfirst
          cases hfirst
          exact ⟨hkey, by simp⟩
        · rw [if_neg hkey] at hfirst
          cases hfirst
    · rcases List.mem_append.mp hd with hd | hd
      · exact List.mem_append_left _ (h.nested_met d hd)
      · exact List.mem_append_right _ hd
    · rcases List.mem_append.mp hd with hd | hd
      · obtain ⟨first, hfirst, htold⟩ := h.told d hd
        refine ⟨first, ?_, htold⟩
        rw [Entries.get?_append, hfirst, Option.some_or]
      · cases List.mem_singleton.mp hd
        refine ⟨c, ?_, .inl c.sameContent_refl⟩
        rw [Entries.get?_append, hget, Option.none_or, Entries.get?_cons, if_pos rfl]

theorem Accounts.foldl_meet {g : Gathering} {roots met : List Component}
    (h : g.Accounts roots met) (cs : List Component) :
    (cs.foldl Gathering.meet g).Accounts roots (met ++ cs) := by
  induction cs generalizing g met with
  | nil => simpa using h
  | cons c cs ih => simpa using ih (h.meet c)

end Gathering

theorem gather_accounts (roots : List Component) : ∃ g : Gathering,
    gather roots = (roots ++ g.nested, g.notices) ∧
      g.Accounts roots (roots.flatMap Component.all) := by
  refine ⟨_, rfl, ?_⟩
  simpa using (Gathering.accounts_start roots).foldl_meet (roots.flatMap Component.all)

section

variable {roots : List Component} {c d : Component}

theorem mem_of_mem_gather (h : c ∈ (gather roots).1) : c ∈ roots.flatMap Component.all := by
  obtain ⟨g, hgather, haccounts⟩ := gather_accounts roots
  rw [hgather] at h
  rcases List.mem_append.mp h with hroot | hnested
  · exact List.mem_flatMap.mpr ⟨c, hroot, Component.mem_all.mpr (.inl rfl)⟩
  · exact haccounts.nested_met c hnested

theorem exists_gathered (h : c ∈ roots.flatMap Component.all) :
    ∃ d ∈ (gather roots).1, d.boundary.key = c.boundary.key := by
  obtain ⟨g, hgather, haccounts⟩ := gather_accounts roots
  obtain ⟨first, hfirst, _⟩ := haccounts.told c h
  obtain ⟨hkey, hmem⟩ := haccounts.kept hfirst
  exact ⟨first, by rwa [hgather], hkey⟩

/-- Where no difference was remarked, a key has one content. -/
theorem sameContent_of_gather (hc : c ∈ roots.flatMap Component.all)
    (hd : d ∈ roots.flatMap Component.all) (hkey : c.boundary.key = d.boundary.key)
    (hquiet : .contentDiffers c.boundary.key ∉ (gather roots).2) : c.sameContent d = true := by
  obtain ⟨g, hgather, haccounts⟩ := gather_accounts roots
  rw [hgather] at hquiet
  obtain ⟨first, hfirst, htold⟩ := haccounts.told c hc
  obtain ⟨first', hfirst', htold'⟩ := haccounts.told d hd
  rw [← hkey] at hfirst' htold'
  cases Option.some.inj (hfirst.symm.trans hfirst')
  exact Component.sameContent_of_common (htold.resolve_right hquiet) (htold'.resolve_right hquiet)

end

/-- Components that can be compared are those that a gathering finds. -/
theorem gatherText_eq_ok {roots components : List Component}
    (h : (gatherText roots).2 = .ok components) :
    gatherText roots = ((gather roots).2, .ok (gather roots).1) := by
  unfold gatherText at h ⊢
  split at h
  · cases h
  · rfl

/-- A collection gathers the components of some roots, and remarks what the gathering did. -/
theorem Program.collect_eq_ok {p : Program} {entries : List Value} {w w' : Workshop}
    {components : List Component} (h : p.collect entries w = .ok components w') :
    ∃ ids u roots, p.renderEntries [] entries w = .ok ids u ∧
      ids.mapM u.forest.component = .ok roots ∧ components = (gather roots).1 ∧
      w' = { u with notices := u.notices ++ (gather roots).2 } := by
  unfold collect at h
  by_cases hempty : entries.isEmpty = true
  · rw [if_pos hempty] at h
    cases h
  · rw [if_neg hempty] at h
    obtain ⟨ids, u, hids, h⟩ := bind_eq_ok.mp h
    obtain ⟨f, u', hforest, h⟩ := bind_eq_ok.mp h
    obtain ⟨rfl, rfl⟩ : u.forest = f ∧ u = u' := by
      cases hforest
      exact ⟨rfl, rfl⟩
    obtain ⟨roots, u', hlift, h⟩ := bind_eq_ok.mp h
    obtain ⟨hread, rfl⟩ := Build.lift_eq_ok.mp hlift
    obtain ⟨_, u', hmodify, h⟩ := bind_eq_ok.mp h
    obtain ⟨hfound, rfl⟩ := Build.lift_eq_ok.mp h
    rw [gatherText_eq_ok hfound] at hmodify hfound
    cases hmodify
    cases hfound
    exact ⟨ids, u, roots, hids, hread, rfl, rfl⟩

end Pageloom
