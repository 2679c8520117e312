import Pageloom.Proofs.FailedMounts
import Pageloom.Proofs.LiveLinks

/-!
# Mounting and removing in document order

The nodes of a page that hang below its body are walked through in preorder: a parent before its
children, the children in order. Ids are found in this order. What is found may lie anywhere, also
inside a copy that was mounted before, and other nodes may have the same id.

Mounting puts the nodes of a copy in one block after the last node below the target. Removing
takes out the block of one node and what is below it. All other nodes stay as they are and in
order. Both come from one fact about walks: where only the children of one node change, only the
stretch of the walk changes that is below this node.

## Main definitions

* `Pageloom.Document.Walk` -- nodes and all below them, in preorder
* `Pageloom.Document.Proper` -- a page whose body is a tree
* `Pageloom.Document.Walk.replace` -- a change below one node
* `Pageloom.Document.Walk.findWithin` -- looking for an id is looking through the walk
* `Pageloom.Session.mount_remove_local` -- mounting and removing change one block
-/

namespace Pageloom

namespace Document

variable {d e : Document} {nodes others walk walk' : List Nat}

/-! ## Walks -/

/-- A walk through nodes and all below them, in preorder. There is none where links run in
circles. -/
inductive Walk (d : Document) : List Nat → List Nat → Prop
  | nil : Walk d [] []
  | cons {i : Nat} {rest below after : List Nat} (hi : i < d.cells.size)
      (hbelow : Walk d (d.childrenOf i) below) (hrest : Walk d rest after) :
      Walk d (i :: rest) (i :: (below ++ after))

namespace Walk

theorem single {i : Nat} (hi : i < d.cells.size) (hbelow : d.Walk (d.childrenOf i) walk) :
    d.Walk [i] (i :: walk) := by
  simpa using Walk.cons hi hbelow .nil

theorem append (h : d.Walk nodes walk) (h' : d.Walk others walk') :
    d.Walk (nodes ++ others) (walk ++ walk') := by
  induction h with
  | nil => exact h'
  | cons hi hbelow _ _ ih =>
    rw [List.cons_append, List.cons_append, List.append_assoc]
    exact .cons hi hbelow ih

theorem exists_of_append (h : d.Walk (nodes ++ others) walk) :
    ∃ first second, walk = first ++ second ∧ d.Walk nodes first ∧ d.Walk others second := by
  induction nodes generalizing walk with
  | nil => exact ⟨[], walk, rfl, .nil, h⟩
  | cons i nodes ih =>
    cases h with
    | cons hi hbelow hrest =>
      obtain ⟨first, second, rfl, hfirst, hsecond⟩ := ih hrest
      exact ⟨_, second, by simp, .cons hi hbelow hfirst, hsecond⟩

/-- The first node of a walk is followed by its children and the other nodes. -/
theorem exists_of_cons {i : Nat} (h : d.Walk (i :: nodes) walk) :
    ∃ tail, walk = i :: tail ∧ i < d.cells.size ∧ d.Walk (d.childrenOf i ++ nodes) tail := by
  cases h with
  | cons hi hbelow hrest => exact ⟨_, rfl, hi, hbelow.append hrest⟩

theorem lt_size (h : d.Walk nodes walk) : ∀ n ∈ walk, n < d.cells.size := by
  induction h with
  | nil => simp
  | cons hi _ _ ihbelow ihrest =>
    intro n hn
    rcases List.mem_cons.mp hn with rfl | hn
    · exact hi
    · exact (List.mem_append.mp hn).elim (ihbelow n) (ihrest n)

/-- Who is met on a walk is one of the nodes that it starts from, or is met below a parent. -/
theorem exists_parent {n : Nat} (h : d.Walk nodes walk) (hn : n ∈ walk) :
    n ∈ nodes ∨ ∃ p ∈ walk, n ∈ d.childrenOf p := by
  induction h with
  | nil => cases hn
  | cons hi _ _ ihbelow ihrest =>
    rcases List.mem_cons.mp hn with rfl | hn
    · exact .inl List.mem_cons_self
    · rcases List.mem_append.mp hn with hn | hn
      · rcases ihbelow hn with hchild | ⟨p, hp, hchild⟩
        · exact .inr ⟨_, List.mem_cons_self, hchild⟩
        · exact .inr ⟨p, by simp [hp], hchild⟩
      · rcases ihrest hn with hroot | ⟨p, hp, hchild⟩
        · exact .inl (List.mem_cons_of_mem _ hroot)
        · exact .inr ⟨p, by simp [hp], hchild⟩

/-- A walk stays where the children of its nodes stay. -/
theorem keep (h : d.Walk nodes walk) (hsize : d.cells.size ≤ e.cells.size)
    (hsame : ∀ n ∈ walk, e.childrenOf n = d.childrenOf n) : e.Walk nodes walk := by
  induction h with
  | nil => exact .nil
  | cons hi _ _ ihbelow ihrest =>
    refine .cons (Nat.lt_of_lt_of_le hi hsize) ?_ (ihrest fun n hn => hsame n (by simp [hn]))
    rw [hsame _ List.mem_cons_self]
    exact ihbelow fun n hn => hsame n (by simp [hn])

/-- **A change of the children of one node changes the walk below this node only.** -/
theorem replace {p : Nat} (h : d.Walk nodes walk) (hnodup : walk.Nodup) (hp : p ∈ walk)
    (hsize : d.cells.size ≤ e.cells.size)
    (hsame : ∀ n ∈ walk, n ≠ p → e.childrenOf n = d.childrenOf n) :
    ∃ before below after, walk = before ++ p :: (below ++ after) ∧
      d.Walk (d.childrenOf p) below ∧ (∀ n ∈ below, e.childrenOf n = d.childrenOf n) ∧
      ∀ below', e.Walk (e.childrenOf p) below' →
        e.Walk nodes (before ++ p :: (below' ++ after)) := by
  induction h with
  | nil => cases hp
  | @cons i rest below after hi hbelow hrest ihbelow ihrest =>
    have hi' : i < e.cells.size := Nat.lt_of_lt_of_le hi hsize
    obtain ⟨hnotMem, hnodup⟩ := List.nodup_cons.mp hnodup
    obtain ⟨hnodupBelow, hnodupAfter, hdisjoint⟩ := List.nodup_append.mp hnodup
    have hkeep : ∀ {starts steps : List Nat}, d.Walk starts steps → p ∉ steps →
        (∀ n ∈ steps, n ∈ i :: (below ++ after)) → e.Walk starts steps :=
      fun hwalk hnot hsub => hwalk.keep hsize fun n hn =>
        hsame n (hsub n hn) fun heq => hnot (heq ▸ hn)
    by_cases hpi : p = i
    · subst hpi
      refine ⟨[], below, after, rfl, hbelow, fun n hn => ?_,
        fun below' hbelow' => .cons hi' hbelow' ?_⟩
      · exact hsame n (by simp [hn]) fun heq => hnotMem (List.mem_append_left _ (heq ▸ hn))
      · exact hkeep hrest (fun hmem => hnotMem (List.mem_append_right _ hmem))
          (by simp +contextual)
    · have hchildren : e.childrenOf i = d.childrenOf i :=
        hsame i List.mem_cons_self (Ne.symm hpi)
      rcases List.mem_append.mp ((List.mem_cons.mp hp).resolve_left hpi) with hp | hp
      · obtain ⟨before, lower, later, rfl, hlower, hlower', hreplace⟩ :=
          ihbelow hnodupBelow hp fun n hn => hsame n (by simp [hn])
        have hrest' : e.Walk rest after :=
          hkeep hrest (fun hmem => hdisjoint p hp p hmem rfl) (by simp +contextual)
        refine ⟨i :: before, lower, later ++ after, by simp, hlower, hlower',
          fun other hother => ?_⟩
        have hbelow' := hreplace other hother
        rw [← hchildren] at hbelow'
        simpa using Walk.cons hi' hbelow' hrest'
      · obtain ⟨before, lower, later, rfl, hlower, hlower', hreplace⟩ :=
          ihrest hnodupAfter hp fun n hn => hsame n (by simp [hn])
        have hbelow' : e.Walk (e.childrenOf i) below := by
          rw [hchildren]
          exact hkeep hbelow (fun hmem => hdisjoint p hmem p hp rfl) (by simp +contextual)
        refine ⟨i :: (below ++ before), lower, later, by simp, hlower, hlower',
          fun other hother => ?_⟩
        simpa using Walk.cons hi' hbelow' (hreplace other hother)

/-! ## Reading and finding -/

/-- What is read are the nodes of the walk. -/
theorem exists_holdsAll (h : d.Walk nodes walk) :
    ∃ trees, d.HoldsAll 0 trees nodes ∧
      (LiveTree.preorderAll trees).map some = walk.map d.face? := by
  induction h with
  | nil => exact ⟨[], by simp [HoldsAll], rfl⟩
  | @cons i rest below after hi _ _ ihbelow ihrest =>
    obtain ⟨lower, hlower, hbelow⟩ := ihbelow
    obtain ⟨trees, htrees, hafter⟩ := ihrest
    have hc : d.cells[i]? = some d.cells[i] := Array.getElem?_eq_getElem hi
    have hchildren : d.childrenOf i = d.cells[i].children := by simp [childrenOf, hc]
    have hface : d.face? i = some d.cells[i].face := by simp [face?, hc]
    refine ⟨.mk d.cells[i].face lower :: trees, ⟨i, rest, rfl, ?_, htrees⟩, ?_⟩
    · exact ⟨Nat.zero_le i, _, hc, rfl, hchildren ▸ hlower⟩
    · simp [LiveTree.preorderAll, LiveTree.preorder, hface, hbelow, hafter]

theorem exists_read {i : Nat} (h : d.Walk [i] walk) :
    ∃ tree, d.read i = .ok tree ∧ tree.preorder.map some = walk.map d.face? := by
  obtain ⟨trees, htrees, hfaces⟩ := h.exists_holdsAll
  cases trees with
  | nil => cases htrees
  | cons tree trees =>
    obtain ⟨j, rest, heq, htree, hrest⟩ := htrees
    cases heq
    cases trees with
    | nil => exact ⟨tree, htree.read, by simpa [LiveTree.preorderAll] using hfaces⟩
    | cons => simp [HoldsAll] at hrest

end Walk

/-- Whether a node has an id. -/
def hasId (d : Document) (id : String) (n : Nat) : Bool := (d.face? n).any (·.hasId id)

/-- **Looking for an id is looking through the walk.** -/
theorem Walk.findWithin (id : String) {bound : Nat} (h : d.Walk nodes walk)
    (hbound : walk.length ≤ bound) :
    d.findWithin id bound nodes = .ok (walk.find? (d.hasId id)) := by
  induction bound generalizing nodes walk with
  | zero =>
    cases h with
    | nil => rfl
    | cons => simp at hbound
  | succ bound ih =>
    cases nodes with
    | nil =>
      cases h
      rfl
    | cons i rest =>
      obtain ⟨tail, rfl, hi, htail⟩ := h.exists_of_cons
      have hc : d.cells[i]? = some d.cells[i] := Array.getElem?_eq_getElem hi
      have hchildren : d.childrenOf i = d.cells[i].children := by simp [childrenOf, hc]
      have hid : d.hasId id i = d.cells[i].face.hasId id := by simp [hasId, face?, hc]
      simp only [Document.findWithin, hc]
      by_cases hhas : d.cells[i].face.hasId id
      · simp [hhas, hid]
      · rw [if_neg hhas, List.find?_cons_of_neg (by rwa [hid])]
        rw [hchildren] at htail
        exact ih htail (by simpa using hbound)

/-! ## Copies -/

theorem childrenOf_append_new {p j : Nat} (hplace : d.parent? j = none) (hp : p < d.cells.size)
    (n : Nat) :
    (d.append p j).childrenOf n = if n = p then d.childrenOf n ++ [j] else d.childrenOf n := by
  have hdetach : d.detach j = d := by simp [detach, hplace]
  rw [childrenOf_append hp, hdetach]

theorem Grows.childrenOf_eq (h : d.Grows e) {n : Nat} (hn : n < d.cells.size) :
    e.childrenOf n = d.childrenOf n := by
  have hc : d.cells[n]? = some d.cells[n] := Array.getElem?_eq_getElem hn
  simp [childrenOf, hc, h n _ hc]

mutual

/-- The nodes of a copy are new ones, numbered in preorder. -/
theorem graft_walk : ∀ (t : LiveTree) (d : Document),
    ∃ count, (graft t d).1.cells.size = d.cells.size + count ∧
      (graft t d).1.Walk [d.cells.size] (List.range' d.cells.size count)
  | .mk face ts, d => by
    have hlt : d.cells.size < (d.add face).1.cells.size := by simp
    obtain ⟨count, js, hsize, hchildren, hwalk⟩ := graftAll_walk ts hlt
    rw [add_fst_size] at hsize hwalk
    have hroot : (graft (.mk face ts) d).1.childrenOf d.cells.size = js := by
      have hnew : (d.add face).1.childrenOf d.cells.size = [] := by
        rw [childrenOf_add]
        simp [childrenOf]
      have heq := hchildren d.cells.size hlt
      rw [if_pos rfl, hnew] at heq
      exact heq
    have hsize' : (graft (.mk face ts) d).1.cells.size = d.cells.size + (count + 1) := by
      change (graftAll d.cells.size ts (d.add face).1).cells.size = _
      rw [hsize]
      omega
    refine ⟨count + 1, hsize', ?_⟩
    rw [List.range'_succ]
    refine .single (by omega) ?_
    rw [hroot]
    exact hwalk

theorem graftAll_walk : ∀ (ts : List LiveTree) {d : Document} {parent : Nat},
    parent < d.cells.size →
    ∃ count js, (graftAll parent ts d).cells.size = d.cells.size + count ∧
      (∀ n < d.cells.size, (graftAll parent ts d).childrenOf n =
        if n = parent then d.childrenOf n ++ js else d.childrenOf n) ∧
      (graftAll parent ts d).Walk js (List.range' d.cells.size count)
  | [], d, parent, _ => ⟨0, [], rfl, by simp [graftAll], .nil⟩
  | t :: ts, d, parent, hparent => by
    obtain ⟨count, hsize, hwalk⟩ := graft_walk t d
    obtain ⟨hgrows, hplace, -⟩ := graft_holds t d
    rw [graft_snd] at hplace
    have hchildren := childrenOf_append_new hplace (p := parent) (by omega)
    have hlt : parent < ((graft t d).1.append parent d.cells.size).cells.size := by
      rw [size_append]
      omega
    obtain ⟨count', js, hsize', hchildren', hwalk'⟩ := graftAll_walk ts hlt
    rw [size_append, hsize] at hsize' hchildren' hwalk'
    have hstep : graftAll parent (t :: ts) d =
        graftAll parent ts ((graft t d).1.append parent d.cells.size) := by
      rw [← graft_snd t d]
      rfl
    rw [hstep]
    refine ⟨count + count', d.cells.size :: js, by omega, fun n hn => ?_, ?_⟩
    · rw [hchildren' n (by omega), hchildren, hgrows.childrenOf_eq hn]
      split <;> simp
    · rw [← List.range'_append_1]
      -- The nodes of this copy are no parents of the next ones.
      have hsame : ∀ n ∈ List.range' d.cells.size count,
          (graftAll parent ts ((graft t d).1.append parent d.cells.size)).childrenOf n =
            (graft t d).1.childrenOf n := by
        intro n hn
        have hn' := List.mem_range'_1.mp hn
        have hne : n ≠ parent := by omega
        rw [hchildren' n hn'.2, hchildren, if_neg hne, if_neg hne]
      exact (hwalk.keep (by omega) hsame).append hwalk'

end

/-! ## Pages whose body is a tree -/

/-- The body is a tree, with the given nodes in preorder: no node is met twice, and those that are
met know their parents. Links lead to nodes of the page, as they always do. -/
structure Proper (d : Document) (nodes : List Nat) : Prop where
  walk : d.Walk [body] nodes
  nodup : nodes.Nodup
  knows : d.Knows (· ∈ nodes)
  linked : ∀ i j, d.Links i j → j < d.cells.size

/-- On pages that were edited from the start, all links are as they should be. -/
theorem proper_of_edits (hedits : empty.Edits d) (hwalk : d.Walk [body] nodes)
    (hnodup : nodes.Nodup) : d.Proper nodes where
  walk := hwalk
  nodup := hnodup
  knows := hedits.knows (knows_empty _)
  linked i j hlink := (hedits.works.sided (sided_empty _) i j hlink).1

namespace Proper

variable (h : d.Proper nodes)

include h

theorem sided : d.Sided fun _ => True := fun i j hlink => ⟨h.linked i j hlink, Iff.rfl⟩

theorem findById (id : String) : d.findById id = .ok (nodes.find? (d.hasId id)) :=
  h.walk.findWithin id (length_le_size h.nodup h.walk.lt_size)

/-- **A child at the end of a node's children.** The page `e` has more nodes than `d`, and a tree
of new ones that `target` has got as its last child. -/
theorem insert {target j : Nat} {block : List Nat} (htarget : target ∈ nodes)
    (hedits : d.Edits e)
    (hchildren : ∀ n < d.cells.size, e.childrenOf n =
      if n = target then d.childrenOf n ++ [j] else d.childrenOf n)
    (hblock : e.Walk [j] block) (hnew : ∀ n ∈ block, d.cells.size ≤ n) (hnodup : block.Nodup) :
    ∃ before below after, nodes = before ++ target :: below ++ after ∧
      d.Walk [target] (target :: below) ∧
      e.Proper (before ++ target :: below ++ block ++ after) := by
  have hlt := h.walk.lt_size
  obtain ⟨before, below, after, rfl, hbelow, hsame, hreplace⟩ := h.walk.replace (e := e) h.nodup
    htarget hedits.size_le fun n hn hne => by rw [hchildren n (hlt n hn), if_neg hne]
  have hbelow' : e.Walk (e.childrenOf target) (below ++ block) := by
    rw [hchildren target (hlt target htarget), if_pos rfl]
    exact (hbelow.keep hedits.size_le hsame).append hblock
  have hperm : (before ++ target :: below ++ block ++ after).Perm
      (before ++ target :: (below ++ after) ++ block) := by
    simpa using (List.perm_append_comm.append_left below).cons target |>.append_left before
  have hknows : d.Knows fun p => p ∈ before ++ target :: (below ++ after) ∨ d.cells.size ≤ p := by
    intro p n hp
    rcases hp with hp | hp
    · exact h.knows p n hp
    · simp [childrenOf, hp]
  refine ⟨before, below, after, by simp, ?_, ?_, hperm.nodup_iff.mpr ?_, fun p n hp => ?_, ?_⟩
  · exact .single (hlt target htarget) hbelow
  · simpa using hreplace _ hbelow'
  · refine h.nodup.append hnodup fun n hn hn' => ?_
    exact Nat.not_lt_of_le (hnew n hn') (hlt n hn)
  · refine hedits.knows hknows p n ?_
    exact (List.mem_append.mp (hperm.mem_iff.mp hp)).imp_right (hnew p)
  · exact fun i j hlink => (hedits.works.sided h.sided i j hlink).1

/-- **A node that is taken from its place.** -/
theorem remove {i : Nat} (hi : i ∈ nodes) (hbody : i ≠ body) :
    ∃ before below after, nodes = before ++ i :: below ++ after ∧
      d.Walk [i] (i :: below) ∧ (d.detach i).Walk [i] (i :: below) ∧
      (d.detach i).Proper (before ++ after) := by
  obtain ⟨p, hp, hchild⟩ : ∃ p ∈ nodes, i ∈ d.childrenOf p :=
    (h.walk.exists_parent hi).resolve_left (by simpa using hbody)
  have hparent : d.parent? i = some p := h.knows.parent?_eq hp hchild
  have hsize : d.cells.size ≤ (d.detach i).cells.size := by simp
  obtain ⟨older, younger, hsplit, -, hdetach⟩ := h.knows.exists_detach hp hchild
  obtain ⟨before, below, after, rfl, hbelow, hsame, hreplace⟩ :=
    h.walk.replace (e := d.detach i) h.nodup hp hsize fun n _ hne => by
      rw [childrenOf_detach, hparent, if_neg (by simpa using Ne.symm hne)]
  have hkeep : ∀ {starts steps : List Nat}, d.Walk starts steps → (∀ n ∈ steps, n ∈ below) →
      (d.detach i).Walk starts steps :=
    fun hwalk hsub => hwalk.keep hsize fun n hn => hsame n (hsub n hn)
  -- Below the parent come its older children, the block of the node, and its younger children.
  rw [hsplit, ← List.singleton_append] at hbelow
  obtain ⟨first, rest, rfl, hfirst, hrest⟩ := hbelow.exists_of_append
  obtain ⟨block, last, rfl, hblock, hlast⟩ := hrest.exists_of_append
  obtain ⟨lower, rfl, -, -⟩ := hblock.exists_of_cons
  have hbelow' : (d.detach i).Walk ((d.detach i).childrenOf p) (first ++ last) := by
    rw [hdetach]
    exact (hkeep hfirst (by simp +contextual)).append (hkeep hlast (by simp +contextual))
  have hsublist : (before ++ p :: first ++ (last ++ after)).Sublist
      (before ++ p :: (first ++ ((i :: lower) ++ last) ++ after)) := by
    simp
  refine ⟨before ++ p :: first, lower, last ++ after, by simp, hblock,
    hkeep hblock (by simp +contextual), ?_, h.nodup.sublist hsublist, fun q n hq => ?_, ?_⟩
  · simpa using hreplace _ hbelow'
  · exact h.knows.detach i q n (hsublist.subset hq)
  · have hedit : d.Edit (d.detach i) := .detach i
    exact fun k j hlink => (hedit.works.sided h.sided k j hlink).1

end Proper

end Document

/-! ## Mounting and removing -/

namespace Sitting

variable {s t : Session}

theorem remove_of_find {id : String} {i : Nat} (h : s.document.findById id = .ok (some i)) :
    remove id s = .ok true (s.withPage (s.document.detach i)) := by
  unfold remove
  rw [bind_of_ok (inspect_of_ok h)]
  rfl

theorem remove_of_missing {id : String} (h : s.document.findById id = .ok none) :
    remove id s = .ok false (s.remark (.elementMissing id)) := by
  unfold remove
  rw [bind_of_ok (inspect_of_ok h)]
  rfl

theorem Prepared.works {key : String} {registration : Registration} {arguments : List Value}
    {i : Nat} {u : Session} (h : Prepared key registration arguments s i u) :
    Document.Works (s.document.cells.size ≤ ·) s.document u.document := by
  cases h with
  | cached => exact .refl _ _
  | made stage _ hcall =>
    have hends := s.registry.call_makesNew key registration arguments s.stage
    rw [hcall] at hends
    exact hends.1

/-- What a mount changes: the target gets a tree of new nodes as its last child. -/
theorem mount_page {key parent : String} {arguments : List Value} {j : Nat}
    (hs : s.document.Sided fun _ => True)
    (h : mount key parent arguments s = .ok (some j) t) :
    ∃ target block, s.document.findById parent = .ok (some target) ∧
      (∀ n < s.document.cells.size, t.document.cells[n]? = s.document.cells[n]?.map fun c =>
        if n = target then { c with children := c.children ++ [j] } else c) ∧
      t.document.Walk [j] block ∧ (∀ n ∈ block, s.document.cells.size ≤ n) ∧ block.Nodup := by
  rcases mount_cases key parent arguments s with
    ⟨u, -, hmount⟩ | ⟨registration, fault, stage, -, hmount⟩ |
    ⟨target, registration, i, u, hfind, -, hprepared, hmount⟩
  · rcases hmount with hmount | ⟨fault, hmount⟩ <;> rw [hmount] at h <;> cases h
  · rw [hmount] at h
    cases h
  · rcases hmount with ⟨fault, hmount⟩ | ⟨tree, -, hmount⟩ <;> rw [hmount] at h <;> cases h
    have hwork := hprepared.works
    have htarget : target < s.document.cells.size := (Document.findById_reaches hfind).1
    have hsize := Document.size_lt_graft tree u.document
    obtain ⟨hgrows, hplace, -⟩ := Document.graft_holds tree u.document
    obtain ⟨count, hcount, hwalk⟩ := Document.graft_walk tree u.document
    rw [Document.graft_snd] at hplace ⊢
    have hle := hwork.size_le
    refine ⟨target, List.range' u.document.cells.size count, hfind, fun n hn => ?_, ?_,
      fun n hn => ?_, List.nodup_range'⟩
    · have hc : s.document.cells[n]? = some s.document.cells[n] := Array.getElem?_eq_getElem hn
      have hold := hgrows n _ (hwork.grows hs n _ hc)
      have hnew : n ≠ u.document.cells.size := by omega
      refine (Document.append_cells hplace (by omega) n).trans ?_
      rw [hold, hc]
      simp [hnew]
    · refine hwalk.keep (Nat.le_of_eq (Document.size_append _ _ _).symm) fun n hn => ?_
      have hge := (List.mem_range'_1.mp hn).1
      exact (Document.childrenOf_append_new hplace (by omega) n).trans (if_neg (by omega))
    · exact Nat.le_trans hle (List.mem_range'_1.mp hn).1

end Sitting

namespace Session

/-- **Mounting and removing change one block of the page in document order.** Let the body be a
tree, and let `nodes` be its nodes in preorder. What is read from a node are always the nodes of
the walk from it.

A mount that succeeds finds the first node that has the id, and puts the nodes of the copy in one
block after the last node below it. Removing a node other than the body takes out the block of the
first node that has the id, with all below it, which stays a tree of its own. In both cases the
body is a tree again, and every cell is told that is not as it was. Removing always comes to an
end, and finds nothing exactly if no node has the id. -/
theorem mount_remove_local (s : Session) (nodes : List Nat) (hproper : s.document.Proper nodes)
    (key id : String) (arguments : List Value) :
    (∀ (d : Document) i walk, d.Walk [i] walk →
      ∃ tree, d.read i = .ok tree ∧ tree.preorder.map some = walk.map d.face?) ∧
    (∀ j t, Sitting.mount key id arguments s = .ok (some j) t →
      ∃ before target below after block,
        nodes = before ++ target :: below ++ after ∧
        nodes.find? (s.document.hasId id) = some target ∧
        s.document.Walk [target] (target :: below) ∧ t.document.Walk [j] block ∧
        t.document.Proper (before ++ target :: below ++ block ++ after) ∧
        (∀ n ∈ block, s.document.cells.size ≤ n) ∧
        ∀ n < s.document.cells.size, t.document.cells[n]? = s.document.cells[n]?.map fun c =>
          if n = target then { c with children := c.children ++ [j] } else c) ∧
    (∀ t, Sitting.remove id s = .ok true t →
      nodes.find? (s.document.hasId id) ≠ some Document.body →
      ∃ before i below after,
        nodes = before ++ i :: below ++ after ∧
        nodes.find? (s.document.hasId id) = some i ∧
        s.document.Walk [i] (i :: below) ∧ t.document.Walk [i] (i :: below) ∧
        t.document.Proper (before ++ after) ∧
        ∀ n : Nat, t.document.cells[n]? = s.document.cells[n]?.map fun c =>
          { c with
            children := if s.document.parent? i = some n then c.children.erase i else c.children
            parent := if n = i then none else c.parent }) ∧
    ∃ found t, Sitting.remove id s = .ok found t ∧
      (found = false ↔ ∀ n ∈ nodes, s.document.hasId id n = false) := by
  have hfind := hproper.findById id
  refine ⟨fun d i walk hwalk => hwalk.exists_read, fun j t hmount => ?_,
    fun t hremove hbody => ?_, ?_⟩
  · obtain ⟨target, block, htarget, hcells, hblock, hnew, hnodup⟩ :=
      Sitting.mount_page hproper.sided hmount
    have hfirst : nodes.find? (s.document.hasId id) = some target :=
      Except.ok.inj (hfind.symm.trans htarget)
    have hedits : s.document.Edits t.document := by
      have hafter := Sitting.after_mount_edits key id arguments s
      rwa [Sitting.after, hmount] at hafter
    have hchildren : ∀ n < s.document.cells.size, t.document.childrenOf n =
        if n = target then s.document.childrenOf n ++ [j] else s.document.childrenOf n := by
      intro n hn
      have hc : s.document.cells[n]? = some s.document.cells[n] := Array.getElem?_eq_getElem hn
      simp only [Document.childrenOf, hcells n hn, hc]
      split <;> simp
    obtain ⟨before, below, after, hsplit, hbelow, hproper'⟩ := hproper.insert
      (List.mem_of_find?_eq_some hfirst) hedits hchildren hblock hnew hnodup
    exact ⟨before, target, below, after, block, hsplit, hfirst, hbelow, hblock, hproper', hnew,
      hcells⟩
  · cases hfirst : nodes.find? (s.document.hasId id) with
    | none =>
      rw [hfirst] at hfind
      rw [Sitting.remove_of_missing hfind] at hremove
      cases hremove
    | some i =>
      rw [hfirst] at hfind hbody
      rw [Sitting.remove_of_find hfind] at hremove
      cases hremove
      obtain ⟨before, below, after, hsplit, hbelow, hkept, hproper'⟩ :=
        hproper.remove (List.mem_of_find?_eq_some hfirst) (by simpa using hbody)
      exact ⟨before, i, below, after, hsplit, rfl, hbelow, hkept, hproper',
        s.document.cells_detach i⟩
  · cases hfirst : nodes.find? (s.document.hasId id) with
    | none =>
      rw [hfirst] at hfind
      refine ⟨false, _, Sitting.remove_of_missing hfind, ?_⟩
      simpa using hfirst
    | some i =>
      rw [hfirst] at hfind
      refine ⟨true, _, Sitting.remove_of_find hfind, ?_⟩
      have hid := List.find?_some hfirst
      have hmem := List.mem_of_find?_eq_some hfirst
      simpa using ⟨i, hmem, hid⟩

/-- Two nodes with one id, the second below the first. -/
theorem mount_remove_local_twins :
    let s := performAll [.addTarget "slot" "div", .addTarget "slot" "p", .append 1 2,
      .addTarget "end" "hr", .act (.register "A" ⟨.fixed "b" .none [], false⟩)] {}
    s.document.Proper [0, 1, 2, 3] ∧
    (∃ t before target below after block, Sitting.mount "A" "slot" [] s = .ok (some 5) t ∧
      [0, 1, 2, 3] = before ++ target :: below ++ after ∧
      t.document.Proper (before ++ target :: below ++ block ++ after)) ∧
    ∃ t before i below after, Sitting.remove "slot" s = .ok true t ∧
      [0, 1, 2, 3] = before ++ i :: below ++ after ∧ t.document.Proper (before ++ after) := by
  intro s
  have hproper : s.document.Proper [0, 1, 2, 3] := by
    refine Document.proper_of_edits (performAll_edits _ {}) ?_ (by decide)
    have hsize : s.document.cells.size = 4 := rfl
    have hsecond : s.document.Walk [2] [2] := .single (by omega) .nil
    have hfirst : s.document.Walk [1] [1, 2] := .single (by omega) hsecond
    have hlast : s.document.Walk [3] [3] := .single (by omega) .nil
    exact .single (by simp [hsize, Document.body]) (hfirst.append hlast)
  have hmount : ∃ t, Sitting.mount "A" "slot" [] s = .ok (some 5) t := ⟨_, rfl⟩
  have hremove : ∃ t, Sitting.remove "slot" s = .ok true t := ⟨_, rfl⟩
  have hbody : [0, 1, 2, 3].find? (s.document.hasId "slot") ≠ some Document.body := by
    decide +kernel
  obtain ⟨-, hmounts, hremoves, -⟩ := mount_remove_local s [0, 1, 2, 3] hproper "A" "slot" []
  obtain ⟨t, hmount⟩ := hmount
  obtain ⟨u, hremove⟩ := hremove
  obtain ⟨before, target, below, after, block, hsplit, -, -, -, hproper', -⟩ := hmounts 5 t hmount
  obtain ⟨before', i, below', after', hsplit', -, -, -, hproper'', -⟩ := hremoves u hremove hbody
  exact ⟨hproper, ⟨t, before, target, below, after, block, hmount, hsplit, hproper'⟩,
    u, before', i, below', after', hremove, hsplit', hproper''⟩

-- The copy comes after the second node with the id, which is below the first one.
example :
    let s := performAll [.addTarget "slot" "div", .addTarget "slot" "p", .append 1 2,
      .addTarget "end" "hr", .act (.register "A" ⟨.fixed "b" .none [], false⟩)] {}
    let tags (t : Session) : Option (List String) :=
      (t.document.read 0).toOption.map fun tree => tree.preorder.map Face.tag
    tags (s.perform (.act (.mount "A" "slot" []))) = some ["body", "div", "p", "b", "hr"] ∧
      tags (s.perform (.act (.remove "slot"))) = some ["body", "hr"] := by
  decide +kernel

end Session

end Pageloom
