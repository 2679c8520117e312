import Pageloom.Proofs.Mounting

/-!
# Links of a live page

A node knows its parent, and the parent has it among its children. The two are written one after
the other, and a node that is appended leaves its old place first, which may be below the same
parent, below the node itself, or nowhere. Nothing looks for cycles, so the links may run in
circles. They still agree with each other at every node.

All that is done to a page comes down to four edits: a node is made, says something else of
itself, is taken from its place, or is put below another one. What these keep is kept by copies,
by factories and by whole sessions.

## Main definitions

* `Pageloom.Document.childrenOf` -- the children of a node, beside `Pageloom.Document.parent?`
* `Pageloom.Document.Knows`, `Pageloom.Document.Known` -- the two directions of a link
* `Pageloom.Document.Edits` -- edits, one after the other
* `Pageloom.Session.Deed`, `Pageloom.Session.performAll` -- what is done with any nodes of a page
* `Pageloom.Session.links_agree` -- parents and children agree
-/

namespace Pageloom

namespace Document

/-! ## Parents and children after each edit -/

variable {d e : Document}

/-- The children of a node. -/
def childrenOf (d : Document) (p : Nat) : List Nat := (d.cells[p]?.map LiveCell.children).getD []

@[simp] theorem size_detach (d : Document) (i : Nat) : (d.detach i).cells.size = d.cells.size := by
  unfold detach
  cases d.parent? i <;> simp

@[simp] theorem size_append (d : Document) (p i : Nat) :
    (d.append p i).cells.size = d.cells.size := by simp [append]

theorem cells_detach (d : Document) (i k : Nat) :
    (d.detach i).cells[k]? = d.cells[k]?.map fun c =>
      { c with
        children := if d.parent? i = some k then c.children.erase i else c.children
        parent := if k = i then none else c.parent } := by
  unfold detach
  cases hp : d.parent? i with
  | none =>
    by_cases hk : k = i
    · subst hk
      cases hc : d.cells[k]? with
      | none => rfl
      | some c =>
        obtain ⟨face, children, parent⟩ := c
        obtain rfl : parent = none := by simpa [parent?, hc] using hp
        simp
    · simp [hk]
  | some p =>
    simp only [cells_modifyCell, Option.some.injEq, @eq_comm _ p k]
    by_cases hk : k = i
    · subst hk
      by_cases hkp : k = p <;> simp [hkp, Function.comp_def]
    · by_cases hkp : k = p
      · subst hkp
        simp [hk]
      · simp [hk, hkp]

theorem cells_append (d : Document) (p i k : Nat) :
    (d.append p i).cells[k]? = (d.detach i).cells[k]?.map fun c =>
      { c with
        children := if k = p then c.children ++ [i] else c.children
        parent := if k = i then some p else c.parent } := by
  simp only [append, cells_modifyCell]
  by_cases hk : k = i
  · subst hk
    by_cases hkp : k = p <;> simp [hkp, Function.comp_def]
  · by_cases hkp : k = p
    · subst hkp
      simp [hk]
    · simp [hk, hkp]

theorem parent?_detach (d : Document) (i k : Nat) :
    (d.detach i).parent? k = if k = i then none else d.parent? k := by
  simp only [parent?, cells_detach]
  by_cases hk : k = i <;> cases d.cells[k]? <;> simp [hk]

theorem childrenOf_detach (d : Document) (i k : Nat) :
    (d.detach i).childrenOf k =
      if d.parent? i = some k then (d.childrenOf k).erase i else d.childrenOf k := by
  simp only [childrenOf, cells_detach]
  cases d.cells[k]? <;> simp

theorem parent?_append {i : Nat} (hi : i < d.cells.size) (p k : Nat) :
    (d.append p i).parent? k = if k = i then some p else d.parent? k := by
  simp only [parent?, cells_append, cells_detach]
  cases hc : d.cells[k]? with
  | none =>
    have hk : k ≠ i := by grind
    simp [hk]
  | some c => by_cases hk : k = i <;> simp [hk]

theorem childrenOf_append {p : Nat} (hp : p < d.cells.size) (i k : Nat) :
    (d.append p i).childrenOf k =
      if k = p then (d.detach i).childrenOf k ++ [i] else (d.detach i).childrenOf k := by
  simp only [childrenOf, cells_append]
  cases hc : (d.detach i).cells[k]? with
  | none =>
    have hk : k ≠ p := by grind [size_detach]
    simp [hk]
  | some c => simp

theorem parent?_add (d : Document) (face : Face) (k : Nat) :
    (d.add face).1.parent? k = d.parent? k := by
  simp only [parent?, add_cells]
  split
  · next h => simp [h]
  · rfl

theorem childrenOf_add (d : Document) (face : Face) (k : Nat) :
    (d.add face).1.childrenOf k = d.childrenOf k := by
  simp only [childrenOf, add_cells]
  split
  · next h => simp [h]
  · rfl

theorem parent?_modifyFace (d : Document) (i : Nat) (change : Face → Face) (k : Nat) :
    (d.modifyFace i change).parent? k = d.parent? k := by
  simp only [parent?, modifyFace, cells_modifyCell]
  split
  · cases d.cells[k]? <;> rfl
  · rfl

theorem childrenOf_modifyFace (d : Document) (i : Nat) (change : Face → Face) (k : Nat) :
    (d.modifyFace i change).childrenOf k = d.childrenOf k := by
  simp only [childrenOf, modifyFace, cells_modifyCell]
  split
  · cases d.cells[k]? <;> rfl
  · rfl

/-! ## Links in both directions -/

/-- The children of the nodes of `S` know their parents, and are there once. -/
def Knows (S : Nat → Prop) (d : Document) : Prop :=
  ∀ p n, S p → (d.childrenOf p).count n ≤ if d.parent? n = some p then 1 else 0

/-- Parents have those who know them among their children. -/
def Known (d : Document) : Prop := ∀ p n, d.parent? n = some p → n ∈ d.childrenOf p

variable {S : Nat → Prop} {p i : Nat}

theorem Knows.parent?_eq {n : Nat} (h : d.Knows S) (hp : S p) (hn : n ∈ d.childrenOf p) :
    d.parent? n = some p := by
  have hcount := h p n hp
  have hpos : 0 < (d.childrenOf p).count n := List.count_pos_iff.mpr hn
  by_contra hparent
  rw [if_neg hparent] at hcount
  omega

theorem Knows.nodup (h : d.Knows S) (hp : S p) : (d.childrenOf p).Nodup := by
  refine List.nodup_iff_count_le_one.mpr fun n => ?_
  have hcount := h p n hp
  split at hcount <;> omega

/-- A child is taken out from between its siblings. -/
theorem Knows.exists_detach {n : Nat} (h : d.Knows S) (hp : S p) (hn : n ∈ d.childrenOf p) :
    ∃ before after, d.childrenOf p = before ++ n :: after ∧ n ∉ before ++ after ∧
      (d.detach n).childrenOf p = before ++ after := by
  obtain ⟨before, after, hsplit⟩ := List.append_of_mem hn
  have hnodup := h.nodup hp
  rw [hsplit, List.nodup_middle, List.nodup_cons] at hnodup
  have hbefore : n ∉ before := fun hmem => hnodup.1 (List.mem_append_left _ hmem)
  refine ⟨before, after, hsplit, hnodup.1, ?_⟩
  rw [childrenOf_detach, if_pos (h.parent?_eq hp hn), hsplit, List.erase_append_right _ hbefore,
    List.erase_cons_head]

theorem Knows.detach (h : d.Knows S) (i : Nat) : (d.detach i).Knows S := by
  intro p n hp
  have hcount := h p n hp
  rw [childrenOf_detach, parent?_detach]
  by_cases hn : n = i
  · subst hn
    by_cases hparent : d.parent? n = some p
    · simp only [hparent, if_true] at hcount ⊢
      simp
      omega
    · simpa [hparent] using hcount
  · rw [if_neg hn]
    split
    · rwa [List.count_erase_of_ne hn]
    · exact hcount

theorem Known.detach (h : d.Known) (i : Nat) : (d.detach i).Known := by
  intro p n hparent
  rw [parent?_detach] at hparent
  split at hparent
  · cases hparent
  · next hn =>
    rw [childrenOf_detach]
    split
    · exact (List.mem_erase_of_ne hn).mpr (h p n hparent)
    · exact h p n hparent

theorem Knows.append (h : d.Knows S) (hp : p < d.cells.size) (hi : i < d.cells.size) :
    (d.append p i).Knows S := by
  intro q n hq
  have hcount := h.detach i q n hq
  rw [childrenOf_append hp, parent?_append hi]
  rw [parent?_detach] at hcount
  by_cases hn : n = i
  · subst hn
    simp only [if_true, reduceCtorEq, if_false, Nat.le_zero] at hcount ⊢
    by_cases hqp : q = p
    · simp [hqp ▸ hcount, hqp]
    · simp [hqp, hcount]
  · rw [if_neg hn] at hcount ⊢
    split
    · rwa [List.count_append, List.count_singleton, if_neg (by simpa using Ne.symm hn)]
    · exact hcount

theorem Known.append (h : d.Known) (hp : p < d.cells.size) (hi : i < d.cells.size) :
    (d.append p i).Known := by
  intro q n hparent
  rw [parent?_append hi] at hparent
  rw [childrenOf_append hp]
  split at hparent
  · next hn =>
    cases hparent
    simp [hn]
  · next hn =>
    have hmem : n ∈ (d.detach i).childrenOf q := h.detach i q n (by rwa [parent?_detach, if_neg hn])
    split
    · exact List.mem_append_left _ hmem
    · exact hmem

/-! ## Edits -/

/-- One edit of a page. -/
inductive Edit (d : Document) : Document → Prop
  | add (face : Face) : Edit d (d.add face).1
  | change (i : Nat) (change : Face → Face) : Edit d (d.modifyFace i change)
  | detach (i : Nat) : Edit d (d.detach i)
  | append {p i : Nat} (hp : p < d.cells.size) (hi : i < d.cells.size) : Edit d (d.append p i)

/-- Edits of a page, one after the other. -/
def Edits : Document → Document → Prop := Relation.ReflTransGen Edit

namespace Edit

theorem works (h : d.Edit e) : Works (fun _ => True) d e := by
  cases h with
  | add face => exact .add trivial face
  | change i change => exact .modifyFace trivial change
  | detach i => exact .detach trivial
  | append hp hi => exact .append trivial trivial hp hi

theorem knows (h : d.Edit e) (hd : d.Knows S) : e.Knows S := by
  cases h with
  | add face =>
    intro p n hp
    rw [childrenOf_add, parent?_add]
    exact hd p n hp
  | change i change =>
    intro p n hp
    rw [childrenOf_modifyFace, parent?_modifyFace]
    exact hd p n hp
  | detach i => exact hd.detach i
  | append hp hi => exact hd.append hp hi

theorem known (h : d.Edit e) (hd : d.Known) : e.Known := by
  cases h with
  | add face =>
    intro p n hparent
    rw [parent?_add] at hparent
    rw [childrenOf_add]
    exact hd p n hparent
  | change i change =>
    intro p n hparent
    rw [parent?_modifyFace] at hparent
    rw [childrenOf_modifyFace]
    exact hd p n hparent
  | detach i => exact hd.detach i
  | append hp hi => exact hd.append hp hi

end Edit

namespace Edits

theorem refl (d : Document) : d.Edits d := Relation.ReflTransGen.refl

theorem trans {f : Document} (h : d.Edits e) (h' : e.Edits f) : d.Edits f :=
  Relation.ReflTransGen.trans h h'

theorem of_edit (h : d.Edit e) : d.Edits e := .single h

theorem works (h : d.Edits e) : Works (fun _ => True) d e := by
  induction h with
  | refl => exact Works.refl _ _
  | tail _ hedit ih => exact ih.trans hedit.works

theorem size_le (h : d.Edits e) : d.cells.size ≤ e.cells.size := h.works.size_le

theorem knows (h : d.Edits e) (hd : d.Knows S) : e.Knows S := by
  induction h with
  | refl => exact hd
  | tail _ hedit ih => exact hedit.knows ih

theorem known (h : d.Edits e) (hd : d.Known) : e.Known := by
  induction h with
  | refl => exact hd
  | tail _ hedit ih => exact hedit.known ih

end Edits

theorem knows_empty (S : Nat → Prop) : empty.Knows S := by
  intro p n _
  cases p <;> simp [childrenOf, empty]

theorem known_empty : empty.Known := by
  intro p n hparent
  cases n <;> simp [parent?, empty] at hparent

/-! ## Copies -/

mutual

theorem graft_edits : ∀ (t : LiveTree) (d : Document), d.Edits (graft t d).1
  | .mk face ts, d => by
    have hadd : d.Edits (d.add face).1 := .of_edit (.add face)
    exact hadd.trans (graftAll_edits ts (by simp))

theorem graftAll_edits : ∀ (ts : List LiveTree) {d : Document} {parent : Nat},
    parent < d.cells.size → d.Edits (graftAll parent ts d)
  | [], d, _, _ => .refl d
  | t :: ts, d, parent, hparent => by
    have hgraft := graft_edits t d
    have hsize := size_lt_graft t d
    have happend : (graft t d).1.Edits ((graft t d).1.append parent (graft t d).2) :=
      .of_edit (.append (Nat.lt_trans hparent hsize) (by rwa [graft_snd]))
    have hedits := hgraft.trans happend
    exact hedits.trans (graftAll_edits ts (Nat.lt_of_lt_of_le hparent hedits.size_le))

end

theorem clone_edits {i : Nat} {deep : Bool} {copy : Document × Nat}
    (h : d.clone i deep = .ok copy) : d.Edits copy.1 := by
  unfold clone at h
  cases deep with
  | true =>
    obtain ⟨t, -, h⟩ := except_bind_eq_ok.mp h
    cases h
    exact graft_edits t d
  | false =>
    cases hface : d.face? i with
    | none =>
      rw [hface] at h
      cases h
    | some face =>
      rw [hface] at h
      cases h
      exact .of_edit (.add face)

theorem addTarget_edits (d : Document) (id tag : String) : d.Edits (d.addTarget id tag).1 := by
  have hadd : d.Edits (d.create tag).1 := .of_edit (.add _)
  refine (hadd.trans (.of_edit (.change _ _))).trans (.of_edit (.append ?_ ?_)) <;>
    simp [create, add, body, modifyFace]

end Document

/-! ## Factories and sessions -/

/-- What instructions do are edits. -/
theorem Live.steady_edits : Live.Steady 0 Document.Edits where
  refl := .refl
  trans := .trans
  size_le := Document.Edits.size_le
  add _ face _ := .of_edit (.add face)
  modifyFace _ change i _ := .of_edit (.change i change)
  append _ _ _ _ _ hp hi := .of_edit (.append hp hi)

theorem Registry.call_edits (r : Registry) (key : String) (registration : Registration)
    (arguments : List Value) (s : Stage) :
    Live.EndsBy Document.Edits s (Live.Within 0) (r.call key registration arguments s) :=
  r.callWithin_endsBy Live.steady_edits _ key registration arguments s (Nat.zero_le _)

namespace Sitting

variable {s : Session}

theorem Prepared.edits {key : String} {registration : Registration} {arguments : List Value}
    {i : Nat} {u : Session} (h : Prepared key registration arguments s i u) :
    s.document.Edits u.document := by
  cases h with
  | cached => exact .refl _
  | made stage _ hcall =>
    have hends := s.registry.call_edits key registration arguments s.stage
    rw [hcall] at hends
    exact hends.1

theorem after_mount_edits (key parent : String) (arguments : List Value) (s : Session) :
    s.document.Edits ((mount key parent arguments).after s).document := by
  unfold after
  rcases mount_cases key parent arguments s with
    ⟨t, hsame, hmount⟩ | ⟨registration, fault, stage, hcall, hmount⟩ |
    ⟨target, registration, i, u, hfind, -, hprepared, hmount⟩
  · have hpage : t.document = s.document := congrArg Stage.document hsame.1
    rcases hmount with hmount | ⟨fault, hmount⟩ <;> rw [hmount] <;> exact hpage ▸ .refl _
  · rw [hmount]
    have hends := s.registry.call_edits key registration arguments s.stage
    rwa [hcall] at hends
  · rcases hmount with ⟨fault, hmount⟩ | ⟨tree, -, hmount⟩ <;> rw [hmount]
    · exact hprepared.edits
    · have hgraft := Document.graft_edits tree u.document
      have hsize := Document.size_lt_graft tree u.document
      have htarget := (Document.findById_reaches hfind).1
      have hedits := hprepared.edits.trans hgraft
      exact hedits.trans (.of_edit (.append (Nat.lt_of_lt_of_le htarget hedits.size_le)
        (by rwa [Document.graft_snd])))

theorem after_remove_edits (id : String) (s : Session) :
    s.document.Edits ((remove id).after s).document := by
  rcases after_remove id s with hsame | ⟨i, -, heq⟩
  · rw [Session.document, Session.document, hsame.1]
    exact .refl _
  · rw [heq]
    exact .of_edit (.detach i)

end Sitting

namespace Session

/-- What can be done with a session and with any nodes of its page, by their numbers. -/
inductive Deed
  | act (a : Act)
  | create (tag : String)
  | addTarget (id tag : String)
  | change (node : Nat) (change : Face → Face)
  | detach (node : Nat)
  | append (parent child : Nat)
  | clone (node : Nat) (deep : Bool)

/-- The session after a deed. Numbers of no node are left alone. -/
def perform (s : Session) : Deed → Session
  | .act a => a.run s
  | .create tag => s.withPage (s.document.create tag).1
  | .addTarget id tag => s.withPage (s.document.addTarget id tag).1
  | .change i change => s.withPage (s.document.modifyFace i change)
  | .detach i => s.withPage (s.document.detach i)
  | .append p i =>
    if p < s.document.cells.size ∧ i < s.document.cells.size then
      s.withPage (s.document.append p i)
    else s
  | .clone i deep =>
    match s.document.clone i deep with
    | .ok (d, _) => s.withPage d
    | .error _ => s

/-- The session after deeds, one after the other. -/
def performAll : List Deed → Session → Session
  | [], s => s
  | a :: as, s => performAll as (s.perform a)

/-- Every deed comes down to edits. -/
theorem perform_edits (s : Session) (a : Deed) : s.document.Edits (s.perform a).document := by
  have hpage : ∀ {t : Session}, s.SamePage t → s.document.Edits t.document := by
    intro t h
    rw [document, document, h.1]
    exact .refl _
  cases a with
  | act a =>
    cases a with
    | register key registration => exact hpage (s.samePage_register key registration)
    | load key => exact hpage (s.samePage_load key)
    | fail key reason => exact hpage (s.samePage_failLoad key reason)
    | mount key parent arguments => exact Sitting.after_mount_edits key parent arguments s
    | remove id => exact Sitting.after_remove_edits id s
  | create tag => exact .of_edit (.add _)
  | addTarget id tag => exact s.document.addTarget_edits id tag
  | change i change => exact .of_edit (.change i change)
  | detach i => exact .of_edit (.detach i)
  | append p i =>
    rw [perform]
    split
    · next hlt => exact .of_edit (.append hlt.1 hlt.2)
    · exact .refl _
  | clone i deep =>
    rw [perform]
    cases hclone : s.document.clone i deep with
    | error fault => exact .refl _
    | ok copy => exact Document.clone_edits hclone

theorem performAll_edits (as : List Deed) (s : Session) :
    s.document.Edits (performAll as s).document := by
  induction as generalizing s with
  | nil => exact .refl _
  | cons a as ih => exact (s.perform_edits a).trans (ih _)

/-- **Parents and children agree, whatever is done.** All deeds on a new page come down to edits,
and after any edits a node has a parent exactly if it is among the parent's children. It is there
once, and among no other node's children, so taking it from its place finds it, and takes away
that one child and nothing else. -/
theorem links_agree (loader : Option Loader) (deeds : List Deed) :
    Document.empty.Edits (performAll deeds { loader }).document ∧
    ∀ d, Document.empty.Edits d → ∀ n p,
      (d.parent? n = some p ↔ n ∈ d.childrenOf p) ∧
      (d.parent? n = some p → (d.childrenOf p).count n = 1 ∧
        (∀ q, n ∈ d.childrenOf q → q = p) ∧
        ∃ before after, d.childrenOf p = before ++ n :: after ∧ n ∉ before ++ after ∧
          (d.detach n).childrenOf p = before ++ after ∧ (d.detach n).parent? n = none) := by
  refine ⟨performAll_edits deeds { loader }, fun d hd n p => ?_⟩
  have hknows := hd.knows (Document.knows_empty fun _ => True)
  have hknown := hd.known Document.known_empty
  refine ⟨⟨hknown p n, hknows.parent?_eq trivial⟩, fun hparent => ?_⟩
  have hmem : n ∈ d.childrenOf p := hknown p n hparent
  refine ⟨List.count_eq_one_of_mem (hknows.nodup trivial) hmem, fun q hq => ?_, ?_⟩
  · have hparent' := hknows.parent?_eq trivial hq
    exact Option.some.inj (hparent'.symm.trans hparent)
  · obtain ⟨before, after, hsplit, hnotMem, hdetach⟩ := hknows.exists_detach trivial hmem
    exact ⟨before, after, hsplit, hnotMem, hdetach, by simp [Document.parent?_detach]⟩

-- The first target moves to the end of the body, and then below itself.
example :
    let deeds : List Deed := [.addTarget "a" "div", .addTarget "b" "p", .append 0 1, .append 1 1]
    let d := (performAll deeds { loader := none }).document
    (d.childrenOf 0, d.childrenOf 1, d.parent? 1, d.parent? 2) = ([2], [1], some 1, some 0) := by
  decide +kernel

end Session

end Pageloom
