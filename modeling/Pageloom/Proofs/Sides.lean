import Mathlib.Logic.Relation
import Pageloom.Proofs.Holding
import Pageloom.Proofs.Outcome

/-!
# Sides of a document

The cells of a document are divided in two: those on one side, given by a predicate, and the
others. A document is sided where no link leads from one side to the other. Work on nodes of
one side then leaves the cells of the other side as they are, and keeps the document sided,
since a node that is moved takes its links along.

This is used twice. A factory works on the cells from a number on, which are the ones that it
made; and whoever holds nodes of a page works on the side that does not hold the nodes kept
back for later copies.

## Main definitions

* `Pageloom.Document.Links`, `Pageloom.Document.Reaches` -- ways from cell to cell
* `Pageloom.Document.Sided` -- no link leads to the other side
* `Pageloom.Document.Works` -- work on one side
* `Pageloom.Document.graft_works`, `Pageloom.Document.graft_holds` -- copies are new trees
-/

namespace Pageloom

namespace Document

/-- A cell knows another one as a child or as its parent. -/
def Links (d : Document) (i j : Nat) : Prop :=
  ∃ c, d.cells[i]? = some c ∧ (j ∈ c.children ∨ c.parent = some j)

/-- The cells that can be got at from a cell. -/
def Reaches (d : Document) : Nat → Nat → Prop := Relation.ReflTransGen d.Links

/-- Every link leads to a cell of the document, on the same side. -/
def Sided (S : Nat → Prop) (d : Document) : Prop :=
  ∀ i j, d.Links i j → j < d.cells.size ∧ (S j ↔ S i)

/-- Work on one side: cells on the other side are as they were. -/
structure Works (S : Nat → Prop) (d e : Document) : Prop where
  size_le : d.cells.size ≤ e.cells.size
  same : d.Sided S → ∀ i, ¬ S i → e.cells[i]? = d.cells[i]?
  sided : d.Sided S → e.Sided S

variable {S : Nat → Prop} {d e : Document}

theorem Links.lt_size {i j : Nat} (h : d.Links i j) : i < d.cells.size := by
  obtain ⟨c, hc, -⟩ := h
  exact (Array.getElem?_eq_some_iff.mp hc).1

/-! ## Sides -/

/-- A page with nothing in its body has no links. -/
theorem sided_empty (S : Nat → Prop) : empty.Sided S := by
  rintro i j ⟨c, hc, hto⟩
  cases i with
  | zero =>
    obtain rfl : c = { face := { tag := "body" } } := (Option.some.inj hc).symm
    simp at hto
  | succ i => cases hc

namespace Sided

theorem reaches {i j : Nat} (h : d.Sided S) (hreach : d.Reaches i j) : S j ↔ S i := by
  induction hreach with
  | refl => exact Iff.rfl
  | tail _ hlink ih => exact (h _ _ hlink).2.trans ih

theorem compl (h : d.Sided S) : d.Sided fun i => ¬ S i := by
  intro i j hlink
  exact ⟨(h i j hlink).1, not_congr (h i j hlink).2⟩

/-- The cells that a document does not have yet are a side. -/
theorem above (h : d.Sided S) : d.Sided (d.cells.size ≤ ·) := by
  intro i j hlink
  have hi := hlink.lt_size
  have hj := (h i j hlink).1
  exact ⟨hj, by omega⟩

/-- New cells that keep to themselves are on one side, whichever it is. -/
theorem merge {Q : Nat → Prop} (h : d.Sided S) (hnew : e.Sided (d.cells.size ≤ ·))
    (hsame : ∀ i, ¬ d.cells.size ≤ i → e.cells[i]? = d.cells[i]?)
    (hold : ∀ i, i < d.cells.size → (Q i ↔ S i))
    (halike : ∀ i j, d.cells.size ≤ i → i < e.cells.size → d.cells.size ≤ j →
      j < e.cells.size → (Q i ↔ Q j)) : e.Sided Q := by
  intro i j hlink
  obtain ⟨hj, hside⟩ := hnew i j hlink
  refine ⟨hj, ?_⟩
  by_cases hi : d.cells.size ≤ i
  · exact halike j i (hside.mpr hi) hj hi hlink.lt_size
  · obtain ⟨c, hc, hto⟩ := hlink
    rw [hsame i hi] at hc
    obtain ⟨hj', hold'⟩ := h i j ⟨c, hc, hto⟩
    rw [hold j hj', hold i (by omega)]
    exact hold'

end Sided

/-! ## Work -/

namespace Works

theorem refl (S : Nat → Prop) (d : Document) : Works S d d := ⟨Nat.le_refl _, fun _ _ _ => rfl, id⟩

theorem trans {f : Document} (h : Works S d e) (h' : Works S e f) : Works S d f where
  size_le := Nat.le_trans h.size_le h'.size_le
  same hd i hi := (h'.same (h.sided hd) i hi).trans (h.same hd i hi)
  sided hd := h'.sided (h.sided hd)

/-- Work on new cells is work on a side that they all belong to. -/
theorem widen (h : Works (d.cells.size ≤ ·) d e) (hnew : ∀ i, d.cells.size ≤ i → S i) :
    Works S d e where
  size_le := h.size_le
  same hd i hi := h.same hd.above i fun hle => hi (hnew i hle)
  sided hd := by
    refine hd.merge (h.sided hd.above) (h.same hd.above) (fun _ _ => Iff.rfl) ?_
    intro i j hi _ hj _
    exact iff_of_true (hnew i hi) (hnew j hj)

/-- A change of one cell that gives it no link to the other side. -/
theorem modifyCell {i : Nat} {change : LiveCell → LiveCell} (hi : S i)
    (hlinks : ∀ c j, j ∈ (change c).children ∨ (change c).parent = some j →
      (j ∈ c.children ∨ c.parent = some j) ∨ (j < d.cells.size ∧ S j)) :
    Works S d (d.modifyCell i change) := by
  refine ⟨Nat.le_of_eq (size_modifyCell d i change).symm, fun _ k hk => ?_, fun hd k j hlink => ?_⟩
  · rw [cells_modifyCell, if_neg]
    rintro rfl
    exact hk hi
  · obtain ⟨c, hc, hto⟩ := hlink
    rw [size_modifyCell]
    rw [cells_modifyCell] at hc
    split at hc
    · next heq =>
      subst heq
      obtain ⟨c', hc', rfl⟩ := Option.map_eq_some_iff.mp hc
      rcases hlinks c' j hto with hold | ⟨hj, hS⟩
      · exact hd k j ⟨c', hc', hold⟩
      · exact ⟨hj, iff_of_true hS hi⟩
    · exact hd k j ⟨c, hc, hto⟩

theorem modifyFace {i : Nat} (hi : S i) (change : Face → Face) :
    Works S d (d.modifyFace i change) := modifyCell hi fun _ _ => .inl

theorem add (hnew : S d.cells.size) (face : Face) : Works S d (d.add face).1 := by
  refine ⟨by simp, fun _ i hi => ?_, fun hd i j ⟨c, hc, hto⟩ => ?_⟩
  · rw [add_cells, if_neg]
    rintro rfl
    exact hi hnew
  · rw [add_cells] at hc
    split at hc
    · cases hc
      simp at hto
    · have hlink := hd i j ⟨c, hc, hto⟩
      rw [add_fst_size]
      exact ⟨Nat.lt_succ_of_lt hlink.1, hlink.2⟩

theorem detach {i : Nat} (hi : S i) : Works S d (d.detach i) := by
  unfold Document.detach
  cases hp : d.parent? i with
  | none => exact refl S d
  | some p =>
    have hlink : d.Links i p := by
      obtain ⟨c, hc, hparent⟩ := Option.bind_eq_some_iff.mp hp
      exact ⟨c, hc, .inr hparent⟩
    have hwork : d.Sided S →
        Works S d ((d.modifyCell p fun c => { c with children := c.children.erase i }).modifyCell i
          fun c => { c with parent := none }) := by
      intro hd
      have hpS : S p := (hd i p hlink).2.mpr hi
      refine (modifyCell hpS fun c j hj => ?_).trans (modifyCell hi fun c j hj => ?_)
      · exact .inl (hj.imp_left List.mem_of_mem_erase)
      · simp only [reduceCtorEq, or_false] at hj
        exact .inl (.inl hj)
    refine ⟨by simp [Document.modifyCell], fun hd => (hwork hd).same hd, fun hd => ?_⟩
    exact (hwork hd).sided hd

theorem append {p i : Nat} (hp : S p) (hi : S i) (hpd : p < d.cells.size)
    (hid : i < d.cells.size) : Works S d (d.append p i) := by
  have hdetach : Works S d (d.detach i) := detach hi
  unfold Document.append
  refine hdetach.trans ((modifyCell hi fun c j hj => ?_).trans (modifyCell hp fun c j hj => ?_))
  · rcases hj with hj | hj
    · exact .inl (.inl hj)
    · cases hj
      exact .inr ⟨Nat.lt_of_lt_of_le hpd hdetach.size_le, hp⟩
  · rcases hj with hj | hj
    · rcases List.mem_append.mp hj with hj | hj
      · exact .inl (.inl hj)
      · cases List.mem_singleton.mp hj
        refine .inr ⟨?_, hi⟩
        simpa [Document.modifyCell] using Nat.lt_of_lt_of_le hid hdetach.size_le
    · exact .inl (.inr hj)

end Works

/-! ## Finding -/

/-- What is found below nodes can be got at from them. -/
theorem findWithin_reaches {id : String} {i : Nat} : ∀ {bound : Nat} {nodes : List Nat},
    d.findWithin id bound nodes = .ok (some i) →
      i < d.cells.size ∧ ∃ node ∈ nodes, d.Reaches node i
  | bound, [], h => by simp [findWithin] at h
  | 0, _ :: _, h => by simp [findWithin] at h
  | bound + 1, node :: rest, h => by
    rw [findWithin] at h
    cases hc : d.cells[node]? with
    | none =>
      rw [hc] at h
      obtain ⟨hi, other, hmem, hreach⟩ := findWithin_reaches h
      exact ⟨hi, other, List.mem_cons_of_mem node hmem, hreach⟩
    | some c =>
      simp only [hc] at h
      split at h
      · cases h
        exact ⟨(Array.getElem?_eq_some_iff.mp hc).1, _, List.mem_cons_self, .refl⟩
      · obtain ⟨hi, other, hmem, hreach⟩ := findWithin_reaches h
        refine ⟨hi, ?_⟩
        rcases List.mem_append.mp hmem with hchild | hmem
        · exact ⟨node, List.mem_cons_self, .head ⟨c, hc, .inl hchild⟩ hreach⟩
        · exact ⟨other, List.mem_cons_of_mem node hmem, hreach⟩

theorem findById_reaches {id : String} {i : Nat} (h : d.findById id = .ok (some i)) :
    i < d.cells.size ∧ d.Reaches body i := by
  obtain ⟨hi, node, hmem, hreach⟩ := findWithin_reaches h
  cases List.mem_singleton.mp hmem
  exact ⟨hi, hreach⟩

/-! ## Trees on one side -/

mutual

/-- A tree stays where the cells of its side stay. -/
theorem Holds.onSide (hd : d.Sided S) (hsame : ∀ i, S i → e.cells[i]? = d.cells[i]?) :
    ∀ {t : LiveTree} {base i : Nat}, S i → d.Holds base t i → e.Holds base t i
  | .mk _ _, _, i, hi, ⟨hbase, c, hc, hface, hall⟩ => by
    refine ⟨hbase, c, (hsame i hi).trans hc, hface, HoldsAll.onSide hd hsame ?_ hall⟩
    intro j hj
    exact (hd i j ⟨c, hc, .inl hj⟩).2.mpr hi

theorem HoldsAll.onSide (hd : d.Sided S) (hsame : ∀ i, S i → e.cells[i]? = d.cells[i]?) :
    ∀ {ts : List LiveTree} {base : Nat} {is : List Nat}, (∀ i ∈ is, S i) →
      d.HoldsAll base ts is → e.HoldsAll base ts is
  | [], _, _, _, h => h
  | _ :: _, _, _, his, ⟨i, rest, heq, ht, hts⟩ => by
    subst heq
    exact ⟨i, rest, rfl, Holds.onSide hd hsame (his i List.mem_cons_self) ht,
      HoldsAll.onSide hd hsame (fun j hj => his j (List.mem_cons_of_mem i hj)) hts⟩

end

theorem holdsAll_of_mapM {read : Nat → Except Fault LiveTree}
    (hread : ∀ {i : Nat} {t : LiveTree}, read i = .ok t → d.Holds 0 t i) :
    ∀ {is : List Nat} {ts : List LiveTree}, is.mapM read = .ok ts → d.HoldsAll 0 ts is
  | [], ts, h => by
    cases h
    simp [HoldsAll]
  | i :: is, ts, h => by
    obtain ⟨t, rest, rfl, ht, hrest⟩ := mapM_cons_eq_ok h
    exact ⟨i, is, rfl, hread ht, holdsAll_of_mapM hread hrest⟩

theorem holds_of_readWithin : ∀ {depth i : Nat} {t : LiveTree},
    d.readWithin depth i = .ok t → d.Holds 0 t i
  | 0, i, t, h => by cases h
  | depth + 1, i, t, h => by
    rw [readWithin] at h
    cases hc : d.cells[i]? with
    | none =>
      rw [hc] at h
      cases h
    | some c =>
      simp only [hc] at h
      obtain ⟨ts, hts, h⟩ := except_bind_eq_ok.mp h
      cases h
      exact ⟨Nat.zero_le i, c, hc, rfl, holdsAll_of_mapM holds_of_readWithin hts⟩

/-! ## Copies -/

mutual

/-- A copy is made on any side that the new cells belong to. -/
theorem graft_works : ∀ (t : LiveTree) {d : Document}, (∀ i, d.cells.size ≤ i → S i) →
    (graft t d).2 = d.cells.size ∧ d.cells.size < (graft t d).1.cells.size ∧
      Works S d (graft t d).1
  | .mk face ts, d, hnew => by
    have hadd : Works S d (d.add face).1 := .add (hnew _ (Nat.le_refl _)) face
    have hall := graftAll_works ts (d := (d.add face).1) d.cells.size
      (fun i hi => hnew i (Nat.le_trans hadd.size_le hi)) (hnew _ (Nat.le_refl _)) (by simp)
    refine ⟨rfl, ?_, hadd.trans hall⟩
    exact Nat.lt_of_lt_of_le (by simp) hall.size_le

theorem graftAll_works : ∀ (ts : List LiveTree) {d : Document} (parent : Nat),
    (∀ i, d.cells.size ≤ i → S i) → S parent → parent < d.cells.size →
      Works S d (graftAll parent ts d)
  | [], d, _, _, _, _ => .refl S d
  | t :: ts, d, parent, hnew, hparent, hlt => by
    obtain ⟨hroot, hsize, hgraft⟩ := graft_works t hnew
    have happend : Works S (graft t d).1 ((graft t d).1.append parent (graft t d).2) := by
      refine .append hparent (hnew _ (Nat.le_of_eq hroot.symm)) (Nat.lt_trans hlt hsize) ?_
      rw [hroot]
      exact hsize
    have hwork := hgraft.trans happend
    exact hwork.trans (graftAll_works ts parent
      (fun i hi => hnew i (Nat.le_trans hwork.size_le hi)) hparent
      (Nat.lt_of_lt_of_le hlt hwork.size_le))

end

theorem graft_snd (t : LiveTree) (d : Document) : (graft t d).2 = d.cells.size := by
  cases t
  rfl

theorem size_lt_graft (t : LiveTree) (d : Document) :
    d.cells.size < (graft t d).1.cells.size :=
  (graft_works (S := fun _ => True) t fun _ _ => trivial).2.1

theorem clone_works {i j : Nat} {deep : Bool} (hnew : ∀ k, d.cells.size ≤ k → S k)
    (h : d.clone i deep = .ok (e, j)) : j = d.cells.size ∧ j < e.cells.size ∧ Works S d e := by
  unfold clone at h
  cases deep with
  | true =>
    obtain ⟨t, -, h⟩ := except_bind_eq_ok.mp h
    have hgraft : graft t d = (e, j) := Except.ok.inj h
    obtain ⟨hroot, hsize, hwork⟩ := graft_works t hnew
    rw [hgraft] at hroot hsize hwork
    exact ⟨hroot, Nat.lt_of_le_of_lt (Nat.le_of_eq hroot) hsize, hwork⟩
  | false =>
    cases hface : d.face? i with
    | none =>
      rw [hface] at h
      cases h
    | some face =>
      rw [hface] at h
      cases h
      exact ⟨rfl, by simp, .add (hnew _ (Nat.le_refl _)) face⟩

mutual

/-- A copy is a new tree without a place. -/
theorem graft_holds : ∀ (t : LiveTree) (d : Document),
    d.Grows (graft t d).1 ∧ (graft t d).1.parent? (graft t d).2 = none ∧
      (graft t d).1.Holds d.cells.size t (graft t d).2
  | .mk face ts, d => by
    have hcell : (d.add face).1.cells[d.cells.size]? = some { face } := by
      rw [add_cells, if_pos rfl]
    obtain ⟨hsame, js, hparent, hholds⟩ := graftAll_holds ts hcell (Nat.lt_add_one d.cells.size)
      (by simp)
    refine ⟨fun k c hc => ?_, ?_, Nat.le_refl _, _, hparent, rfl, hholds.mono (Nat.le_succ _)⟩
    · have hk : k < d.cells.size := (Array.getElem?_eq_some_iff.mp hc).1
      exact hsame k c (by omega) (grows_add _ face k c hc)
    · change ((graftAll d.cells.size ts (d.add face).1).cells[d.cells.size]?).bind _ = none
      rw [hparent]
      rfl

theorem graftAll_holds : ∀ (ts : List LiveTree) {d : Document} {parent base : Nat} {c : LiveCell},
    d.cells[parent]? = some c → parent < base → base ≤ d.cells.size →
    (∀ k c', k ≠ parent → d.cells[k]? = some c' →
      (graftAll parent ts d).cells[k]? = some c') ∧
    ∃ js, (graftAll parent ts d).cells[parent]? = some { c with children := c.children ++ js } ∧
      (graftAll parent ts d).HoldsAll base ts js
  | [], d, parent, base, c, hc, _, _ => by
    refine ⟨fun _ _ _ hc' => hc', [], ?_, by simp [HoldsAll]⟩
    rw [List.append_nil]
    exact hc
  | t :: ts, d, parent, base, c, hc, hlt, hle => by
    obtain ⟨hgrows, hdetached, hholds⟩ := graft_holds t d
    have hfresh := hholds.base_le
    have hne : parent ≠ (graft t d).2 := by omega
    have happended := append_cells hdetached hne
    have hparent : ((graft t d).1.append parent (graft t d).2).cells[parent]? =
        some { c with children := c.children ++ [(graft t d).2] } := by
      rw [happended, hgrows parent c hc]
      simp
    have hkept := keepsFrom_append hdetached hne hlt
    have hsize : base ≤ ((graft t d).1.append parent (graft t d).2).cells.size := by
      have := (hholds.mono hle |>.keep hkept).lt_size
      omega
    obtain ⟨hsame, js, hcell, hrest⟩ := graftAll_holds ts hparent hlt hsize
    refine ⟨fun k c' hk hc' => ?_, (graft t d).2 :: js, ?_, _, js, rfl, ?_, hrest⟩
    · have hkd : k < d.cells.size := (Array.getElem?_eq_some_iff.mp hc').1
      have hkj : k ≠ (graft t d).2 := by omega
      refine hsame k c' hk ?_
      rw [happended, hgrows k c' hc']
      simp [hk, hkj]
    · rw [graftAll]
      simpa using hcell
    · refine (hholds.mono hle).keep (hkept.trans fun k c' hk hc' => ?_)
      exact ⟨c', hsame k c' (by omega) hc', rfl, rfl⟩

end

end Document

end Pageloom
