import Mathlib.Data.List.Perm.Subperm
import Pageloom.Document

/-!
# Trees held by a document

A document is a table of cells; a live tree is what reading from one cell gives.
`Document.Holds` relates the two without a bound on the depth of the reading, and
says from which number on the cells of the tree are. Work on the cells is then
framed by the numbers it leaves alone: a tree whose cells are all new is not
touched by whatever happens to older ones.

## Main definitions

* `Pageloom.Document.Holds` -- a cell is the root of a tree
* `Pageloom.Document.Grows` -- every cell is as it was
* `Pageloom.Document.KeepsFrom` -- faces and children are as they were, from a number on
* `Pageloom.Document.Holds.read` -- reading gives the tree that is held
-/

namespace Pageloom

namespace LiveTree

mutual

/-- The number of nodes on the longest way down a tree. -/
def height : LiveTree → Nat
  | mk _ trees => heightAll trees + 1

/-- The greatest height among trees. -/
def heightAll : List LiveTree → Nat
  | [] => 0
  | t :: ts => max t.height (heightAll ts)

end

end LiveTree

namespace Document

variable {d e : Document} {base i : Nat} {t : LiveTree}

mutual

/-- Cell `i` is the root of a tree, all of whose cells are numbered from `base` on. -/
def Holds (d : Document) (base : Nat) : LiveTree → Nat → Prop
  | .mk face trees, i =>
    base ≤ i ∧ ∃ c, d.cells[i]? = some c ∧ c.face = face ∧ HoldsAll d base trees c.children

/-- Cells are the roots of trees, one by one. -/
def HoldsAll (d : Document) (base : Nat) : List LiveTree → List Nat → Prop
  | [], is => is = []
  | t :: ts, is => ∃ i rest, is = i :: rest ∧ Holds d base t i ∧ HoldsAll d base ts rest

end

/-- Every cell of `d` is the same cell in `e`. -/
def Grows (d e : Document) : Prop :=
  ∀ (i : Nat) (c : LiveCell), d.cells[i]? = some c → e.cells[i]? = some c

/-- The cells of `d` from number `base` on have the same faces and children in `e`. -/
def KeepsFrom (base : Nat) (d e : Document) : Prop :=
  ∀ (i : Nat) (c : LiveCell), base ≤ i → d.cells[i]? = some c →
    ∃ c', e.cells[i]? = some c' ∧ c'.face = c.face ∧ c'.children = c.children

theorem KeepsFrom.trans {f : Document} (h : d.KeepsFrom base e) (h' : e.KeepsFrom base f) :
    d.KeepsFrom base f := by
  intro i c hi hc
  obtain ⟨c₁, hc₁, hface₁, hchildren₁⟩ := h i c hi hc
  obtain ⟨c₂, hc₂, hface₂, hchildren₂⟩ := h' i c₁ hi hc₁
  exact ⟨c₂, hc₂, hface₂.trans hface₁, hchildren₂.trans hchildren₁⟩

/-! ## Frames -/

mutual

theorem Holds.keep (hkeep : d.KeepsFrom base e) :
    ∀ {t : LiveTree} {i : Nat}, d.Holds base t i → e.Holds base t i
  | .mk _ _, _, ⟨hbase, c, hc, hface, hall⟩ => by
    obtain ⟨c', hc', hface', hchildren'⟩ := hkeep _ c hbase hc
    exact ⟨hbase, c', hc', hface'.trans hface, hchildren' ▸ HoldsAll.keep hkeep hall⟩

theorem HoldsAll.keep (hkeep : d.KeepsFrom base e) :
    ∀ {ts : List LiveTree} {is : List Nat}, d.HoldsAll base ts is → e.HoldsAll base ts is
  | [], _, h => h
  | _ :: _, _, ⟨i, rest, his, ht, hts⟩ =>
    ⟨i, rest, his, Holds.keep hkeep ht, HoldsAll.keep hkeep hts⟩

end

mutual

/-- A tree that is new from some number on is new from every lower one on. -/
theorem Holds.mono {lower : Nat} (hle : lower ≤ base) :
    ∀ {t : LiveTree} {i : Nat}, d.Holds base t i → d.Holds lower t i
  | .mk _ _, _, ⟨hbase, c, hc, hface, hall⟩ =>
    ⟨Nat.le_trans hle hbase, c, hc, hface, HoldsAll.mono hle hall⟩

theorem HoldsAll.mono {lower : Nat} (hle : lower ≤ base) :
    ∀ {ts : List LiveTree} {is : List Nat}, d.HoldsAll base ts is → d.HoldsAll lower ts is
  | [], _, h => h
  | _ :: _, _, ⟨i, rest, his, ht, hts⟩ =>
    ⟨i, rest, his, Holds.mono hle ht, HoldsAll.mono hle hts⟩

end

theorem Holds.base_le (h : d.Holds base t i) : base ≤ i := by
  cases t
  exact h.1

theorem Holds.lt_size (h : d.Holds base t i) : i < d.cells.size := by
  cases t
  obtain ⟨-, c, hc, -⟩ := h
  exact (Array.getElem?_eq_some_iff.mp hc).1

mutual

/-- A cell is the root of one tree only. -/
theorem Holds.unique {other : Nat} :
    ∀ {t u : LiveTree} {i : Nat}, d.Holds base t i → d.Holds other u i → t = u
  | .mk _ _, .mk _ _, _, ⟨_, c, hc, hface, hall⟩, ⟨_, c', hc', hface', hall'⟩ => by
    obtain rfl : c = c' := Option.some.inj (hc.symm.trans hc')
    rw [← hface, ← hface', HoldsAll.unique hall hall']

theorem HoldsAll.unique {other : Nat} :
    ∀ {ts us : List LiveTree} {is : List Nat},
      d.HoldsAll base ts is → d.HoldsAll other us is → ts = us
  | [], [], _, _, _ => rfl
  | [], _ :: _, _, h, ⟨_, _, h', _⟩ => nomatch h.symm.trans h'
  | _ :: _, [], _, ⟨_, _, h', _⟩, h => nomatch h.symm.trans h'
  | _ :: _, _ :: _, _, ⟨i, rest, his, ht, hts⟩, ⟨j, rest', his', hu, hus⟩ => by
    obtain ⟨rfl, rfl⟩ := List.cons.inj (his.symm.trans his')
    rw [Holds.unique ht hu, HoldsAll.unique hts hus]

end

/-! ## Reading

Reading stops at as many levels as there are cells. A tree that is held has no
more levels than that, since a way down it never meets a cell twice: the tree of
a cell is unique, and smaller than the trees of the cells above it. -/

mutual

theorem Holds.readWithin :
    ∀ {t : LiveTree} {i depth : Nat}, d.Holds base t i → t.height ≤ depth →
      d.readWithin depth i = .ok t
  | .mk _ _, _, 0, _, hle => absurd hle (by simp [LiveTree.height])
  | .mk _ _, _, depth + 1, ⟨_, c, hc, hface, hall⟩, hle => by
    have hread : (c.children.mapM fun j => d.readWithin depth j) = .ok _ :=
      HoldsAll.readWithin hall (by simpa [LiveTree.height] using hle)
    simp only [Document.readWithin, hc, hread, hface]
    rfl

theorem HoldsAll.readWithin :
    ∀ {ts : List LiveTree} {is : List Nat} {depth : Nat}, d.HoldsAll base ts is →
      LiveTree.heightAll ts ≤ depth → (is.mapM fun j => d.readWithin depth j) = .ok ts
  | [], _, _, h, _ => by
    cases h
    rfl
  | _ :: _, _, _, ⟨_, _, his, ht, hts⟩, hle => by
    subst his
    simp only [LiveTree.heightAll, Nat.max_le] at hle
    rw [List.mapM_cons, Holds.readWithin ht hle.1, HoldsAll.readWithin hts hle.2]
    rfl

end

/-- Distinct cells are no more than there are cells. -/
theorem length_le_size {path : List Nat} (hnodup : path.Nodup)
    (hlt : ∀ u ∈ path, u < d.cells.size) : path.length ≤ d.cells.size := by
  have hsub : path ⊆ List.range d.cells.size := fun u hu => List.mem_range.mpr (hlt u hu)
  simpa using (List.subperm_of_subset hnodup hsub).length_le

mutual

/-- `path` are cells above `i`, each with a larger tree than that of `i`. -/
theorem Holds.height_add_length_le :
    ∀ {t : LiveTree} {i : Nat} {path : List Nat}, d.Holds base t i → path.Nodup →
      (∀ u ∈ path, ∃ above, d.Holds base above u ∧ sizeOf t < sizeOf above) →
      t.height + path.length ≤ d.cells.size
  | .mk face trees, i, path, hold@⟨_, c, hc, hface, hall⟩, hnodup, habove => by
    have hmem : i ∉ path := by
      intro hi
      obtain ⟨above, hheld, hlt⟩ := habove i hi
      rw [Holds.unique hold hheld] at hlt
      exact Nat.lt_irrefl _ hlt
    have hsmaller : sizeOf trees < sizeOf (LiveTree.mk face trees) := by
      simp only [LiveTree.mk.sizeOf_spec]
      omega
    have hstep := HoldsAll.height_add_length_le hall (List.nodup_cons.mpr ⟨hmem, hnodup⟩)
      (by
        intro u hu
        rcases List.mem_cons.mp hu with rfl | hu
        · exact ⟨_, hold, hsmaller⟩
        · obtain ⟨above, hheld, hlt⟩ := habove u hu
          exact ⟨above, hheld, Nat.lt_trans hsmaller hlt⟩)
    simp only [List.length_cons] at hstep
    simp only [LiveTree.height]
    omega

theorem HoldsAll.height_add_length_le :
    ∀ {ts : List LiveTree} {is path : List Nat}, d.HoldsAll base ts is → path.Nodup →
      (∀ u ∈ path, ∃ above, d.Holds base above u ∧ sizeOf ts < sizeOf above) →
      LiveTree.heightAll ts + path.length ≤ d.cells.size
  | [], _, path, _, hnodup, habove => by
    have := length_le_size hnodup fun u hu => (habove u hu).choose_spec.1.lt_size
    simpa [LiveTree.heightAll] using this
  | t :: ts, _, path, ⟨_, _, _, ht, hts⟩, hnodup, habove => by
    have hsmaller : sizeOf t < sizeOf (t :: ts) ∧ sizeOf ts < sizeOf (t :: ts) := by
      simp only [List.cons.sizeOf_spec]
      omega
    have hfirst := Holds.height_add_length_le ht hnodup fun u hu =>
      (habove u hu).imp fun above h => ⟨h.1, Nat.lt_trans hsmaller.1 h.2⟩
    have hrest := HoldsAll.height_add_length_le hts hnodup fun u hu =>
      (habove u hu).imp fun above h => ⟨h.1, Nat.lt_trans hsmaller.2 h.2⟩
    simp only [LiveTree.heightAll]
    omega

end

/-- **Reading from a cell gives the tree that the document holds there.** -/
theorem Holds.read (h : d.Holds base t i) : d.read i = .ok t := by
  have hheight := Holds.height_add_length_le h List.nodup_nil (by simp)
  exact Holds.readWithin h (by simpa using hheight)

/-! ## New nodes and new children -/

theorem cells_modifyCell (d : Document) (i : Nat) (change : LiveCell → LiveCell) (k : Nat) :
    (d.modifyCell i change).cells[k]? =
      if k = i then d.cells[k]?.map change else d.cells[k]? := by
  simp [modifyCell, Array.getElem?_modify, eq_comm]

@[simp] theorem size_modifyCell (d : Document) (i : Nat) (change : LiveCell → LiveCell) :
    (d.modifyCell i change).cells.size = d.cells.size := by simp [modifyCell]

@[simp] theorem add_fst_size (d : Document) (face : Face) :
    (d.add face).1.cells.size = d.cells.size + 1 := by simp [add]

theorem add_cells (d : Document) (face : Face) (j : Nat) :
    (d.add face).1.cells[j]? = if j = d.cells.size then some { face } else d.cells[j]? := by
  simp [add, Array.getElem?_push]

theorem grows_add (d : Document) (face : Face) : d.Grows (d.add face).1 := by
  intro i c hc
  have hi : i < d.cells.size := (Array.getElem?_eq_some_iff.mp hc).1
  rw [add_cells, if_neg (by omega), hc]

/-- Filling in a node that was just made is making it with its face filled in. -/
theorem modifyFace_add (d : Document) (face : Face) (change : Face → Face) :
    (d.add face).1.modifyFace d.cells.size change = (d.add (change face)).1 := by
  simp only [modifyFace, modifyCell, add]
  congr 1
  apply Array.ext_getElem?
  intro j
  simp only [Array.getElem?_modify, Array.getElem?_push]
  by_cases hj : d.cells.size = j
  · simp [hj]
  · simp [hj, Ne.symm hj]

/-- A node without a place that gets one: its new parent has one more child, it
knows its parent, and nothing else changes. -/
theorem append_cells {p j : Nat} (hplace : d.parent? j = none) (hne : p ≠ j) (k : Nat) :
    (d.append p j).cells[k]? = (d.cells[k]?).map fun c =>
      if k = p then { c with children := c.children ++ [j] }
      else if k = j then { c with parent := some p } else c := by
  have hdetach : d.detach j = d := by simp [detach, hplace]
  simp only [append, hdetach, modifyCell, Array.getElem?_modify]
  by_cases hp : k = p
  · subst hp
    simp [Ne.symm hne]
  · by_cases hj : k = j
    · subst hj
      simp [hp, Ne.symm hp]
    · simp [hp, hj, Ne.symm hp, Ne.symm hj]

theorem keepsFrom_append {p j : Nat} (hplace : d.parent? j = none) (hne : p ≠ j)
    (hp : p < base) : d.KeepsFrom base (d.append p j) := by
  intro k c hk hc
  rw [append_cells hplace hne, hc]
  refine ⟨_, rfl, ?_⟩
  have hkp : k ≠ p := by omega
  simp only [hkp, if_false]
  split <;> exact ⟨rfl, rfl⟩

end Document

end Pageloom
