import Pageloom.Entries

/-!
# Laws of entries

What looking up, writing and updating do to the order and the names of a table.
Writing names that a table does not have yet, each once, only adds entries at its
end; most tables of the library are filled in this way.

## Main definitions

* `Pageloom.Entries.set_of_notMem`, `Pageloom.Entries.update_of_fresh` -- writes
  of new names
* `Pageloom.Entries.set_map` -- writing after changing all values
-/

namespace Pageloom

namespace Entries

variable {α β : Type}

@[simp] theorem keys_nil : keys ([] : Entries α) = [] := rfl

@[simp] theorem keys_cons (a : String × α) (es : Entries α) :
    keys (a :: es) = a.1 :: keys es := rfl

@[simp] theorem keys_append (es fs : Entries α) : keys (es ++ fs) = keys es ++ keys fs := by
  simp [keys]

theorem has_of_some {es : Entries α} {name : String} {v : α} (h : es.get? name = some v) :
    es.has name = true := by
  rw [has, h]
  rfl

theorem has_of_none {es : Entries α} {name : String} (h : es.get? name = none) :
    es.has name = false := by
  rw [has, h]
  rfl

theorem get?_eq_none_iff {es : Entries α} {name : String} :
    es.get? name = none ↔ name ∉ es.keys := by
  induction es with
  | nil => simp
  | cons a es ih =>
    obtain ⟨k, v⟩ := a
    by_cases hk : k = name
    · simp [get?_cons, hk]
    · simp [get?_cons, hk, ih, Ne.symm hk]

theorem exists_get?_of_mem_keys {es : Entries α} {name : String} (h : name ∈ es.keys) :
    ∃ v, es.get? name = some v :=
  Option.ne_none_iff_exists'.mp fun hnone => get?_eq_none_iff.mp hnone h

theorem has_iff_mem_keys {es : Entries α} {name : String} :
    es.has name = true ↔ name ∈ es.keys := by
  rw [has, Option.isSome_iff_ne_none, Ne, get?_eq_none_iff, Decidable.not_not]

theorem mem_of_get? {es : Entries α} {name : String} {v : α} (h : es.get? name = some v) :
    (name, v) ∈ es := by
  induction es with
  | nil => simp at h
  | cons a es ih =>
    obtain ⟨k, w⟩ := a
    rw [get?_cons] at h
    by_cases hk : k = name
    · rw [if_pos hk] at h
      simp_all
    · rw [if_neg hk] at h
      exact List.mem_cons_of_mem _ (ih h)

theorem mem_keys_of_get? {es : Entries α} {name : String} {v : α} (h : es.get? name = some v) :
    name ∈ es.keys := List.mem_map_of_mem (mem_of_get? h)

theorem get?_append (es fs : Entries α) (name : String) :
    (es ++ fs).get? name = (es.get? name).or (fs.get? name) := by
  induction es with
  | nil => simp
  | cons a es ih =>
    obtain ⟨k, v⟩ := a
    rw [List.cons_append, get?_cons, get?_cons, ih]
    split <;> rfl

/-- Writing a new name adds an entry at the end. -/
theorem set_of_notMem {es : Entries α} {name : String} (h : name ∉ es.keys) (v : α) :
    es.set name v = es ++ [(name, v)] := by
  induction es with
  | nil => rfl
  | cons a es ih =>
    obtain ⟨k, w⟩ := a
    rw [keys_cons, List.mem_cons, not_or] at h
    simp only [set, if_neg (Ne.symm h.1), ih h.2, List.cons_append]

theorem mem_set {es : Entries α} {name : String} {v : α} {a : String × α}
    (h : a ∈ es.set name v) : a ∈ es ∨ a.2 = v := by
  induction es with
  | nil => simp_all [set]
  | cons b es ih =>
    obtain ⟨k, w⟩ := b
    by_cases hk : k = name
    · rw [set, if_pos hk] at h
      rcases List.mem_cons.mp h with rfl | hmem
      · exact .inr rfl
      · exact .inl (List.mem_cons_of_mem _ hmem)
    · rw [set, if_neg hk] at h
      rcases List.mem_cons.mp h with rfl | hmem
      · exact .inl List.mem_cons_self
      · exact (ih hmem).imp_left (List.mem_cons_of_mem _)

theorem mem_ofPairs {pairs : List (String × α)} {a : String × α} (h : a ∈ ofPairs pairs) :
    ∃ b ∈ pairs, b.2 = a.2 := by
  suffices hupdate : ∀ (fs es : Entries α), a ∈ es.update fs → a ∈ es ∨ ∃ b ∈ fs, b.2 = a.2 by
    exact (hupdate pairs [] h).resolve_left List.not_mem_nil
  intro fs
  induction fs with
  | nil => exact fun es hmem => .inl hmem
  | cons f fs ih =>
    intro es hmem
    rcases ih (es.set f.1 f.2) hmem with hset | ⟨b, hb, heq⟩
    · rcases mem_set hset with hold | hnew
      · exact .inl hold
      · exact .inr ⟨f, List.mem_cons_self, hnew.symm⟩
    · exact .inr ⟨b, List.mem_cons_of_mem _ hb, heq⟩

/-- The last pair of a name counts. -/
theorem get?_ofPairs (pairs : List (String × α)) (name : String) :
    (ofPairs pairs).get? name = get? pairs.reverse name := by
  suffices hupdate : ∀ (fs es : Entries α),
      (es.update fs).get? name = (get? fs.reverse name).or (es.get? name) by
    exact (hupdate pairs []).trans Option.or_none
  intro fs
  induction fs with
  | nil => exact fun es => rfl
  | cons f fs ih =>
    intro es
    have hstep : es.update (f :: fs) = (es.set f.1 f.2).update fs := rfl
    rw [hstep, ih, get?_set, List.reverse_cons, get?_append, Option.or_assoc, get?_cons]
    split <;> rfl

theorem nodup_keys_set {es : Entries α} (h : es.keys.Nodup) (name : String) (v : α) :
    (es.set name v).keys.Nodup := by
  rw [keys_set]
  split
  · exact h
  · rw [List.nodup_append]
    refine ⟨h, List.pairwise_singleton _ _, fun a ha b hb => ?_⟩
    rintro rfl
    exact absurd (List.mem_singleton.mp hb ▸ ha) ‹_›

/-- Writing new names, each once, adds their entries at the end. -/
theorem update_of_fresh {es fs : Entries α} (hnodup : fs.keys.Nodup)
    (hfresh : ∀ name ∈ fs.keys, name ∉ es.keys) : es.update fs = es ++ fs := by
  induction fs generalizing es with
  | nil => simp [update]
  | cons a fs ih =>
    rw [keys_cons, List.nodup_cons] at hnodup
    have hstep : es.update (a :: fs) = (es.set a.1 a.2).update fs := rfl
    rw [hstep, set_of_notMem (hfresh a.1 (by simp)), ih hnodup.2, List.append_assoc]
    · rfl
    · intro name hname
      have hne : name ≠ a.1 := fun heq => hnodup.1 (heq ▸ hname)
      simp [hfresh name (by simp [hname]), hne]

/-- Writing a value that was changed is changing the value that was written. -/
theorem set_map (g : α → β) (es : Entries α) (name : String) (v : α) :
    set (es.map fun a => (a.1, g a.2)) name (g v) = (es.set name v).map fun a => (a.1, g a.2) := by
  induction es with
  | nil => rfl
  | cons a es ih =>
    obtain ⟨k, w⟩ := a
    by_cases hk : k = name
    · simp [set, hk]
    · simp [set, hk, ih]

@[simp] theorem keys_map (g : α → β) (es : Entries α) :
    keys (es.map fun a => (a.1, g a.2)) = es.keys := by
  simp [keys]

/-- Filters that keep every entry of a name keep what it stands for. -/
theorem get?_filter {p : String × α → Bool} {name : String} (hp : ∀ v, p (name, v) = true)
    (es : Entries α) : get? (es.filter p) name = es.get? name := by
  induction es with
  | nil => rfl
  | cons a es ih =>
    obtain ⟨k, v⟩ := a
    by_cases hk : k = name
    · subst hk
      simp [hp v, get?_cons]
    · by_cases hkept : p (k, v) <;> simp [hkept, get?_cons, hk, ih]

theorem set_filter {p : String × α → Bool} {name : String} (hp : ∀ v, p (name, v) = true)
    (es : Entries α) (v : α) : set (es.filter p) name v = (es.set name v).filter p := by
  induction es with
  | nil => simp [set, hp]
  | cons a es ih =>
    obtain ⟨k, w⟩ := a
    by_cases hk : k = name
    · subst hk
      simp [set, hp]
    · by_cases hkept : p (k, w) <;> simp [set, hkept, hk, ih]

theorem count_set [DecidableEq α] {a : String × α} {name : String} (h : a.1 ≠ name) (v : α)
    (es : Entries α) : (es.set name v).count a = es.count a := by
  induction es with
  | nil => simp [set, Prod.ext_iff, Ne.symm h]
  | cons b es ih =>
    obtain ⟨k, w⟩ := b
    by_cases hk : k = name
    · subst hk
      simp [set, Prod.ext_iff, Ne.symm h]
    · simp [set, hk, List.count_cons, ih]

theorem keys_filter_sublist (p : String × α → Bool) (es : Entries α) :
    (keys (es.filter p)).Sublist es.keys := List.filter_sublist.map Prod.fst

end Entries

end Pageloom
