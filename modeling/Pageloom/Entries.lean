/-!
# Entries in insertion order

Attributes, properties, factories and settings are all tables from names to
values whose order shows in the output. A table is a list of pairs. Writing a
name that is present keeps its place and replaces its value; writing a new name
puts it at the end.

## Main definitions

* `Pageloom.Entries` -- a list of named values
* `Pageloom.Entries.get?`, `Pageloom.Entries.set`, `Pageloom.Entries.erase`
* `Pageloom.Entries.ofPairs` -- the table that writing pairs one by one gives
-/

namespace Pageloom

/-- Named values in the order in which their names were first written. -/
abbrev Entries (α : Type) := List (String × α)

namespace Entries

variable {α β : Type}

/-- The value of the first entry with this name. -/
def get? : Entries α → String → Option α
  | [], _ => none
  | (k, v) :: rest, name => if k = name then some v else get? rest name

/-- Whether some entry has this name. -/
def has (es : Entries α) (name : String) : Bool := (get? es name).isSome

/-- Replace the value of the first entry with this name, or add one at the end. -/
def set : Entries α → String → α → Entries α
  | [], name, v => [(name, v)]
  | (k, w) :: rest, name, v => if k = name then (k, v) :: rest else (k, w) :: set rest name v

/-- Drop every entry with this name. -/
def erase (es : Entries α) (name : String) : Entries α := es.filter fun e => e.1 ≠ name

/-- The names, in order. -/
def keys (es : Entries α) : List String := es.map Prod.fst

/-- Write the entries of `fs` into `es`, one by one. -/
def update (es fs : Entries α) : Entries α := fs.foldl (fun acc e => set acc e.1 e.2) es

/-- The table that writing the pairs one by one gives: a repeated name keeps its
first place and takes its last value. -/
def ofPairs (pairs : List (String × α)) : Entries α := update [] pairs

@[simp] theorem get?_nil (name : String) : get? ([] : Entries α) name = none := rfl

theorem get?_cons (k : String) (v : α) (rest : Entries α) (name : String) :
    get? ((k, v) :: rest) name = if k = name then some v else get? rest name := rfl

theorem get?_set (es : Entries α) (k : String) (v : α) (name : String) :
    get? (set es k v) name = if k = name then some v else get? es name := by
  induction es with
  | nil => simp [set, get?]
  | cons e rest ih =>
    obtain ⟨j, w⟩ := e
    by_cases hj : j = k
    · subst hj
      by_cases hn : j = name <;> simp [set, get?, hn]
    · by_cases hn : j = name
      · subst hn
        simp [set, get?, hj, Ne.symm hj]
      · simp [set, get?, hj, hn, ih]

@[simp] theorem get?_set_self (es : Entries α) (k : String) (v : α) :
    get? (set es k v) k = some v := by simp [get?_set]

theorem get?_erase (es : Entries α) (k name : String) :
    get? (erase es k) name = if k = name then none else get? es name := by
  induction es with
  | nil => simp [erase]
  | cons e rest ih =>
    obtain ⟨j, w⟩ := e
    have step : erase ((j, w) :: rest) k =
        if j = k then erase rest k else (j, w) :: erase rest k := by
      by_cases hj : j = k <;> simp [erase, hj]
    rw [step]
    by_cases hj : j = k
    · subst hj
      rw [if_pos rfl, ih]
      by_cases hn : j = name <;> simp [get?_cons, hn]
    · by_cases hn : j = name
      · subst hn
        simp [get?_cons, hj, Ne.symm hj]
      · simp [get?_cons, hj, hn, ih]

/-- The names after a write: unchanged when the name was there, else one more at the end. -/
theorem keys_set (es : Entries α) (k : String) (v : α) :
    keys (set es k v) = if k ∈ keys es then keys es else keys es ++ [k] := by
  induction es with
  | nil => simp [set, keys]
  | cons e rest ih =>
    obtain ⟨j, w⟩ := e
    by_cases hj : j = k
    · subst hj
      simp [set, keys]
    · simp only [keys] at ih
      by_cases hk : k ∈ rest.map Prod.fst
      · simp [set, keys, hj, ih, hk]
      · simp [set, keys, hj, ih, hk, Ne.symm hj]

end Entries

end Pageloom
