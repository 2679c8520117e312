import Pageloom.Builder
import Pageloom.Factory

/-!
# Outcomes of stateful operations

Building a tree and running a factory are operations on a state that may fail,
and a failed one keeps the state it failed in. Later proofs take a sequence of
operations apart with the two lemmas on `>>=` and never unfold the monad.

## Main definitions

* `Pageloom.SucceedsIf` -- when a computation succeeds
* `Pageloom.Reports` -- a computation fails with a report
* `Pageloom.SameOutcome` -- agreement of two runs on a live page
-/

namespace Pageloom

section

variable {ε σ α β : Type} {x : EStateM ε σ α} {f : α → EStateM ε σ β} {s t : σ}

theorem bind_eq_ok {b : β} :
    (x >>= f) s = .ok b t ↔ ∃ a u, x s = .ok a u ∧ f a u = .ok b t := by
  change EStateM.bind x f s = _ ↔ _
  unfold EStateM.bind
  cases x s with
  | ok a u => simp [and_assoc]
  | error e u => simp

theorem bind_eq_error {e : ε} :
    (x >>= f) s = .error e t ↔
      x s = .error e t ∨ ∃ a u, x s = .ok a u ∧ f a u = .error e t := by
  change EStateM.bind x f s = _ ↔ _
  unfold EStateM.bind
  cases x s with
  | ok a u => simp [and_assoc]
  | error e u => simp

theorem bind_of_ok {a : α} {u : σ} (h : x s = .ok a u) : (x >>= f) s = f a u := by
  change EStateM.bind x f s = _
  simp only [EStateM.bind, h]

theorem bind_of_error {e : ε} {u : σ} (h : x s = .error e u) : (x >>= f) s = .error e u := by
  change EStateM.bind x f s = _
  simp only [EStateM.bind, h]

end

section

variable {ε α β : Type} {f : α → Except ε β} {xs : List α}

theorem except_bind_eq_ok {x : Except ε α} {b : β} :
    x >>= f = .ok b ↔ ∃ a, x = .ok a ∧ f a = .ok b := by
  cases x with
  | error e => exact ⟨nofun, nofun⟩
  | ok a => exact ⟨fun h => ⟨a, rfl, h⟩, fun ⟨_, heq, h⟩ => by cases heq; exact h⟩

theorem except_eq_ok_of_toOption {x : Except ε α} {a : α} (h : x.toOption = some a) :
    x = .ok a := by
  cases x with
  | error e => cases h
  | ok b =>
    cases h
    rfl

theorem mapM_cons_eq_ok {x : α} {zs : List β} (h : (x :: xs).mapM f = .ok zs) :
    ∃ y ys, zs = y :: ys ∧ f x = .ok y ∧ xs.mapM f = .ok ys := by
  rw [List.mapM_cons] at h
  obtain ⟨y, hy, h⟩ := except_bind_eq_ok.mp h
  obtain ⟨ys, hys, h⟩ := except_bind_eq_ok.mp h
  cases h
  exact ⟨y, ys, rfl, hy, hys⟩

theorem exists_of_mem_mapM {ys : List β} {y : β} (h : xs.mapM f = .ok ys) (hy : y ∈ ys) :
    ∃ x ∈ xs, f x = .ok y := by
  induction xs generalizing ys with
  | nil =>
    cases h
    cases hy
  | cons x xs ih =>
    obtain ⟨z, zs, rfl, hz, hzs⟩ := mapM_cons_eq_ok h
    rcases List.mem_cons.mp hy with rfl | hmem
    · exact ⟨x, List.mem_cons_self, hz⟩
    · obtain ⟨x', hx', heq⟩ := ih hzs hmem
      exact ⟨x', List.mem_cons_of_mem _ hx', heq⟩

theorem mapM_mem {ys : List β} {x : α} (h : xs.mapM f = .ok ys) (hx : x ∈ xs) :
    ∃ y ∈ ys, f x = .ok y := by
  induction xs generalizing ys with
  | nil => cases hx
  | cons z xs ih =>
    obtain ⟨y, ys, rfl, hy, hys⟩ := mapM_cons_eq_ok h
    rcases List.mem_cons.mp hx with rfl | hmem
    · exact ⟨y, List.mem_cons_self, hy⟩
    · obtain ⟨y', hy', heq⟩ := ih hys hmem
      exact ⟨y', List.mem_cons_of_mem _ hy', heq⟩

theorem mapM_eq_error {e : ε} (h : xs.mapM f = .error e) : ∃ x ∈ xs, f x = .error e := by
  induction xs with
  | nil => cases h
  | cons x xs ih =>
    rw [List.mapM_cons] at h
    cases hx : f x with
    | error e' =>
      rw [hx] at h
      cases h
      exact ⟨x, List.mem_cons_self, hx⟩
    | ok y =>
      rw [hx] at h
      cases hxs : xs.mapM f with
      | error e' =>
        rw [hxs] at h
        cases h
        obtain ⟨z, hz, hfails⟩ := ih hxs
        exact ⟨z, List.mem_cons_of_mem x hz, hfails⟩
      | ok ys =>
        rw [hxs] at h
        cases h

theorem mapM_eq_ok {g : α → β} (h : ∀ x ∈ xs, f x = .ok (g x)) : xs.mapM f = .ok (xs.map g) := by
  induction xs with
  | nil => rfl
  | cons x xs ih =>
    rw [List.mapM_cons, h x List.mem_cons_self,
      ih fun y hy => h y (List.mem_cons_of_mem x hy)]
    rfl

theorem mapM_zip {γ δ : Type} {ys : List β} (h : xs.mapM f = .ok ys) (g : α → γ) (k : β → δ) :
    xs.mapM (fun x => (f x).map fun y => (g x, k y)) = .ok ((xs.map g).zip (ys.map k)) := by
  induction xs generalizing ys with
  | nil =>
    cases h
    rfl
  | cons x xs ih =>
    obtain ⟨y, ys, rfl, hy, hys⟩ := mapM_cons_eq_ok h
    rw [List.mapM_cons, hy, ih hys]
    rfl

end

/-- A computation succeeds under a condition; otherwise a value could not be used. -/
def SucceedsIf {α : Type} (P : Prop) (x : Except Fault α) : Prop :=
  (P ∧ ∃ a, x = .ok a) ∨ (¬ P ∧ x = .error .wrongValue)

namespace SucceedsIf

variable {α β : Type} {P Q : Prop} {x : Except Fault α}

theorem ok (hP : P) (a : α) : SucceedsIf P (.ok a : Except Fault α) := .inl ⟨hP, a, rfl⟩

theorem congr (hx : SucceedsIf P x) (h : P ↔ Q) : SucceedsIf Q x := propext h ▸ hx

theorem bind {f : α → Except Fault β} (hx : SucceedsIf P x) (hf : ∀ a, SucceedsIf Q (f a)) :
    SucceedsIf (P ∧ Q) (x >>= f) := by
  rcases hx with ⟨hP, a, rfl⟩ | ⟨hP, rfl⟩
  · rcases hf a with ⟨hQ, hok⟩ | ⟨hQ, hfault⟩
    · exact .inl ⟨⟨hP, hQ⟩, hok⟩
    · exact .inr ⟨fun h => hQ h.2, hfault⟩
  · exact .inr ⟨fun h => hP h.1, rfl⟩

theorem map (f : α → β) (hx : SucceedsIf P x) : SucceedsIf P (x.map f) := by
  rcases hx with ⟨hP, a, rfl⟩ | ⟨hP, rfl⟩
  · exact .inl ⟨hP, f a, rfl⟩
  · exact .inr ⟨hP, rfl⟩

end SucceedsIf

theorem Value.plainText_of_hasText {v : Value} (h : v.hasText = true) :
    v.plainText = .ok v.plain := if_pos h

theorem Value.plainText_of_not_hasText {v : Value} (h : v.hasText = false) :
    v.plainText = .error .wrongValue := if_neg (by simp [h])

theorem Value.succeedsIf_settingText (v : Value) : SucceedsIf (v.hasText = true) v.settingText := by
  unfold settingText
  split
  · exact .ok ‹_› _
  · exact .inr ⟨‹_›, rfl⟩

/-- A computation fails, with a report of the given family. -/
def Reports {α : Type} (family : Family) (x : Except Fault α) : Prop :=
  ∃ fault, x = .error fault ∧ fault.report?.map Report.family = some family

theorem reports_bind {α β : Type} {family : Family} {x : Except Fault α} {f : α → Except Fault β}
    (hx : Reports family x ∨ ∃ a, x = .ok a) (hf : ∀ a, x = .ok a → Reports family (f a)) :
    Reports family (x >>= f) := by
  rcases hx with ⟨fault, rfl, hfamily⟩ | ⟨a, rfl⟩
  · exact ⟨fault, rfl, hfamily⟩
  · exact hf a rfl

/-- Two runs on a live page agree: both give the same node on the same page, or
both fail for the same reason after the same recorded calls. Nodes that a failed
run leaves behind have no place on the page and are not compared. -/
def SameOutcome {α : Type} :
    EStateM.Result Fault Stage α → EStateM.Result Fault Stage α → Prop
  | .ok a s, .ok b t => a = b ∧ s = t
  | .error e s, .error f t => e = f ∧ s.calls = t.calls
  | _, _ => False

theorem SameOutcome.symm {α : Type} {x y : EStateM.Result Fault Stage α} (h : SameOutcome x y) :
    SameOutcome y x := by
  cases x <;> cases y
  · exact ⟨h.1.symm, h.2.symm⟩
  · exact h
  · exact h
  · exact ⟨h.1.symm, h.2.symm⟩

theorem SameOutcome.ok_left {α : Type} {x y : EStateM.Result Fault Stage α} {a : α} {s : Stage}
    (h : SameOutcome x y) (hx : x = .ok a s) : y = .ok a s := by
  subst hx
  cases y with
  | error e t => exact h.elim
  | ok b t => rw [h.1, h.2]

theorem SameOutcome.error_left {α : Type} {x y : EStateM.Result Fault Stage α} {e : Fault}
    {s : Stage} (h : SameOutcome x y) (hx : x = .error e s) : ∃ t, y = .error e t := by
  subst hx
  cases y with
  | error f t => exact ⟨t, by rw [h.1]⟩
  | ok b t => exact h.elim

namespace Live

theorem lift_ok {α : Type} (a : α) (s : Stage) : lift (.ok a) s = .ok a s := rfl

theorem lift_error {α : Type} (e : Fault) (s : Stage) :
    (lift (.error e) : Live α) s = .error e s := rfl

theorem lift_eq_ok {α : Type} {x : Except Fault α} {a : α} {s t : Stage} :
    lift x s = .ok a t ↔ x = .ok a ∧ s = t := by
  cases x with
  | ok b => simp [lift_ok]
  | error e => simp [lift_error]

theorem lift_eq_error {α : Type} {x : Except Fault α} {e : Fault} {s t : Stage} :
    lift x s = .error e t ↔ x = .error e ∧ s = t := by
  cases x with
  | ok b => simp [lift_ok]
  | error e => simp [lift_error]

theorem modifyDocument_eq_ok {change : Document → Document} {a : Unit} {s t : Stage} :
    modifyDocument change s = .ok a t ↔ t = { s with document := change s.document } := by
  have happly : modifyDocument change s = .ok () { s with document := change s.document } := rfl
  rw [happly]
  simp [eq_comm]

end Live

theorem Build.lift_eq_ok {α : Type} {x : Except Fault α} {a : α} {w v : Workshop} :
    Build.lift x w = .ok a v ↔ x = .ok a ∧ w = v := by
  cases x with
  | ok b =>
    constructor
    · rintro ⟨⟩
      exact ⟨rfl, rfl⟩
    · rintro ⟨⟨⟩, rfl⟩
      rfl
  | error e => exact ⟨nofun, nofun⟩

/-- A build that passes a check has a result. -/
theorem Build.exists_ok_of_check {α : Type} {x : Build α} {w : Workshop}
    (check : α → Workshop → Bool)
    (h : (match x w with | .ok a v => check a v | .error _ _ => false) = true) :
    ∃ a v, x w = .ok a v ∧ check a v = true := by
  cases hx : x w with
  | error fault v =>
    rw [hx] at h
    cases h
  | ok a v =>
    rw [hx] at h
    exact ⟨a, v, rfl, h⟩

end Pageloom
