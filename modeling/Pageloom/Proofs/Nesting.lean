import Mathlib.Data.Finset.Card
import Mathlib.Logic.Relation
import Pageloom.Proofs.Entries
import Pageloom.Proofs.Picture

/-!
# How deep factory calls nest

A factory that is called calls every factory that its steps name. Where no chain of
such calls comes back to a key that it has been at, a chain has at most one call for
each registered key. The depth that calls are allowed is then never used up, and
allowing more changes nothing.

## Main definitions

* `Pageloom.Registry.Calls` -- which factory calls which
* `Pageloom.Live.run_congr`, `Pageloom.Live.run_endless` -- runs look at calls only
* `Pageloom.Registry.callWithin_stable` -- the depth does not matter
-/

namespace Pageloom

/-! ## Runs and their calls -/

namespace Live

variable {invoke invoke' : String → Except Fault (List Value) → Live Nat} {bindings : Bindings}

/-- A run depends on what the keys that it calls do, and on no other key. -/
theorem run_congr : ∀ {steps : List Instruction} {vars : Entries Nat},
    (∀ var key arguments, .invokeFactory var key arguments ∈ steps → invoke key = invoke' key) →
    run invoke bindings vars steps = run invoke' bindings vars steps
  | [], _, _ => rfl
  | i :: rest, vars, h => by
    have hrest (vars : Entries Nat) :
        run invoke bindings vars rest = run invoke' bindings vars rest :=
      run_congr fun var key arguments hmem => h var key arguments (List.mem_cons_of_mem _ hmem)
    have hstep : step invoke bindings vars i = step invoke' bindings vars i := by
      cases i with
      | invokeFactory var key arguments =>
        simp only [step, h var key arguments List.mem_cons_self]
      | _ => rfl
    cases i with
    | giveNode var => rfl
    | _ => simp only [run, hstep, hrest]

theorem lookup_eq_error {vars : Entries Nat} {name : String} {fault : Fault} {s t : Stage}
    (h : lookup vars name s = .error fault t) : fault = .unknownVariable name := by
  unfold lookup at h
  cases hget : vars.get? name with
  | some i =>
    rw [hget] at h
    cases h
  | none =>
    rw [hget] at h
    cases h
    rfl

theorem evaluate_ne_endless (hbindings : ∀ name, bindings name ≠ .error .endless)
    (value : Operand) : evaluate bindings value ≠ .error .endless := by
  intro h
  cases value with
  | literal text => cases h
  | broken pieces => cases h
  | stray shown => cases h
  | reference name =>
    rcases resolve_eq_error h with hunbound | ⟨_, _, _, hfault⟩
    · exact hbindings name hunbound
    · cases hfault

/-- Only a call can be without end. -/
theorem step_endless (hbindings : ∀ name, bindings name ≠ .error .endless) {vars : Entries Nat}
    {i : Instruction} {s t : Stage} (h : step invoke bindings vars i s = .error .endless t) :
    ∃ var key arguments, i = .invokeFactory var key arguments ∧
      invoke key (callArguments bindings arguments) s = .error .endless t := by
  cases i with
  | createElement var tag => cases h
  | giveNode var => cases h
  | invokeFactory var key arguments =>
    rcases bind_eq_error.mp h with hcall | ⟨_, _, _, h⟩
    · exact ⟨var, key, arguments, rfl, hcall⟩
    · cases h
  | assignClass var value | assignClick var expression =>
    rcases bind_eq_error.mp h with hvar | ⟨_, _, _, h⟩
    · cases lookup_eq_error hvar
    · cases h
  | appendChild parent child =>
    rcases bind_eq_error.mp h with hparent | ⟨_, _, _, h⟩
    · cases lookup_eq_error hparent
    · rcases bind_eq_error.mp h with hchild | ⟨_, _, _, h⟩
      · cases lookup_eq_error hchild
      · cases h
  | setAttribute var name value =>
    rcases bind_eq_error.mp h with hvar | ⟨_, _, _, h⟩
    · cases lookup_eq_error hvar
    · rcases bind_eq_error.mp h with hvalue | ⟨_, _, _, h⟩
      · exact absurd (lift_eq_error.mp hvalue).1 (evaluate_ne_endless hbindings value)
      · cases h
  | assignStyle var value | setText var value =>
    rcases bind_eq_error.mp h with hvalue | ⟨_, _, _, h⟩
    · exact absurd (lift_eq_error.mp hvalue).1 (evaluate_ne_endless hbindings value)
    · rcases bind_eq_error.mp h with hvar | ⟨_, _, _, h⟩
      · cases lookup_eq_error hvar
      · cases h

theorem run_endless (hbindings : ∀ name, bindings name ≠ .error .endless) :
    ∀ {steps : List Instruction} {vars : Entries Nat} {s t : Stage},
      run invoke bindings vars steps s = .error .endless t →
      ∃ var key arguments u v, .invokeFactory var key arguments ∈ steps ∧
        invoke key (callArguments bindings arguments) u = .error .endless v
  | [], _, _, _, h => by cases h
  | i :: rest, vars, s, t, h => by
    by_cases hgive : ∃ var, i = .giveNode var
    · obtain ⟨var, rfl⟩ := hgive
      cases lookup_eq_error h
    · cases hstep : step invoke bindings vars i s with
      | error fault u =>
        rw [run_cons_of_error hstep fun var heq => hgive ⟨var, heq⟩] at h
        cases h
        obtain ⟨var, key, arguments, rfl, hcall⟩ := step_endless hbindings hstep
        exact ⟨var, key, arguments, s, t, List.mem_cons_self, hcall⟩
      | ok vars' u =>
        rw [run_cons_of_ok hstep fun var heq => hgive ⟨var, heq⟩] at h
        obtain ⟨var, key, arguments, v, v', hmem, hcall⟩ := run_endless hbindings h
        exact ⟨var, key, arguments, v, v', List.mem_cons_of_mem _ hmem, hcall⟩

end Live

theorem bindArguments_ne_endless (parameters : List String) (arguments : List Value)
    (name : String) : bindArguments parameters arguments name ≠ .error .endless := by
  intro h
  cases (ofEntries_eq_error h).2

/-! ## Chains of calls -/

namespace Registry

/-- The factory of a key has a step that calls another key. -/
def Calls (r : Registry) (a b : String) : Prop :=
  ∃ parameters steps isRecorded var arguments,
    Entries.get? r a = some ⟨.steps parameters steps, isRecorded⟩ ∧
      Instruction.invokeFactory var b arguments ∈ steps

open Classical in
/-- The registered keys that calls from a key come to. -/
noncomputable def within (r : Registry) (a : String) : Finset String :=
  (Entries.keys r).toFinset.filter fun b => Relation.ReflTransGen r.Calls a b

theorem mem_within {r : Registry} {a b : String} :
    b ∈ r.within a ↔ b ∈ Entries.keys r ∧ Relation.ReflTransGen r.Calls a b := by
  simp [within]

theorem card_within_le (r : Registry) (a : String) : (r.within a).card ≤ r.length :=
  calc (r.within a).card ≤ (Entries.keys r).toFinset.card :=
        Finset.card_le_card fun _ hb => List.mem_toFinset.mpr (mem_within.mp hb).1
    _ ≤ (Entries.keys r).length := List.toFinset_card_le _
    _ = r.length := List.length_map _

/-- A call that cannot come back leads to fewer keys. -/
theorem card_within_lt {r : Registry} {a b : String} (ha : a ∈ Entries.keys r)
    (hcall : r.Calls a b) (hacyclic : ¬ Relation.TransGen r.Calls a a) :
    (r.within b).card < (r.within a).card := by
  refine Finset.card_lt_card (Finset.ssubset_iff_of_subset ?_ |>.mpr ⟨a, ?_, ?_⟩)
  · intro c hc
    obtain ⟨hkey, hreach⟩ := mem_within.mp hc
    exact mem_within.mpr ⟨hkey, hreach.head hcall⟩
  · exact mem_within.mpr ⟨ha, .refl⟩
  · intro hback
    exact hacyclic (Relation.TransGen.head' hcall (mem_within.mp hback).2)

theorem invokeWith_congr {r : Registry} {call call' : String → Registration → List Value → Live Nat}
    {key : String} (h : ∀ registration, Entries.get? r key = some registration →
      call key registration = call' key registration) :
    r.invokeWith call key = r.invokeWith call' key := by
  funext arguments
  unfold invokeWith
  cases hget : Entries.get? r key with
  | none => rfl
  | some registration => simp only [h registration hget]

/-- Where no chain of calls comes back, a depth that allows for each key once is
never used up, and more depth changes nothing. -/
theorem callWithin_stable {r : Registry} : ∀ (n : Nat) {a : String} {registration : Registration},
    Entries.get? r a = some registration →
    (∀ b, Relation.ReflTransGen r.Calls a b → ¬ Relation.TransGen r.Calls b b) →
    (r.within a).card ≤ n →
    (∀ arguments s t, r.callWithin n a registration arguments s ≠ .error .endless t) ∧
      ∀ depth, n ≤ depth → r.callWithin depth a registration = r.callWithin n a registration
  | 0, a, registration, hget, _, hcard => by
    have hself : a ∈ r.within a := mem_within.mpr ⟨Entries.mem_keys_of_get? hget, .refl⟩
    have hpos := Finset.card_pos.mpr ⟨a, hself⟩
    omega
  | n + 1, a, ⟨.fixed tag text attributes, isRecorded⟩, _, _, _ => by
    refine ⟨fun arguments s t h => ?_, fun depth hdepth => ?_⟩
    · cases isRecorded <;> cases h
    · obtain ⟨depth, rfl⟩ := Nat.exists_eq_add_of_le' hdepth
      rfl
  | n + 1, a, ⟨.steps parameters steps, isRecorded⟩, hget, hacyclic, hcard => by
    have hbelow : ∀ var b arguments registration, .invokeFactory var b arguments ∈ steps →
        Entries.get? r b = some registration →
        (∀ arguments s t, r.callWithin n b registration arguments s ≠ .error .endless t) ∧
          ∀ depth, n ≤ depth →
            r.callWithin depth b registration = r.callWithin n b registration := by
      intro var b arguments registration hmem hb
      have hcall : r.Calls a b := ⟨parameters, steps, isRecorded, var, arguments, hget, hmem⟩
      have hlt := card_within_lt (Entries.mem_keys_of_get? hget) hcall (hacyclic a .refl)
      exact callWithin_stable n hb (fun c hc => hacyclic c (hc.head hcall)) (by omega)
    refine ⟨fun arguments s t h => ?_, fun depth hdepth => ?_⟩
    · obtain ⟨u, hrun⟩ : ∃ u, Live.run (r.invokeWith (r.callWithin n))
          (bindArguments parameters arguments) [] steps u = .error .endless t := by
        cases isRecorded <;> exact ⟨_, h⟩
      obtain ⟨var, b, names, u', v, hmem, hinvoke⟩ :=
        Live.run_endless (bindArguments_ne_endless parameters arguments) hrun
      rcases invokeWith_eq_error hinvoke with ⟨_, hfault⟩ | harguments | hcall
      · cases hfault
      · obtain ⟨name, _, hname⟩ := callArguments_error harguments
        rcases Live.resolve_eq_error hname with hunbound | ⟨_, _, _, hfault⟩
        · exact bindArguments_ne_endless parameters arguments name hunbound
        · cases hfault
      · obtain ⟨registration, values, hb, _, hcall⟩ := hcall
        exact (hbelow var b names registration hmem hb).1 _ _ _ hcall
    · obtain ⟨depth, rfl⟩ := Nat.exists_eq_add_of_le' hdepth
      funext arguments
      have hrun : Live.run (r.invokeWith (r.callWithin (depth + n)))
          (bindArguments parameters arguments)
          [] steps = Live.run (r.invokeWith (r.callWithin n)) (bindArguments parameters arguments)
          [] steps := by
        refine Live.run_congr fun var b names hmem => invokeWith_congr fun registration hb => ?_
        exact (hbelow var b names registration hmem hb).2 _ (by omega)
      show r.callWithin (depth + n + 1) a _ arguments = _
      simp only [callWithin, hrun]

end Registry

end Pageloom
