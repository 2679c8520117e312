import Pageloom.Proofs.Filling

/-!
# Why a call of a factory fails

The steps of a body name what they need: the references among its values, and the names whose
values are passed on to other factories. A factory that was made of a body fails only where
one of these names is not a parameter of it, or where it calls a key that no factory has.
Factories call each other, so the reason for a failed call may lie in a factory that was
called on the way. Beyond that, an argument may have no text, and a chain of calls no end.

## Main definitions

* `Pageloom.Instruction.names`, `Pageloom.Body.names` -- the names that are used as they are
* `Pageloom.Body.names_compile` -- a body and its steps use the same names in the same order
* `Pageloom.Node.distinct_names_body` -- the two ways to find the names of a tree
* `Pageloom.Registry.Compiled` -- a registry of factories that were made of bodies
* `Pageloom.Registry.callWithin_eq_error` -- the reasons of a failed call
-/

namespace Pageloom

/-! ## Names in use -/

/-- The name that an operand refers to. -/
def Operand.name? : Operand → Option String
  | .reference name => some name
  | _ => none

/-- The names that a step uses as they are, in order. -/
def Instruction.names : Instruction → List String
  | .setAttribute _ _ value | .assignStyle _ value | .setText _ value => value.name?.toList
  | .invokeFactory _ _ arguments => arguments
  | _ => []

theorem name?_operandOf (cue : Cue) (value : String) :
    (operandOf cue value).name? = referenceName? cue value := by
  unfold operandOf
  split <;> simp_all [Operand.name?]

theorem Element.names_attributeStep (cue : Cue) (var : String) (a : String × String) :
    (Element.attributeStep cue var a).names = (referenceName? cue a.2).toList := by
  unfold Element.attributeStep
  split <;> simp [Instruction.names, name?_operandOf]

theorem Element.names_steps (cue : Cue) (var : String) (e : Element) (childless : Bool) :
    (e.steps cue var childless).flatMap Instruction.names =
      (e.values childless).filterMap (referenceName? cue) := by
  have hattributes : (e.plainAttributes.map (Element.attributeStep cue var)).flatMap
      Instruction.names = (e.plainAttributes.map Prod.snd).filterMap (referenceName? cue) := by
    rw [List.filterMap_eq_flatMap_toList, List.flatMap_map, List.flatMap_map]
    exact congrArg (List.flatMap · e.plainAttributes)
      (funext fun a => names_attributeStep cue var a)
  have htext : (if childless then e.text.toList.map fun t =>
      Instruction.setText var (operandOf cue t) else []).flatMap Instruction.names =
        (if childless then e.text.toList else []).filterMap (referenceName? cue) := by
    rw [List.filterMap_eq_flatMap_toList]
    cases childless <;> cases e.text <;> simp [Instruction.names, name?_operandOf]
  have hclick : (e.onClick.toList.map fun h => Instruction.assignClick var h.expression).flatMap
      Instruction.names = [] := by
    cases e.onClick <;> rfl
  simp only [steps, values, List.flatMap_append, List.filterMap_append, hattributes, htext, hclick,
    List.append_nil]
  rfl

namespace Body

mutual

theorem names_emit (lead : String) (cue : Cue) : ∀ (b : Body) (n : Nat),
    (b.emit lead cue n).1.flatMap Instruction.names = b.names cue
  | .element e cs, n => by
    simp only [emit, names, List.flatMap_append, Element.names_steps,
      namesAll_emitAll lead cue cs]
  | .call key arguments, n => by simp [emit, names, Instruction.names]

theorem namesAll_emitAll (lead : String) (cue : Cue) :
    ∀ (cs : List Body) (parent : String) (n : Nat),
      (emitAll lead cue parent cs n).1.flatMap Instruction.names = namesAll cue cs
  | [], _, _ => rfl
  | c :: cs, parent, n => by
    simp only [emitAll, namesAll, List.flatMap_append, List.flatMap_cons, names_emit lead cue c,
      namesAll_emitAll lead cue cs, Instruction.names, List.nil_append]

end

/-- The steps of a body use the names of the body, in order. -/
theorem names_compile (lead : String) (cue : Cue) (b : Body) :
    (b.compile lead cue).flatMap Instruction.names = b.names cue := by
  simp [compile, names_emit, Instruction.names]

end Body

/-! ## First occurrences -/

theorem nodup_distinct (xs : List String) : (distinct xs).Nodup := by
  induction xs with
  | nil => exact List.nodup_nil
  | cons x xs ih => exact List.nodup_cons.mpr ⟨by simp, ih.filter _⟩

theorem distinct_of_nodup {xs : List String} (h : xs.Nodup) : distinct xs = xs := by
  induction xs with
  | nil => rfl
  | cons x xs ih =>
    obtain ⟨hx, hxs⟩ := List.nodup_cons.mp h
    rw [distinct, ih hxs, List.filter_eq_self.mpr]
    intro y hy
    exact decide_eq_true fun heq => hx (heq ▸ hy)

theorem distinct_append (xs ys : List String) :
    distinct (xs ++ ys) = distinct xs ++ (distinct ys).filter fun y => y ∉ xs := by
  induction xs with
  | nil => simp [distinct]
  | cons x xs ih =>
    rw [List.cons_append, distinct, ih, distinct, List.filter_append, List.filter_filter,
      List.cons_append]
    simp

/-- Of two lists that are put together, only the first occurrences count. -/
theorem distinct_append_congr {xs xs' ys ys' : List String} (hxs : distinct xs = distinct xs')
    (hys : distinct ys = distinct ys') : distinct (xs ++ ys) = distinct (xs' ++ ys') := by
  have hmem : ∀ y, y ∈ xs ↔ y ∈ xs' := fun y => by rw [← mem_distinct, hxs, mem_distinct]
  simp only [distinct_append, hxs, hys, hmem]

namespace Node

mutual

/-- The names that the factory of a tree uses and the names that the tree refers to are the same
in order of first use, where this holds for nested components. -/
theorem distinct_names_body (cue : Cue) : ∀ n : Node,
    (∀ m ∈ n.nested, ∀ b, m.boundary = some b → b.parameters = m.boundNames cue) →
    distinct (n.body.names cue) = n.boundNames cue
  | mk b e cs, h => by
    rw [body, Body.names, boundNames, preorder, List.flatMap_cons, isEmpty_bodies]
    refine distinct_append_congr rfl (distinct_namesAll_bodies cue cs fun c hc => ⟨?_, ?_⟩)
    · intro b' hb'
      refine h c (mem_nested.mpr ⟨mk b e cs, mem_preorder_self _, hc, ?_⟩) b' hb'
      rw [hb']
      rfl
    · exact fun m hm => h m (nested_of_mem_preorder (mem_preorder_child (n := mk b e cs) hc) hm)

theorem distinct_namesAll_bodies (cue : Cue) : ∀ cs : List Node,
    (∀ c ∈ cs, (∀ b, c.boundary = some b → b.parameters = c.boundNames cue) ∧
      ∀ m ∈ c.nested, ∀ b, m.boundary = some b → b.parameters = m.boundNames cue) →
    distinct (Body.namesAll cue (bodies cs)) =
      distinct ((preorderAll cs).flatMap fun m => m.values.filterMap (referenceName? cue))
  | [], _ => rfl
  | mk (some b) e ds :: cs, h => by
    obtain ⟨⟨hfirst, _⟩, hrest⟩ := List.forall_mem_cons.mp h
    -- A nested component passes its parameters on, and they are the names of its whole tree.
    rw [bodies, childBody, Body.namesAll, Body.names, preorderAll, List.flatMap_append,
      hfirst b rfl]
    exact distinct_append_congr (distinct_of_nodup (nodup_distinct _))
      (distinct_namesAll_bodies cue cs hrest)
  | mk none e ds :: cs, h => by
    obtain ⟨⟨_, hfirst⟩, hrest⟩ := List.forall_mem_cons.mp h
    rw [bodies, Body.namesAll, preorderAll, List.flatMap_append]
    exact distinct_append_congr (distinct_names_body cue (mk none e ds) hfirst)
      (distinct_namesAll_bodies cue cs hrest)

end

end Node

/-! ## Failed calls -/

theorem bindArguments_eq_error {parameters : List String} {arguments : List Value} {name : String}
    {fault : Fault} (h : bindArguments parameters arguments name = .error fault) :
    name ∉ parameters ∧ fault = .unbound name := by
  have hnotin : name ∉ parameters := by
    intro hmem
    rw [bindArguments_of_mem hmem] at h
    cases h
  exact ⟨hnotin, (ofEntries_eq_error h).2⟩

/-- A name has no text in a factory if it is no parameter, or one whose argument has no text. -/
theorem resolve_bindArguments_eq_error {parameters : List String} {arguments : List Value}
    {name : String} {fault : Fault}
    (h : Live.resolve (bindArguments parameters arguments) name = .error fault) :
    fault = .wrongValue ∨ name ∉ parameters ∧ fault = .unbound name := by
  rcases Live.resolve_eq_error h with h | ⟨_, _, _, hfault⟩
  · exact .inr (bindArguments_eq_error h)
  · exact .inl hfault

namespace Registry

/-- Every factory with a key among `keys` was made of a body, which calls such keys only. What is
known of the parameters, the body and the cue is `P`. -/
def Compiled (keys : String → Prop) (P : List String → Body → Cue → Prop) (r : Registry) : Prop :=
  ∀ key registration, keys key → Entries.get? r key = some registration →
    ∃ parameters body lead cue, P parameters body cue ∧ (∀ call ∈ body.calls, keys call.1) ∧
      registration.factory = .steps parameters (body.compile lead cue)

variable {keys : String → Prop} {P : List String → Body → Cue → Prop} {r : Registry}

/-- A call fails because it has no end or an argument without a text, or because somewhere on the
way a factory calls a key without a factory, or uses a name that is none of its parameters. -/
theorem callWithin_eq_error (hr : r.Compiled keys P) : ∀ (depth : Nat) {key : String}
    {registration : Registration} {arguments : List Value} {s t : Stage} {fault : Fault},
    keys key → Entries.get? r key = some registration →
    r.callWithin depth key registration arguments s = .error fault t →
    fault = .endless ∨ fault = .wrongValue ∨ ∃ parameters body cue, P parameters body cue ∧
      ((∃ call ∈ body.calls, Entries.get? r call.1 = none ∧ fault = .noFactory call.1) ∨
        ∃ name ∈ body.names cue, name ∉ parameters ∧ fault = .unbound name)
  | 0, _, _, _, _, _, _, _, _, h => by
    cases h
    exact .inl rfl
  | depth + 1, key, registration, arguments, s, t, fault, hkey, hget, h => by
    obtain ⟨parameters, body, lead, cue, hP, hcalls, hfactory⟩ := hr key registration hkey hget
    obtain ⟨s', hrun⟩ : ∃ s', Live.run (r.invokeWith (r.callWithin depth))
        (bindArguments parameters arguments) [] (body.compile lead cue) s' = .error fault t := by
      simp only [callWithin, hfactory] at h
      split at h
      · exact ⟨_, h⟩
      · exact ⟨_, h⟩
    obtain ⟨t', hconstruct⟩ := (Body.run_compile _ _ lead cue body s').error_left hrun
    have hunresolved : ∀ name ∈ body.names cue,
        Live.resolve (bindArguments parameters arguments) name = .error fault →
        fault = .wrongValue ∨ ∃ parameters body cue, P parameters body cue ∧
          ((∃ call ∈ body.calls, Entries.get? r call.1 = none ∧ fault = .noFactory call.1) ∨
            ∃ name ∈ body.names cue, name ∉ parameters ∧ fault = .unbound name) :=
      fun name hname hfails => (resolve_bindArguments_eq_error hfails).imp_right fun hunbound =>
        ⟨parameters, body, cue, hP, .inr ⟨name, hname, hunbound⟩⟩
    rcases Body.construct_error hconstruct with ⟨value, hvalue, hfault⟩ | ⟨call, hcall, u, hfault⟩
    · obtain ⟨name, hname, hfails⟩ := liveText_error hfault
      exact .inr (hunresolved name (Body.mem_names.mpr (.inl ⟨value, hvalue, hname⟩)) hfails)
    · rcases invokeWith_eq_error hfault with hnone | harguments | hcalled
      · exact .inr (.inr ⟨parameters, body, cue, hP, .inl ⟨call, hcall, hnone⟩⟩)
      · obtain ⟨name, hname, hfails⟩ := callArguments_error harguments
        exact .inr (hunresolved name (Body.mem_names.mpr (.inr ⟨call, hcall, hname⟩)) hfails)
      · obtain ⟨registration', values, hget', _, hcalled⟩ := hcalled
        exact callWithin_eq_error hr depth (hcalls call hcall) hget' hcalled

end Registry

end Pageloom
