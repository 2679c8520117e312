import Pageloom.Proofs.Closure
import Pageloom.Proofs.Parameters

/-!
# Headers of factories

The header of a factory lists the parameters of its component. They come from two places: an
entry of the build has the parameters that it was declared with, and any other component the
names that its tree refers to. Both are without repeats. Nothing looks at the names themselves:
whatever stands after the sigil of a value is a parameter, so a parameter of a nested component
need not be an identifier. Nor are parameters kept apart from the variables of the factory's own
steps, which are numbered; a parameter that is spelled like one of them is hidden by it.

## Main definitions

* `Pageloom.Instruction.declared?` -- the variable that a step declares
* `Pageloom.Body.count` -- the number of variables that a body needs
* `Pageloom.Workshop.Headed` -- workshops whose components have parameters from the two places
* `Pageloom.Program.collect_headers` -- the headers of a build
-/

namespace Pageloom

/-! ## Variables of a factory -/

/-- The variable that a step declares. -/
def Instruction.declared? : Instruction → Option String
  | .createElement var _ => some var
  | .invokeFactory var _ _ => some var
  | _ => none

/-- The variables that steps declare, in order. -/
def Instruction.declaredAll (steps : List Instruction) : List String :=
  steps.filterMap Instruction.declared?

theorem Instruction.declaredAll_append (steps rest : List Instruction) :
    declaredAll (steps ++ rest) = declaredAll steps ++ declaredAll rest := List.filterMap_append

theorem Element.declaredAll_steps (cue : Cue) (var : String) (e : Element) (childless : Bool) :
    Instruction.declaredAll (e.steps cue var childless) = [var] := by
  have hattributes :
      Instruction.declaredAll (e.plainAttributes.map (attributeStep cue var)) = [] := by
    refine List.filterMap_eq_nil_iff.mpr fun step hstep => ?_
    obtain ⟨a, _, rfl⟩ := List.mem_map.mp hstep
    unfold attributeStep
    split <;> rfl
  have htext : Instruction.declaredAll (if childless then e.text.toList.map fun t =>
      Instruction.setText var (operandOf cue t) else []) = [] := by
    cases childless <;> cases e.text <;> rfl
  have hclick : Instruction.declaredAll
      (e.onClick.toList.map fun h => Instruction.assignClick var h.expression) = [] := by
    cases e.onClick <;> rfl
  simp only [steps, Instruction.declaredAll_append, hattributes, htext, hclick, List.append_nil]
  rfl

namespace Body

mutual

/-- The number of elements and calls of a body. -/
def count : Body → Nat
  | .element _ cs => countAll cs + 1
  | .call _ _ => 1

/-- The number of elements and calls of bodies. -/
def countAll : List Body → Nat
  | [] => 0
  | c :: cs => count c + countAll cs

end

mutual

/-- Variables are declared in the order of their numbers, with none left out. -/
theorem declaredAll_emit (lead : String) (cue : Cue) : ∀ (b : Body) (n : Nat),
    Instruction.declaredAll (b.emit lead cue n).1 =
        (List.range' n b.count).map (variableName lead) ∧
      (b.emit lead cue n).2 = n + b.count
  | .element e cs, n => by
    obtain ⟨hbelow, hnext⟩ := declaredAll_emitAll lead cue (variableName lead n) cs (n + 1)
    constructor
    · simp only [emit, Instruction.declaredAll_append, Element.declaredAll_steps, hbelow, count,
        List.range'_succ, List.map_cons, List.singleton_append]
    · simp only [emit, hnext, count]
      omega
  | .call key arguments, n => ⟨rfl, rfl⟩

theorem declaredAll_emitAll (lead : String) (cue : Cue) (parent : String) :
    ∀ (cs : List Body) (n : Nat),
      Instruction.declaredAll (emitAll lead cue parent cs n).1 =
          (List.range' n (countAll cs)).map (variableName lead) ∧
        (emitAll lead cue parent cs n).2 = n + countAll cs
  | [], n => ⟨rfl, rfl⟩
  | c :: cs, n => by
    obtain ⟨hfirst, hnext⟩ := declaredAll_emit lead cue c n
    obtain ⟨hrest, hlast⟩ := declaredAll_emitAll lead cue parent cs (n + c.count)
    have happend : ∀ (child : String) (steps : List Instruction),
        Instruction.declaredAll (.appendChild parent child :: steps) =
          Instruction.declaredAll steps := fun _ _ => rfl
    constructor
    · simp only [emitAll, Instruction.declaredAll_append, happend, hfirst, hnext, hrest, countAll,
        ← List.range'_append_1, List.map_append]
    · simp only [emitAll, hnext, hlast, countAll]
      omega

end

/-- The steps of a body declare the variables with the numbers from one on. -/
theorem declaredAll_compile (lead : String) (cue : Cue) (b : Body) :
    Instruction.declaredAll (b.compile lead cue) =
      (List.range' 1 b.count).map (variableName lead) := by
  have hgive : Instruction.declaredAll [.giveNode (variableName lead 1)] = [] := rfl
  rw [compile, Instruction.declaredAll_append, (declaredAll_emit lead cue b 1).1, hgive,
    List.append_nil]

theorem mem_declaredAll_compile {lead : String} {cue : Cue} {b : Body} {name : String} :
    name ∈ Instruction.declaredAll (b.compile lead cue) ↔
      ∃ k, 0 < k ∧ k ≤ b.count ∧ name = variableName lead k := by
  simp only [declaredAll_compile, List.mem_map, List.mem_range'_1]
  constructor
  · rintro ⟨k, hk, rfl⟩
    exact ⟨k, by omega, by omega, rfl⟩
  · rintro ⟨k, hpos, hle, rfl⟩
    exact ⟨k, by omega, rfl⟩

end Body

/-! ## Where parameters come from -/

namespace Workshop

variable {cue : Cue} {declared : List String → Prop} {w v : Workshop}

/-- The parameters of every component were declared, or are the names that its tree refers to. -/
structure Headed (cue : Cue) (declared : List String → Prop) (w : Workshop) : Prop where
  sigil : w.own.sigil.cue = cue
  heads : ∀ (j : Nat) (k : ComponentCell), w.forest.components[j]? = some k →
    declared k.boundary.parameters ∨ w.forest.Fit cue (.component j)

theorem Rises.headed (h : w.Rises v) (hw : w.Headed cue declared) : v.Headed cue declared where
  sigil := (congrArg Sigil.cue (h.sigil .own)).trans hw.sigil
  heads j l hl := by
    have hj : j < w.forest.components.size := h.size ▸ (Array.getElem?_eq_some_iff.mp hl).1
    have hk := Array.getElem?_eq_getElem hj
    obtain ⟨l', hl', _, _, hparameters⟩ := h.later.components hk
    cases Option.some.inj (hl.symm.trans hl')
    rw [hparameters]
    exact (hw.heads j _ hk).imp_right fun hfit => hfit.mono h.later

/-- A component more, with parameters from one of the two places. -/
theorem Headed.addComponent (hw : w.Headed cue declared) {g : Forest} {e i : Nat} {key : String}
    {parameters : List String} (hadd : w.forest.addComponent e key parameters = .ok (g, i))
    (hparameters : declared parameters ∨
      ∃ n, w.forest.Stands n (.element e) ∧ parameters = n.boundNames cue) :
    ({ w with forest := g } : Workshop).Headed cue declared where
  sigil := hw.sigil
  heads j l hl := by
    obtain ⟨hlater, _, k, hk, hroot, hnames⟩ := Forest.extends_addComponent hadd
    obtain ⟨_, rfl, rfl⟩ := Forest.addComponent_eq_ok hadd
    have hl' := hl
    rw [Forest.modifyElement, Array.getElem?_push] at hl'
    split at hl'
    · next hj =>
      subst hj
      cases Option.some.inj (hk.symm.trans hl)
      rw [hnames]
      refine hparameters.imp_right ?_
      rintro ⟨n, hn, rfl⟩
      exact ⟨_, e, n, hk, hroot, hn.mono hlater, hnames⟩
    · exact (hw.heads j l hl').imp_right fun hfit => hfit.mono hlater

theorem Headed.addHooks (hw : w.Headed cue declared) (i : Nat) (hooks : List Value) :
    ({ w with forest := w.forest.addHooks i hooks } : Workshop).Headed cue declared :=
  (w.rises_addHooks i hooks).headed hw

end Workshop

namespace Program

variable {p : Program} {cue : Cue} {declared : List String → Prop}

/-- Evaluation under the builder of a build gives components the names of their trees. -/
theorem conduct_headed (p : Program) (cue : Cue) (declared : List String → Prop) :
    p.Conduct fun w v => v.active = w.active ∧
      (w.active = .own → w.Headed cue declared → v.Headed cue declared) where
  refl _ := ⟨rfl, fun _ hw => hw⟩
  trans h h' := ⟨h'.1.trans h.1, fun hown hw => h'.2 (h.1.trans hown) (h.2 hown hw)⟩
  names w names := ⟨rfl, fun _ hw => ⟨hw.sigil, hw.heads⟩⟩
  raise w seat := ⟨_, Workshop.raising_rises seat w, fun _ hv => ⟨hv.active, fun _ => hv.headed⟩⟩
  lend _ _ v := ⟨rfl, fun _ hv => hv.addHooks _ _⟩
  wait w seat _ _ _ :=
    have hrises := w.rises_withWaiting seat _
    ⟨hrises.active, fun _ => hrises.headed⟩
  wrap {_ _ _ w _ v _ e names g i} _ hwv hnames hadd := by
    refine ⟨rfl, fun hown hv => ?_⟩
    obtain ⟨_, n, cue', hread, hcue, rfl⟩ := Build.boundNames_read hnames
    rw [← hwv.1, hown] at hcue
    cases (Sigil.forValues_eq_ok hcue).trans hv.sigil
    exact (hv.addComponent hadd (.inr ⟨n, Forest.stands_of_readChecked hread, rfl⟩)).addHooks i _
  claim w seat i waiting hooks _ _ :=
    have hrises := (w.rises_withWaiting seat waiting).trans (Workshop.rises_addHooks _ i hooks)
    ⟨hrises.active, fun _ => hrises.headed⟩

/-- An entry has the parameters that it was declared with. -/
theorem renderRoot_headed {d : Callable} (hd : declared (p.parameters d)) {w : Workshop}
    (hw : w.Headed cue declared) :
    Ended (Workshop.Headed cue declared) (fun _ => True)
      (p.renderRoot (.callable d) none w) := by
  have hconduct := p.conduct_headed cue declared
  have hrooting : Build.Rooting (p.author p.call) d (Workshop.Headed cue declared) :=
    { active := fun _ hu => ⟨hu.sigil, hu.heads⟩
      wrap := fun {_ _ _ u _ _ g i} _ _ hu hadd => (hu.addComponent hadd (.inl hd)).addHooks i _
      around := fun {_ _ _ u _ _ _ _ g i} _ _ hu _ hadd =>
        ((hu.addComponent hadd (.inl hd)).addHooks i _).addHooks i _
      claim := fun u i waiting hooks _ _ hu =>
        ((u.rises_withWaiting .own waiting).trans (Workshop.rises_addHooks _ i hooks)).headed hu }
  refine hrooting.renderRoot buildFaults_any hw fun arguments => ?_
  refine (hconduct.callWithin buildFaults_any callDepth d arguments _).imp fun v hv => ?_
  exact hv.2 rfl ⟨hw.sigil, hw.heads⟩

theorem GivesAll.headed {entries : List Value} {w v : Workshop} {ids : List Nat}
    {keys : List String} (h : p.GivesAll entries w ids keys v)
    (hentries : ∀ d, .callable d ∈ entries → declared (p.parameters d))
    (hw : w.Headed cue declared) : v.Headed cue declared := by
  induction h with
  | nil w => exact hw
  | @cons entry entries w u v i ids key keys first rest ih =>
    obtain ⟨shown, b, r, hroot, _⟩ := first
    refine ih (fun d hd => hentries d (List.mem_cons_of_mem _ hd)) ?_
    cases entry with
    | callable d =>
      have hended := renderRoot_headed (hentries d List.mem_cons_self) hw
      rwa [hroot] at hended
    | _ => cases hroot

end Program

/-- What is read of a component has parameters from one of the two places, and so has every
component that is nested in it. -/
theorem Workshop.Headed.component {cue : Cue} {declared : List String → Prop} {w : Workshop}
    (hw : w.Headed cue declared) {i : Nat} {c d : Component} (hc : w.forest.component i = .ok c)
    (hd : d ∈ c.all) :
    declared d.boundary.parameters ∨ d.boundary.parameters = d.root.boundNames cue := by
  obtain ⟨⟨b, r⟩, hboundary, hc⟩ := except_bind_eq_ok.mp hc
  obtain ⟨n, hread, hc⟩ := except_bind_eq_ok.mp hc
  cases hc
  -- A tree that stands at a component is the tree that its parameters were read off.
  have hplace : ∀ {m : Node} {id : NodeId} {j : Nat} {b' : Boundary}, w.forest.Stands m id →
      w.forest.rootOf id = w.forest.rootOf (.component j) →
      w.forest.Bounds (.component j) (some b') →
      declared b'.parameters ∨ b'.parameters = m.boundNames cue := by
    intro m id j b' hm hroot hbounds
    obtain ⟨k, b'', heq, hk, _, hparameters⟩ := hbounds
    cases heq
    rw [← hparameters]
    refine (hw.heads j k hk).imp_right ?_
    rintro ⟨l, r', t, hl, hr, ht, hnames⟩
    cases Option.some.inj (hk.symm.trans hl)
    have hroot' : w.forest.rootOf (.component j) = w.forest.rootOf (.element r') :=
      Forest.root_eq_ok.mpr ⟨_, hl, hr⟩
    rw [hnames, ht.boundNames_eq cue hm (hroot'.symm.trans hroot.symm)]
  have hstands := Forest.stands_of_readChecked hread
  rcases Component.mem_all.mp hd with rfl | ⟨m, hm, hmb, hroot⟩
  · obtain ⟨hr, hbounds⟩ := Forest.rootOf_of_boundaryOf hboundary
    exact hplace hstands hr.symm hbounds
  · obtain ⟨id, hplaced⟩ := hstands.exists_place (Node.mem_preorder_nested hm)
    rw [hroot, Node.boundNames_withBoundary]
    obtain ⟨bm, e, cs⟩ := m
    cases hmb
    have hbounds := hplaced.1
    cases id with
    | element j => cases hbounds
    | component j => exact hplace hplaced rfl hbounds

/-! ## Headers of a build -/

/-- A factory is a function of the parameters of its component. -/
theorem Boundary.exists_factory_eq (b : Boundary) (body : Body) (lead : String) (cue : Cue) :
    ∃ script, b.factory body lead cue = Instruction.registry ++ "[" ++ Text.literal b.key ++
      "] = function(" ++ Text.join ", " b.parameters ++ ") \x7b\n" ++ script := by
  refine ⟨Text.join "\n" ((Text.splitLines (Instruction.scriptAll (body.compile lead cue))).map
    fun line => "  " ++ line) ++ "\n\x7d;", ?_⟩
  simp only [factory, factoryText, String.append_assoc]

namespace Program

/-- **The parameters in the header of a factory** are distinct. Each is an identifier, if the
declared parameters of entries are, unless it is the name of a reference in the component's own
tree. The steps of the factory declare the variables with the numbers from one to the number of
elements and calls, in order; so a parameter is hidden by a variable exactly if it is spelled
like one of these. -/
theorem collect_headers (p : Program) (entries : List Value) (start w : Workshop)
    (components : List Component) (isIdentifier : String → Prop)
    (hforest : start.forest = .empty)
    (hentries : ∀ d, .callable d ∈ entries →
      (p.parameters d).Nodup ∧ ∀ name ∈ p.parameters d, isIdentifier name)
    (hcollect : p.collect entries start = .ok components w) :
    ∀ c ∈ components,
      c.boundary.parameters.Nodup ∧
      (∀ name ∈ c.boundary.parameters, isIdentifier name ∨
        name ∈ c.root.boundNames start.own.sigil.cue) ∧
      ∀ lead cue,
        (∃ script, c.boundary.factory c.body lead cue = Instruction.registry ++ "[" ++
          Text.literal c.boundary.key ++ "] = function(" ++
          Text.join ", " c.boundary.parameters ++ ") \x7b\n" ++ script) ∧
        Instruction.declaredAll (c.body.compile lead cue) =
          (List.range' 1 c.body.count).map (variableName lead) ∧
        ∀ name ∈ c.boundary.parameters,
          name ∈ Instruction.declaredAll (c.body.compile lead cue) ↔
            ∃ k, 0 < k ∧ k ≤ c.body.count ∧ name = variableName lead k := by
  intro c hc
  obtain ⟨roots, nested, ids, u, _, rfl, hgives, hread, _⟩ := collect_firsts hcollect
  have hheaded : u.Headed start.own.sigil.cue fun parameters =>
      parameters.Nodup ∧ ∀ name ∈ parameters, isIdentifier name :=
    hgives.headed hentries ⟨rfl, by simp [hforest, Forest.empty]⟩
  obtain ⟨root, hroot, hc⟩ := List.mem_flatMap.mp (mem_of_mem_gather hc)
  obtain ⟨i, _, hcomponent⟩ := exists_of_mem_mapM hread hroot
  have hparameters := hheaded.component hcomponent hc
  refine ⟨?_, fun name hname => ?_, fun lead cue => ⟨c.boundary.exists_factory_eq c.body lead cue,
    Body.declaredAll_compile lead cue _, fun name _ => Body.mem_declaredAll_compile⟩⟩
  · rcases hparameters with hdeclared | hnames
    · exact hdeclared.1
    · rw [hnames]
      exact nodup_distinct _
  · rcases hparameters with hdeclared | hnames
    · exact .inl (hdeclared.2 name hname)
    · exact .inr (hnames ▸ hname)

/-- A card with a badge: the card is an entry with a declared parameter, and the badge has the
same parameter because its tree refers to it. -/
theorem collect_headers_card :
    let program : Program :=
      [("Card", ⟨"Card", ["who"], .build (.value (.text "div")) (.value .none)
          [.build (.component "Badge") (.value .none) []], [], false⟩),
        ("Badge", ⟨"Badge", [],
          .build (.value (.text "p")) (.value .none) [.value (.text "$who")], [],
          false⟩)]
    ∃ components w,
      program.collect [.callable (.component "Card" "Card" false)] {} = .ok components w ∧
      (∃ c ∈ components, c.boundary.key = "Card" ∧ c.boundary.parameters = ["who"] ∧
        c.body.count = 2) ∧
      (∃ c ∈ components, c.boundary.key = "Badge" ∧ c.boundary.parameters = ["who"]) ∧
      ∀ c ∈ components, c.boundary.parameters.Nodup ∧
        (∀ name ∈ c.boundary.parameters, name = "who" ∨ name ∈ c.root.boundNames (.ofText "$")) ∧
        ∀ lead cue, Instruction.declaredAll (c.body.compile lead cue) =
          (List.range' 1 c.body.count).map (variableName lead) := by
  intro program
  obtain ⟨components, w, hcollect, hcheck⟩ :=
    Build.exists_ok_of_check
      (x := program.collect [.callable (.component "Card" "Card" false)]) (w := {})
      (fun components _ => (components.any fun c => c.boundary.key = "Card" &&
        c.boundary.parameters = ["who"] && c.body.count = 2) && components.any fun c =>
        c.boundary.key = "Badge" && c.boundary.parameters = ["who"]) (by decide +kernel)
  simp only [Bool.and_eq_true, List.any_eq_true, decide_eq_true_eq] at hcheck
  obtain ⟨⟨c, hc, ⟨hkey, hparameters⟩, hcount⟩, d, hd, hkey', hparameters'⟩ := hcheck
  have hentries : ∀ e, Value.callable e ∈ [Value.callable (.component "Card" "Card" false)] →
      (program.parameters e).Nodup ∧ ∀ name ∈ program.parameters e, name = "who" := by
    intro e he
    cases List.mem_singleton.mp he
    decide
  have hheaders := collect_headers program [.callable (.component "Card" "Card" false)] {} w
    components
    (fun name => name = "who") rfl hentries hcollect
  refine ⟨components, w, hcollect, ⟨c, hc, hkey, hparameters, hcount⟩, ⟨d, hd, hkey', hparameters'⟩,
    fun e he => ?_⟩
  obtain ⟨hnodup, hnames, hfactory⟩ := hheaders e he
  exact ⟨hnodup, hnames, fun lead cue => (hfactory lead cue).2.1⟩

/-- A parameter can be hidden by a variable of the factory, though it is an identifier, and need
not be an identifier: the entry is declared with the name of its first variable, and the badge
refers to a name with a blank. -/
theorem parameter_hidden_or_blank :
    let program : Program :=
      [("Card", ⟨"Card", ["el1"], .build (.value (.text "div")) (.value .none)
          [.build (.component "Badge") (.value .none) []], [], false⟩),
        ("Badge", ⟨"Badge", [],
          .build (.value (.text "p")) (.value .none) [.value (.text "$a b")], [],
          false⟩)]
    ∃ components w,
      program.collect [.callable (.component "Card" "Card" false)] {} = .ok components w ∧
      (∃ c ∈ components, c.boundary.parameters = ["el1"] ∧
        "el1" ∈ Instruction.declaredAll (c.body.compile "el" (.ofText "$"))) ∧
      ∃ c ∈ components, ∃ name ∈ c.boundary.parameters, ' ' ∈ name.toList := by
  intro program
  obtain ⟨components, w, hcollect, hcheck⟩ :=
    Build.exists_ok_of_check
      (x := program.collect [.callable (.component "Card" "Card" false)]) (w := {})
      (fun components _ => (components.any fun c => c.boundary.parameters = ["el1"] &&
        "el1" ∈ Instruction.declaredAll (c.body.compile "el" (.ofText "$"))) &&
        components.any fun c => c.boundary.parameters.any fun name => ' ' ∈ name.toList)
      (by decide +kernel)
  simp only [Bool.and_eq_true, List.any_eq_true, decide_eq_true_eq] at hcheck
  exact ⟨components, w, hcollect, hcheck⟩

end Program

end Pageloom
