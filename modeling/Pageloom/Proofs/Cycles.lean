import Pageloom.Preview
import Pageloom.Proofs.Compiling
import Pageloom.Proofs.Gathering
import Pageloom.Proofs.Nesting

/-!
# Cycles of factory calls

Factories call each other by key, and only the first component of a key gets one. A
component that is nested in another use of itself therefore may have a factory that
calls itself, although every tree is finite. A collection remarks this: the two uses
have different content. Where nothing is remarked, following the calls of factories
is following the nesting of one finite tree.

## Main definitions

* `Pageloom.Uses` -- which keys the collected component of a key calls
* `Pageloom.acc_uses` -- quiet keys are called to a finite depth
* `Pageloom.Settings.preview_registry` -- the factories of a preview
-/

namespace Pageloom

/-- The collected component of one key has, within its own boundary, a component of
the other. -/
def Uses (components : List Component) (a b : String) : Prop :=
  ∃ c ∈ components, c.boundary.key = a ∧ b ∈ c.body.calledKeys

/-- A component of the roots leads to a finite depth of calls, as far as only keys
without a remark are followed: their bodies are alike wherever they stand, so that
each call goes to a smaller tree. -/
theorem acc_uses {roots : List Component} : ∀ {c : Component}, c ∈ roots.flatMap Component.all →
    Acc (fun b a => Uses (gather roots).1 a b ∧ .contentDiffers a ∉ (gather roots).2)
      c.boundary.key := by
  intro c hc
  induction hsize : c.root.preorder.length using Nat.strong_induction_on generalizing c with
  | _ n ih =>
    refine ⟨_, fun b hstep => ?_⟩
    obtain ⟨⟨d, hd, hkey, hcalled⟩, hquiet⟩ := hstep
    have hsame := sameContent_of_gather hc (mem_of_mem_gather hd) hkey.symm hquiet
    rw [← Body.calledKeys_eq_of_same (Component.sameContent_iff.mp hsame).2] at hcalled
    obtain ⟨call, hcall, rfl⟩ := List.mem_map.mp hcalled
    obtain ⟨e, he, rfl, hlt⟩ := Component.exists_of_call hcall
    obtain ⟨root, hroot, hc⟩ := List.mem_flatMap.mp hc
    have hmem : e ∈ roots.flatMap Component.all :=
      List.mem_flatMap.mpr ⟨root, hroot, Component.all_trans hc he⟩
    exact ih _ (hsize ▸ hlt) hmem rfl

/-! ## The factories of a preview -/

theorem Element.invokeFactory_notMem_steps (cue : Cue) (var : String) (e : Element)
    (childless : Bool) (var' key : String) (names : List String) :
    .invokeFactory var' key names ∉ e.steps cue var childless := by
  have hattribute (a : String × String) :
      Element.attributeStep cue var a ≠ .invokeFactory var' key names := by
    unfold Element.attributeStep
    split <;> simp
  have htext : .invokeFactory var' key names ∉
      (if childless then e.text.toList.map fun t => Instruction.setText var (operandOf cue t)
        else []) := by
    split <;> simp
  simp [Element.steps, hattribute, htext]

namespace Body

mutual

theorem mem_calls_of_emit {lead : String} {cue : Cue} {var key : String} {names : List String} :
    ∀ {b : Body} {n : Nat}, .invokeFactory var key names ∈ (b.emit lead cue n).1 →
      (key, names) ∈ b.calls
  | .element e cs, n, h => by
    simp only [emit, List.mem_append] at h
    rcases h with hown | hbelow
    · exact absurd hown (e.invokeFactory_notMem_steps _ _ _ _ _ _)
    · exact mem_calls_of_emitAll hbelow
  | .call key' names', n, h => by
    simp only [emit, List.mem_singleton, Instruction.invokeFactory.injEq] at h
    simp [calls, h]

theorem mem_calls_of_emitAll {lead : String} {cue : Cue} {var key : String} {names : List String} :
    ∀ {cs : List Body} {parent : String} {n : Nat},
      .invokeFactory var key names ∈ (emitAll lead cue parent cs n).1 → (key, names) ∈ callsAll cs
  | [], parent, n, h => by simp [emitAll] at h
  | c :: cs, parent, n, h => by
    simp only [emitAll, List.mem_append, List.mem_cons, reduceCtorEq, false_or] at h
    exact List.mem_append.mpr (h.imp mem_calls_of_emit mem_calls_of_emitAll)

end

theorem mem_calls_of_compile {lead : String} {cue : Cue} {var key : String} {names : List String}
    {b : Body} (h : .invokeFactory var key names ∈ b.compile lead cue) :
    (key, names) ∈ b.calls := by
  simp only [compile, List.mem_append, List.mem_singleton, reduceCtorEq, or_false] at h
  exact mem_calls_of_emit h

end Body

theorem Session.registry_register (key : String) (registration : Registration) (s : Session) :
    (s.register key registration).registry = s.registry.set key registration := by
  unfold register settle
  split <;> rfl

namespace Settings

/-- A registration holds the steps of a component that is among the given ones. -/
def Serves (settings : Settings) (components : List Component) (key : String)
    (registration : Registration) : Prop :=
  ∃ c ∈ components, c.boundary.key = key ∧ ∃ steps, settings.compile c.body = .ok steps ∧
    registration = ⟨.steps c.boundary.parameters steps, false⟩

theorem preview_cons {settings : Settings} {c : Component} {cs : List Component}
    {session session' : Session} (h : settings.preview (c :: cs) session = .ok session') :
    ∃ steps, settings.compile c.body = .ok steps ∧ settings.preview cs
      (session.register c.boundary.key ⟨.steps c.boundary.parameters steps, false⟩) =
        .ok session' := by
  simp only [preview, List.foldlM_cons] at h
  cases hsteps : settings.compile c.body with
  | error fault =>
    rw [hsteps] at h
    cases h
  | ok steps =>
    rw [hsteps] at h
    exact ⟨steps, rfl, h⟩

/-- A preview registers a factory for every component, and each factory that it
registers is that of a component with its key. -/
theorem preview_registry {settings : Settings} :
    ∀ {components : List Component} {session session' : Session},
      settings.preview components session = .ok session' →
      (∀ key registration, Entries.get? session'.registry key = some registration →
        settings.Serves components key registration ∨
          Entries.get? session.registry key = some registration) ∧
      ∀ key, (key ∈ components.map (·.boundary.key) ∨ key ∈ Entries.keys session.registry) →
        key ∈ Entries.keys session'.registry
  | [], session, session', h => by
    cases h
    exact ⟨fun _ _ hget => .inr hget, fun key hkey => by simpa using hkey⟩
  | c :: cs, session, session', h => by
    obtain ⟨steps, hsteps, hrest⟩ := preview_cons h
    obtain ⟨hserves, hkeys⟩ := preview_registry hrest
    rw [Session.registry_register] at hserves hkeys
    constructor
    · intro key registration hget
      rcases hserves key registration hget with ⟨d, hd, hserved⟩ | hold
      · exact .inl ⟨d, List.mem_cons_of_mem _ hd, hserved⟩
      · rw [Entries.get?_set] at hold
        by_cases hkey : c.boundary.key = key
        · rw [if_pos hkey] at hold
          exact .inl ⟨c, List.mem_cons_self, hkey, steps, hsteps, (Option.some.inj hold).symm⟩
        · rw [if_neg hkey] at hold
          exact .inr hold
    · intro key hkey
      refine hkeys key ?_
      rw [Entries.keys_set]
      split <;> grind

end Settings

/-! ## Cycles are remarked -/

theorem not_transGen_of_acc {α : Type} {R : α → α → Prop} {a : α}
    (h : Acc (fun b a => R a b) a) : ¬ Relation.TransGen R a a := by
  intro hcycle
  have hback : Relation.TransGen (fun b a => R a b) a a := Relation.transGen_swap.mpr hcycle
  have hacc := h.transGen
  clear h hcycle
  induction hacc with
  | intro a _ ih => exact ih a hback hback

/-- A cycle of uses has a key whose content was remarked to differ. -/
theorem not_transGen_uses (roots : List Component) (key : String) : ¬ Relation.TransGen
    (fun a b => Uses (gather roots).1 a b ∧ .contentDiffers a ∉ (gather roots).2) key key := by
  intro hcycle
  obtain ⟨b, ⟨⟨c, hc, rfl, _⟩, _⟩, _⟩ := Relation.TransGen.head'_iff.mp hcycle
  exact not_transGen_of_acc (acc_uses (mem_of_mem_gather hc)) hcycle

/-- The factories of a preview call what the collected components use. -/
theorem Settings.uses_of_calls {settings : Settings} {components : List Component}
    {session session' : Session} (hempty : session.registry = [])
    (hpreview : settings.preview components session = .ok session') {a b : String}
    (h : session'.registry.Calls a b) : Uses components a b := by
  obtain ⟨parameters, steps, isRecorded, var, names, hget, hmem⟩ := h
  rcases (preview_registry hpreview).1 a _ hget with hserves | hold
  · obtain ⟨c, hc, hkey, steps', hsteps, heq⟩ := hserves
    obtain ⟨lead, cue, _, _, _, rfl⟩ := compile_eq_ok hsteps
    cases heq
    exact ⟨c, hc, hkey, List.mem_map.mpr ⟨_, Body.mem_calls_of_compile hmem, rfl⟩⟩
  · rw [hempty] at hold
    cases hold

/-- A factory of a preview that leads to no cycle of uses makes calls that nest to a
finite depth: the depth that calls are allowed is not used up, and to allow more
changes nothing. -/
theorem Settings.call_ends {settings : Settings} {components : List Component}
    {session session' : Session} (hempty : session.registry = [])
    (hpreview : settings.preview components session = .ok session') {c : Component}
    (hc : c ∈ components)
    (hacyclic : ∀ key, Relation.ReflTransGen (Uses components) c.boundary.key key →
      ¬ Relation.TransGen (Uses components) key key) :
    ∃ registration, Entries.get? session'.registry c.boundary.key = some registration ∧
      (∀ arguments s t, session'.registry.call c.boundary.key registration arguments s ≠
        .error .endless t) ∧
      ∀ depth, session'.registry.length ≤ depth →
        session'.registry.callWithin depth c.boundary.key registration =
          session'.registry.call c.boundary.key registration := by
  have hkey := (preview_registry hpreview).2 c.boundary.key (.inl (List.mem_map.mpr ⟨c, hc, rfl⟩))
  obtain ⟨registration, hget⟩ := Entries.exists_get?_of_mem_keys hkey
  have huses : ∀ a b, session'.registry.Calls a b → Uses components a b :=
    fun a b hcall => uses_of_calls hempty hpreview hcall
  obtain ⟨hends, hsame⟩ := Registry.callWithin_stable session'.registry.length hget
    (fun b hreach hcycle => hacyclic b (Relation.ReflTransGen.mono huses _ _ hreach)
      (Relation.TransGen.mono huses _ _ hcycle))
    (Registry.card_within_le _ _)
  have hcall : session'.registry.call c.boundary.key registration =
      session'.registry.callWithin session'.registry.length c.boundary.key registration := by
    funext arguments
    exact congrFun (hsame _ (Nat.le_succ _)) arguments
  refine ⟨registration, hget, fun arguments s t hendless => ?_, fun depth hdepth => ?_⟩
  · rw [hcall] at hendless
    exact hends arguments s t hendless
  · rw [hcall, hsame depth hdepth]

/-- **Every cycle of factory calls is remarked.** In what a build collects, every
cycle of uses has a key whose content was remarked to differ. A factory that leads to
no cycle makes calls that nest to a finite depth: the depth that calls are allowed is
not used up, and to allow more changes nothing. -/
theorem Program.cycle_of_uses_remarked (p : Program) (entries : List Value) (w w' : Workshop)
    (components : List Component) (h : p.collect entries w = .ok components w') :
    (∀ key, ¬ Relation.TransGen
      (fun a b => Uses components a b ∧ .contentDiffers a ∉ w'.notices) key key) ∧
    ∀ (settings : Settings) (session session' : Session), session.registry = [] →
      settings.preview components session = .ok session' → ∀ c ∈ components,
      (∀ key, Relation.ReflTransGen (Uses components) c.boundary.key key →
        ¬ Relation.TransGen (Uses components) key key) →
      ∃ registration, Entries.get? session'.registry c.boundary.key = some registration ∧
        (∀ arguments s t, session'.registry.call c.boundary.key registration arguments s ≠
          .error .endless t) ∧
        ∀ depth, session'.registry.length ≤ depth →
          session'.registry.callWithin depth c.boundary.key registration =
            session'.registry.call c.boundary.key registration := by
  obtain ⟨ids, u, roots, _, _, rfl, rfl⟩ := collect_eq_ok h
  refine ⟨fun key hcycle => ?_, fun settings session session' hempty hpreview c hc hacyclic =>
    Settings.call_ends hempty hpreview hc hacyclic⟩
  refine not_transGen_uses roots key (Relation.TransGen.mono ?_ _ _ hcycle)
  exact fun a b hstep => ⟨hstep.1, fun hnotice => hstep.2 (List.mem_append_right _ hnotice)⟩

/-- Whether calling the factory that a preview has for a key is without end. -/
def Settings.isEndless (settings : Settings) (components : List Component) (key : String) : Bool :=
  match settings.preview components {} with
  | .error _ => false
  | .ok session =>
    match Entries.get? session.registry key with
    | none => false
    | some registration =>
      match session.registry.call key registration [] {} with
      | .error .endless _ => true
      | _ => false

theorem Settings.isEndless_iff {settings : Settings} {components : List Component} {key : String} :
    settings.isEndless components key = true ↔
      ∃ session registration t, settings.preview components {} = .ok session ∧
        Entries.get? session.registry key = some registration ∧
        session.registry.call key registration [] {} = .error .endless t := by
  unfold isEndless
  constructor
  · intro h
    split at h
    · cases h
    · rename_i session hpreview
      split at h
      · cases h
      · rename_i registration hget
        split at h
        · rename_i t hcall
          exact ⟨session, registration, t, hpreview, hget, hcall⟩
        · cases h
  · rintro ⟨session, registration, t, hpreview, hget, hcall⟩
    simp [hpreview, hget, hcall]

/-- A page whose two components are used once each: nothing is remarked, and calling
the factory of the page has an end. -/
theorem cycle_of_uses_remarked_page :
    let program : Program :=
      [("Page", ⟨"Page", [], .build (.value (.text "div")) (.value .none)
          [.build (.component "Card") (.table [("label", .value (.text "$who"))]) []], [], false⟩),
        ("Card", ⟨"Card", ["props"], .build (.value (.text "p")) (.value .none)
          [.prop "label" (.value (.text "none"))], [], false⟩)]
    ∃ components w,
      program.collect [.callable (.component "Page" "Page" false)] {} = .ok components w ∧
      Uses components "Page" "Card" ∧
      ∃ session registration, ({} : Settings).preview components {} = .ok session ∧
        Entries.get? session.registry "Page" = some registration ∧
        ∀ arguments s t, session.registry.call "Page" registration arguments s ≠
          .error .endless t := by
  intro program
  obtain ⟨components, w, hcollect, hcheck⟩ :=
    Build.exists_ok_of_check
      (x := program.collect [.callable (.component "Page" "Page" false)]) (w := {})
      (fun components w => w.notices.isEmpty && (({} : Settings).preview components {}).isOk &&
        components.any fun c => c.boundary.key = "Page" && c.body.calledKeys.contains "Card")
      (by decide +kernel)
  simp only [Bool.and_eq_true, List.isEmpty_iff, List.any_eq_true, decide_eq_true_eq,
    List.contains_iff_mem] at hcheck
  obtain ⟨⟨hquiet, hok⟩, c, hc, hkey, hcalled⟩ := hcheck
  cases hpreview : ({} : Settings).preview components {} with
  | error fault =>
    rw [hpreview] at hok
    cases hok
  | ok session =>
    obtain ⟨hremarked, hfinite⟩ := Program.cycle_of_uses_remarked program _ _ _ _ hcollect
    obtain ⟨registration, hget, hends, _⟩ := hfinite {} {} session rfl hpreview c hc
      fun key _ hcycle => hremarked key (by simpa [hquiet] using hcycle)
    rw [hkey] at hget hends
    exact ⟨components, w, hcollect, ⟨c, hc, hkey, hcalled⟩, session, registration, hpreview, hget,
      hends⟩

/-- A component that is nested in another use of itself has a factory that calls
itself, and calling it has no end. -/
theorem uses_cycle_of_nested_entry :
    let program : Program := [("A", ⟨"A", [], .build (.value (.text "div")) (.value .none)
      [.prop "inner" (.build (.component "A") (.table [("inner", .value (.text "stop"))]) [])],
      [], false⟩)]
    ∃ components w, program.collect [.callable (.component "A" "A" false)] {} = .ok components w ∧
      Relation.TransGen (Uses components) "A" "A" ∧
      ∃ session registration t, ({} : Settings).preview components {} = .ok session ∧
        Entries.get? session.registry "A" = some registration ∧
        session.registry.call "A" registration [] {} = .error .endless t := by
  intro program
  obtain ⟨components, w, hcollect, hcheck⟩ :=
    Build.exists_ok_of_check (x := program.collect [.callable (.component "A" "A" false)]) (w := {})
      (fun components _ => (components.any fun c =>
        c.boundary.key = "A" && c.body.calledKeys.contains "A") &&
          ({} : Settings).isEndless components "A") (by decide +kernel)
  simp only [Bool.and_eq_true, List.any_eq_true, decide_eq_true_eq, List.contains_iff_mem] at hcheck
  obtain ⟨⟨c, hc, hkey, hcalled⟩, hendless⟩ := hcheck
  exact ⟨components, w, hcollect, .single ⟨c, hc, hkey, hcalled⟩,
    Settings.isEndless_iff.mp hendless⟩

end Pageloom
