import Pageloom.Proofs.Calling
import Pageloom.Proofs.Cycles
import Pageloom.Proofs.Evaluation
import Pageloom.Proofs.Mirroring

/-!
# Factories rebuild what was built

The factory of a component calls the factories of the components nested in it, and
those come from the first use of each key. Where no use was remarked to differ, the
first use of a key has the parameters and the body of every other use, up to tokens.
Bodies are compared one boundary at a time; that whole trees agree follows by
induction on how deep calls nest. A nested component has the names of its own tree as
its parameters, so the arguments that the outer factory passes on bind all of them.

## Main definitions

* `Pageloom.Live.Rebuilds` -- running makes a tree that mirrors a page tree
* `Pageloom.Registry.Covers` -- what a preview registers for components
* `Pageloom.Registry.callWithin_rebuilds` -- what a call within a depth makes
* `Pageloom.Program.collect_rebuilds` -- the factories of a build rebuild it
-/

namespace Pageloom

/-- The elements of a component have attributes with distinct names, and the
parameters of each component nested in it are the names of that component's tree. -/
structure Component.Tidy (cue : Cue) (c : Component) : Prop where
  nodup : ∀ m ∈ c.root.preorder, m.element.attributes.keys.Nodup
  parameters : ∀ m ∈ c.root.nested, ∀ b, m.boundary = some b → b.parameters = m.boundNames cue

theorem Component.Tidy.of_mem_all {cue : Cue} {c d : Component} (h : c.Tidy cue) (hd : d ∈ c.all) :
    d.Tidy cue := by
  rcases mem_all.mp hd with rfl | ⟨n, hn, _, hroot⟩
  · exact h
  · have hpart : n ∈ c.root.preorder := Node.mem_preorder_nested hn
    refine ⟨fun m hm => ?_, fun m hm => ?_⟩
    · obtain ⟨b, e, cs⟩ := n
      rw [hroot, Node.withBoundary, Node.preorder, List.mem_cons] at hm
      rcases hm with rfl | hbelow
      · exact h.nodup (Node.mk b e cs) hpart
      · exact h.nodup m ((Node.preorder_sublist hpart).subset (List.mem_cons_of_mem _ hbelow))
    · rw [hroot, Node.nested_withBoundary] at hm
      exact h.parameters m (Node.nested_trans hn hm)

/-! ## What construction rebuilds -/

/-- Running makes a new tree that mirrors the given one, unless calls nest too deep. -/
def Live.Rebuilds (cue : Cue) (fill : String → String) (known : String → Prop) (n : Node)
    (act : Live Nat) : Prop :=
  ∀ s, (∃ t, act s = .error .endless t) ∨
    ∃ i t tree, act s = .ok i t ∧ s.Gains tree i t ∧ n.Mirrors cue fill known tree

/-- A tree mirrors all components nested in `n` that a call of a key stands for. -/
def Node.MirrorsCalled (cue : Cue) (fill : String → String) (known : String → Prop) (n : Node)
    (key : String) (_names : List String) (tree : LiveTree) : Prop :=
  ∀ m ∈ n.nested, ∀ c, m.boundary = some c → c.key = key → m.Mirrors cue fill known tree

section

variable {cue : Cue} {fill : String → String} {known : String → Prop} {n : Node}
  {act act' : Live Nat}

theorem Live.rebuilds_withBoundary {b : Option Boundary} :
    Live.Rebuilds cue fill known (n.withBoundary b) act ↔ Live.Rebuilds cue fill known n act := by
  simp only [Live.Rebuilds, Node.mirrors_withBoundary]

theorem Live.Rebuilds.of_sameOutcome (h : Live.Rebuilds cue fill known n act)
    (hsame : ∀ s, SameOutcome (act s) (act' s)) : Live.Rebuilds cue fill known n act' := by
  intro s
  rcases h s with ⟨t, hendless⟩ | ⟨i, t, tree, hok, hmade⟩
  · exact .inl ((hsame s).error_left hendless)
  · exact .inr ⟨i, t, tree, (hsame s).ok_left hok, hmade⟩

/-- **A body rebuilds every tree with its content**, if each of its calls rebuilds the
nested components with the key that is called. -/
theorem Body.construct_rebuilds {b : Body} {bindings : Bindings}
    {invoke : String → Except Fault (List Value) → Live Nat} (hsame : b.same n.body = true)
    (hknown : ∀ token ∈ b.tokens, known token)
    (hnodup : ∀ m ∈ n.preorder, m.element.attributes.keys.Nodup)
    (hfills : Fills cue bindings fill b.values)
    (hcalls : ∀ call ∈ b.calls, ∀ m ∈ n.nested, ∀ c, m.boundary = some c → c.key = call.1 →
      Live.Rebuilds cue fill known m (invoke call.1 (callArguments bindings call.2))) :
    Live.Rebuilds cue fill known n (b.construct invoke bindings cue) := by
  -- Each call has a nested component to rebuild, since the tree calls the same keys.
  have hexists : ∀ call ∈ b.calls, ∃ m ∈ n.nested, ∃ c, m.boundary = some c ∧ c.key = call.1 := by
    intro call hcall
    have hkey : call.1 ∈ n.body.calledKeys :=
      calledKeys_eq_of_same hsame ▸ List.mem_map.mpr ⟨call, hcall, rfl⟩
    obtain ⟨call', hcall', heq⟩ := List.mem_map.mp hkey
    obtain ⟨m, hm, c, hc, rfl⟩ := Node.exists_nested_of_call hcall'
    exact ⟨m, hm, c, hc, heq⟩
  intro s
  cases hrun : b.construct invoke bindings cue s with
  | error fault t =>
    rcases construct_error hrun with ⟨value, hvalue, hfault⟩ | ⟨call, hcall, u, hfails⟩
    · rw [hfills value hvalue] at hfault
      cases hfault
    · obtain ⟨m, hm, c, hc, hkey⟩ := hexists call hcall
      rcases hcalls call hcall m hm c hc hkey u with ⟨v, hendless⟩ | ⟨j, v, tree, hok, _⟩
      · rw [hfails] at hendless
        cases hendless
        exact .inl ⟨t, rfl⟩
      · rw [hfails] at hok
        cases hok
  | ok i t =>
    -- A call made one tree, which mirrors every nested component with its key.
    have hmirrors : ∀ call ∈ b.calls, ∀ u j v,
        invoke call.1 (callArguments bindings call.2) u = .ok j v →
        ∀ m ∈ n.nested, ∀ c, m.boundary = some c → c.key = call.1 →
          ∃ tree, u.Gains tree j v ∧ m.Mirrors cue fill known tree := by
      intro call hcall u j v hinvoke m hm c hc hkey
      rcases hcalls call hcall m hm c hc hkey u with ⟨w, hendless⟩ | ⟨k, w, tree, hok, hmade⟩
      · rw [hinvoke] at hendless
        cases hendless
      · rw [hinvoke] at hok
        cases hok
        exact ⟨tree, hmade⟩
    have hmade : ∀ call ∈ b.calls, ∀ u j v,
        invoke call.1 (callArguments bindings call.2) u = .ok j v →
        ∃ tree, u.Gains tree j v ∧ n.MirrorsCalled cue fill known call.1 call.2 tree := by
      intro call hcall u j v hinvoke
      obtain ⟨m, hm, c, hc, hkey⟩ := hexists call hcall
      obtain ⟨tree, hgains, _⟩ := hmirrors call hcall u j v hinvoke m hm c hc hkey
      refine ⟨tree, hgains, fun m' hm' c' hc' hkey' => ?_⟩
      obtain ⟨tree', hgains', hmirrors'⟩ := hmirrors call hcall u j v hinvoke m' hm' c' hc' hkey'
      rwa [hgains.holds.unique hgains'.holds]
    obtain ⟨tree, hgains, hpictured⟩ := construct_pictured hmade hrun
    refine .inr ⟨i, t, tree, rfl, hgains, Node.mirrors_of_pictured hsame hknown hnodup hfills ?_
      hpictured⟩
    exact fun m hm c hc names tree hall => hall m hm c hc rfl

end

/-! ## What factories rebuild -/

/-- A registry covers components: they are tidy, nothing nested in them is left out, and
for the key of each there are the steps of one with the same content. -/
structure Registry.Covers (r : Registry) (cue : Cue) (known : String → Prop)
    (components : List Component) : Prop where
  closed : ∀ c ∈ components, ∀ d ∈ c.all, d ∈ components
  tidy : ∀ c ∈ components, c.Tidy cue
  served : ∀ d ∈ components, ∃ c ∈ components, ∃ lead, c.sameContent d = true ∧
    (∀ token ∈ c.body.tokens, known token) ∧ Entries.get? r d.boundary.key =
      some ⟨.steps c.boundary.parameters (c.body.compile lead cue), false⟩

namespace Registry

variable {r : Registry} {cue : Cue} {known : String → Prop} {components : List Component}

/-- Components with one key have one list of parameters. -/
theorem Covers.parameters_eq (h : r.Covers cue known components) {c d : Component}
    (hc : c ∈ components) (hd : d ∈ components) (hkey : c.boundary.key = d.boundary.key) :
    c.boundary.parameters = d.boundary.parameters := by
  obtain ⟨c', _, lead, hsame, _, hget⟩ := h.served c hc
  obtain ⟨d', _, lead', hsame', _, hget'⟩ := h.served d hd
  rw [hkey, hget'] at hget
  simp only [Option.some.injEq, Registration.mk.injEq, Factory.steps.injEq] at hget
  obtain ⟨⟨hparameters, _⟩, _⟩ := hget
  calc c.boundary.parameters = c'.boundary.parameters :=
        (Component.sameContent_iff.mp hsame).1.2.symm
    _ = d'.boundary.parameters := hparameters.symm
    _ = d.boundary.parameters := (Component.sameContent_iff.mp hsame').1.2

theorem Covers.mem_of_nested (h : r.Covers cue known components) {d : Component}
    (hd : d ∈ components) {m : Node} (hm : m ∈ d.root.nested) {b : Boundary}
    (hb : m.boundary = some b) : ⟨b, m.withBoundary none⟩ ∈ components :=
  h.closed d hd _ (Component.mem_all.mpr (.inr ⟨m, hm, hb, rfl⟩))

/-- A call of a nested component rebuilds it, if calling factories does: the names that
the call passes on are those of the component's tree. -/
theorem Covers.invoke_rebuilds (h : r.Covers cue known components) {fill : String → String}
    {call : String → Registration → List Value → Live Nat}
    (hcall : ∀ {e registration arguments}, e ∈ components →
      Entries.get? r e.boundary.key = some registration →
      (bindArguments e.boundary.parameters arguments).Give fill (e.root.boundNames cue) →
      Live.Rebuilds cue fill known e.root (call e.boundary.key registration arguments))
    {d : Component} (hd : d ∈ components) {m : Node} (hm : m ∈ d.root.nested) {b : Boundary}
    (hb : m.boundary = some b) {bindings : Bindings} (hgive : bindings.Give fill b.parameters) :
    Live.Rebuilds cue fill known m
      (r.invokeWith call b.key (callArguments bindings b.parameters)) := by
  have hnames : b.parameters = m.boundNames cue := (h.tidy d hd).parameters m hm b hb
  have hnested := h.mem_of_nested hd hm hb
  obtain ⟨_, _, _, _, _, hget⟩ := h.served _ hnested
  rw [hgive.callArguments_eq, invokeWith_of_get? hget, ← Live.rebuilds_withBoundary (b := none)]
  refine hcall hnested hget ?_
  rw [Node.boundNames_withBoundary, ← hnames]
  exact bindArguments_passedOn fill

/-- **A factory rebuilds its component**, unless calls nest too deep, if its arguments
give a text to each name of the component. -/
theorem callWithin_rebuilds (h : r.Covers cue known components) : ∀ (depth : Nat) {d : Component}
    {registration : Registration} {arguments : List Value} {fill : String → String},
    d ∈ components → Entries.get? r d.boundary.key = some registration →
    (bindArguments d.boundary.parameters arguments).Give fill (d.root.boundNames cue) →
    Live.Rebuilds cue fill known d.root
      (r.callWithin depth d.boundary.key registration arguments)
  | 0, _, _, _, _, _, _, _ => fun s => .inl ⟨s, rfl⟩
  | depth + 1, d, registration, arguments, fill, hd, hget, hgive => by
    obtain ⟨c, hc, lead, hsame, hknown, hserved⟩ := h.served d hd
    obtain ⟨⟨_, hparameters⟩, hbody⟩ := Component.sameContent_iff.mp hsame
    cases hget.symm.trans hserved
    have hfills := hgive.fills
    rw [← hparameters] at hgive hfills
    have hbuilt : Live.Rebuilds cue fill known d.root (c.body.construct
        (r.invokeWith (r.callWithin depth)) (bindArguments c.boundary.parameters arguments)
        cue) := by
      refine Body.construct_rebuilds hbody hknown (h.tidy d hd).nodup ?_ fun call hcall => ?_
      · rw [Body.values_eq_of_same hbody]
        exact hfills.mono (Node.values_body_subset d.root)
      · -- The call comes from the first use of its key; parameters are equal by key.
        obtain ⟨e, he, rfl, _⟩ := Component.exists_of_call hcall
        intro m hm b hb (hkey : b.key = e.boundary.key)
        have hnames : b.parameters = e.boundary.parameters :=
          h.parameters_eq (h.mem_of_nested hd hm hb) (h.closed c hc e he) hkey
        simp only [← hkey, ← hnames]
        refine h.invoke_rebuilds (callWithin_rebuilds h depth) hd hm hb fun name hname => ?_
        rw [(h.tidy d hd).parameters m hm b hb] at hname
        exact hgive name (Node.boundNames_subset (Node.mem_preorder_nested hm) cue hname)
    exact hbuilt.of_sameOutcome fun s => (Body.run_compile _ _ lead cue c.body s).symm

/-- The factory of a component uses the names of the component's tree, also where it was made of
another component with the same content. -/
theorem Covers.mem_names (h : r.Covers cue known components) {c d : Component}
    (hc : c ∈ components) (hd : d ∈ components) (hsame : c.sameContent d = true) {name : String} :
    name ∈ c.body.names cue ↔ name ∈ d.root.boundNames cue := by
  have hbody := (Component.sameContent_iff.mp hsame).2
  have hcalls : ∀ {c d : Component}, c ∈ components → d ∈ components →
      c.body.calledKeys = d.body.calledKeys → (∃ call ∈ c.body.calls, name ∈ call.2) →
      ∃ call ∈ d.body.calls, name ∈ call.2 := by
    rintro c d hc hd hkeys ⟨call, hcall, hname⟩
    have hkey : call.1 ∈ d.body.calledKeys := hkeys ▸ List.mem_map_of_mem hcall
    obtain ⟨call', hcall', heq⟩ := List.mem_map.mp hkey
    obtain ⟨e, he, rfl, _⟩ := Component.exists_of_call hcall
    obtain ⟨e', he', rfl, _⟩ := Component.exists_of_call hcall'
    refine ⟨_, hcall', ?_⟩
    rwa [h.parameters_eq (h.closed d hd e' he') (h.closed c hc e he) heq]
  have hkeys := Body.calledKeys_eq_of_same hbody
  rw [← Node.distinct_names_body cue d.root (h.tidy d hd).parameters, mem_distinct]
  change _ ↔ name ∈ d.body.names cue
  rw [Body.mem_names, Body.mem_names, Body.values_eq_of_same hbody]
  exact or_congr_right ⟨hcalls hc hd hkeys, hcalls hd hc hkeys.symm⟩

theorem give_of_callArguments {parameters names : List String} {arguments values : List Value}
    (hnames : ∀ name ∈ names, name ∈ parameters)
    (h : callArguments (bindArguments parameters arguments) names = .ok values) :
    (bindArguments parameters arguments).Give (argumentText parameters arguments) names := by
  refine give_bindArguments hnames fun name hname => ?_
  obtain ⟨_, _, hv⟩ := mapM_mem h hname
  rw [resolve_bindArguments (hnames name hname)] at hv
  by_contra hnone
  rw [Value.plainText_of_not_hasText (by simpa using hnone)] at hv
  cases hv

/-- A call of a nested component fails because it nests too deep, or for an argument without a
text, if the arguments are parameters of the component around it. -/
theorem Covers.invoke_error (h : r.Covers cue known components) {depth : Nat} {c : Component}
    (hc : c ∈ components) {key : String} {names : List String} (hcall : (key, names) ∈ c.body.calls)
    (hnames : ∀ name ∈ names, name ∈ c.boundary.parameters) {arguments : List Value} {s t : Stage}
    {fault : Fault} (hfails : r.invokeWith (r.callWithin depth) key
      (callArguments (bindArguments c.boundary.parameters arguments) names) s = .error fault t) :
    fault = .endless ∨ fault = .wrongValue := by
  obtain ⟨m, hm, b, hb, heq⟩ := Node.exists_nested_of_call hcall
  cases heq
  obtain ⟨_, _, _, _, _, hnested⟩ := h.served _ (h.mem_of_nested hc hm hb)
  rcases invokeWith_eq_error hfails with hnone | harguments | ⟨_, _, _, harguments, _⟩
  · cases hnone.1.symm.trans hnested
  · obtain ⟨name, hname, hfails⟩ := callArguments_error harguments
    exact .inr ((resolve_bindArguments_eq_error hfails).resolve_right fun hunbound =>
      hunbound.1 (hnames name hname))
  · -- The nested component is given texts only.
    have hgive := give_of_callArguments hnames harguments
    rcases h.invoke_rebuilds (callWithin_rebuilds h depth) hc hm hb hgive s with
      ⟨_, hendless⟩ | ⟨_, _, _, hok, _⟩
    · cases hfails.symm.trans hendless
      exact .inl rfl
    · cases hfails.symm.trans hok

/-- **A factory fails for an argument without a text**, unless calls nest too deep, if the
component refers to it. -/
theorem callWithin_unwritable (h : r.Covers cue known components) (depth : Nat) {d : Component}
    {registration : Registration} {arguments : List Value} {name : String} (hd : d ∈ components)
    (hget : Entries.get? r d.boundary.key = some registration)
    (hbound : ∀ name ∈ d.root.boundNames cue, name ∈ d.boundary.parameters)
    (hname : name ∈ d.root.boundNames cue)
    (htext : (argumentOf d.boundary.parameters arguments name).hasText = false) (s : Stage) :
    (∃ t, r.callWithin depth d.boundary.key registration arguments s = .error .endless t) ∨
      ∃ t, r.callWithin depth d.boundary.key registration arguments s = .error .wrongValue t := by
  cases depth with
  | zero => exact .inl ⟨s, rfl⟩
  | succ depth =>
    obtain ⟨c, hc, lead, hsame, _, hserved⟩ := h.served d hd
    cases hget.symm.trans hserved
    rw [← (Component.sameContent_iff.mp hsame).1.2] at hbound htext
    have hruns := Body.run_compile (r.invokeWith (r.callWithin depth))
      (bindArguments c.boundary.parameters arguments) lead cue c.body s
    have hparameter : ∀ name ∈ c.body.names cue, name ∈ c.boundary.parameters := fun name hmem =>
      hbound name ((h.mem_names hc hd hsame).mp hmem)
    cases hbuilt : c.body.construct (r.invokeWith (r.callWithin depth))
        (bindArguments c.boundary.parameters arguments) cue s with
    | ok i t =>
      obtain ⟨text, hresolve⟩ := Body.resolves_of_construct (fun _ _ _ _ _ hok => by
        obtain ⟨_, _, _, harguments, _⟩ := invokeWith_eq_ok hok
        cases harguments) hbuilt name ((h.mem_names hc hd hsame).mpr hname)
      rw [resolve_bindArguments (hbound name hname), Value.plainText_of_not_hasText htext]
        at hresolve
      cases hresolve
    | error fault t =>
      suffices hfault : fault = .endless ∨ fault = .wrongValue by
        refine hfault.imp ?_ ?_ <;> rintro rfl <;> exact hruns.symm.error_left hbuilt
      rcases Body.construct_error hbuilt with ⟨value, hvalue, hfails⟩ | ⟨call, hcall, u, hfails⟩
      · obtain ⟨name, href, hfails⟩ := liveText_error hfails
        exact .inr ((resolve_bindArguments_eq_error hfails).resolve_right fun hunbound =>
          hunbound.1 (hparameter name (Body.mem_names.mpr (.inl ⟨value, hvalue, href⟩))))
      · refine h.invoke_error hc hcall (fun name hpassed => ?_) hfails
        exact hparameter name (Body.mem_names.mpr (.inr ⟨_, hcall, hpassed⟩))

end Registry

/-! ## The factories of a preview -/

/-- A preview is made if all its components can be compiled. -/
theorem Settings.exists_preview {settings : Settings} {components : List Component}
    (h : ∀ c ∈ components, ∃ steps, settings.compile c.body = .ok steps) (session : Session) :
    ∃ session', settings.preview components session = .ok session' := by
  induction components generalizing session with
  | nil => exact ⟨session, rfl⟩
  | cons c cs ih =>
    obtain ⟨steps, hsteps⟩ := h c List.mem_cons_self
    obtain ⟨session', hrest⟩ := ih (fun d hd => h d (List.mem_cons_of_mem _ hd))
      (session.register c.boundary.key ⟨.steps c.boundary.parameters steps, false⟩)
    refine ⟨session', ?_⟩
    rw [preview, List.foldlM_cons, hsteps]
    exact hrest

/-- Otherwise there is none, where only click handlers are in the way. -/
theorem Settings.preview_unwritable {settings : Settings} {cue : Cue}
    {components : List Component} (hcue : settings.sigilOf.cue? = some cue)
    (hlead : settings.variableLead.hasText = true)
    (h : ∃ c ∈ components, c.body.isWritable = false) (session : Session) :
    settings.preview components session = .error .wrongValue := by
  induction components generalizing session with
  | nil => simp at h
  | cons c cs ih =>
    rw [preview, List.foldlM_cons, compile_of_cue hcue hlead]
    cases hc : c.body.isWritable with
    | false => rfl
    | true =>
      obtain ⟨d, hd, hfalse⟩ := h
      refine ih ⟨d, (List.mem_cons.mp hd).resolve_left fun heq => ?_, hfalse⟩ _
      rw [heq, hc] at hfalse
      cases hfalse

/-- Every root that is read out of an orderly forest is tidy. -/
theorem Forest.Orderly.component_tidy {f : Forest} {cue : Cue} (h : f.Orderly cue) {i : Nat}
    {c : Component} (hc : f.component i = .ok c) : c.Tidy cue := by
  unfold Forest.component at hc
  obtain ⟨⟨b, r⟩, hboundary, hc⟩ := except_bind_eq_ok.mp hc
  obtain ⟨n, hread, hc⟩ := except_bind_eq_ok.mp hc
  cases hc
  obtain ⟨hnodup, hparameters⟩ := h.tree (stands_of_readChecked hread)
  exact ⟨hnodup, hparameters⟩

/-- The registry of a preview covers all components of a collection in which no key
was remarked to have different contents. -/
theorem Settings.preview_covers {settings : Settings} {cue : Cue} {roots : List Component}
    {session session' : Session} (hcue : settings.sigilOf.cue? = some cue)
    (hlead : settings.variableLead.hasText = true) (hempty : session.registry = [])
    (htidy : ∀ c ∈ roots, c.Tidy cue) (hquiet : ∀ key, .contentDiffers key ∉ (gather roots).2)
    (h : settings.preview (gather roots).1 session = .ok session') :
    session'.registry.Covers cue (fun token => ∃ d ∈ (gather roots).1, token ∈ d.root.tokens)
      (roots.flatMap Component.all) where
  closed c hc d hd := by
    obtain ⟨root, hroot, hc⟩ := List.mem_flatMap.mp hc
    exact List.mem_flatMap.mpr ⟨root, hroot, Component.all_trans hc hd⟩
  tidy c hc := by
    obtain ⟨root, hroot, hc⟩ := List.mem_flatMap.mp hc
    exact (htidy root hroot).of_mem_all hc
  served d hd := by
    obtain ⟨hserves, hkeys⟩ := preview_registry h
    obtain ⟨first, hfirst, hkey⟩ := exists_gathered hd
    have hregistered := hkeys d.boundary.key (.inl (List.mem_map.mpr ⟨first, hfirst, hkey⟩))
    obtain ⟨registration, hget⟩ := Entries.exists_get?_of_mem_keys hregistered
    rcases hserves _ _ hget with ⟨c, hc, hckey, steps, hsteps, rfl⟩ | hold
    · rw [compile_of_cue hcue hlead] at hsteps
      split at hsteps <;> cases hsteps
      refine ⟨c, mem_of_mem_gather hc, settings.variableLead.plain,
        sameContent_of_gather (mem_of_mem_gather hc) hd hckey (hquiet _), fun token ht => ?_, hget⟩
      exact ⟨c, hc, Node.tokens_body_subset _ ht⟩
    · rw [hempty] at hold
      cases hold

namespace Program

variable {p : Program} {entries : List Value} {w w' : Workshop} {components : List Component}
  {cue : Cue} {settings : Settings} {session session' : Session}

/-- The preview of a quiet collection covers it, and calls of its factories have an end. -/
theorem collect_covers (hp : p.IsNodeFree) (hforest : w.forest = .empty) (hnames : w.names = [])
    (hcue : w.own.sigil.cue? = some cue) (hsigil : settings.sigilOf = w.own.sigil)
    (hlead : settings.variableLead.hasText = true) (hsession : session.registry = [])
    (h : p.collect entries w = .ok components w')
    (hquiet : ∀ key, .contentDiffers key ∉ w'.notices)
    (hpreview : settings.preview components session = .ok session') :
    ∃ known, session'.registry.Covers cue (fun token => ∃ d ∈ components, token ∈ d.root.tokens)
        known ∧ ∀ c ∈ components, c ∈ known ∧
      ∃ registration, Entries.get? session'.registry c.boundary.key = some registration ∧
        ∀ arguments s t,
          session'.registry.call c.boundary.key registration arguments s ≠ .error .endless t := by
  obtain ⟨ids, u, roots, hrender, hroots, rfl, rfl⟩ := collect_eq_ok h
  have hquiet' : ∀ key, .contentDiffers key ∉ (gather roots).2 :=
    fun key hkey => hquiet key (List.mem_append_right _ hkey)
  have hstart : w.serving.Orderly cue :=
    ⟨rfl, hcue, hforest ▸ Forest.orderly_empty cue, by simp [Workshop.serving, hnames]⟩
  have horderly : u.forest.Orderly cue := (renderEntries_advances hp hstart hrender).orderly.forest
  have htidy : ∀ c ∈ roots, c.Tidy cue := by
    intro c hc
    obtain ⟨i, _, hread⟩ := exists_of_mem_mapM hroots hc
    exact horderly.component_tidy hread
  rw [← hsigil] at hcue
  refine ⟨_, Settings.preview_covers hcue hlead hsession htidy hquiet' hpreview, fun c hc => ?_⟩
  obtain ⟨registration, hget, hends, _⟩ := Settings.call_ends hsession hpreview hc
    fun key _ hcycle => not_transGen_uses roots key
      (Relation.TransGen.mono (fun a b huse => ⟨huse, hquiet' a⟩) _ _ hcycle)
  exact ⟨mem_of_mem_gather hc, registration, hget, hends⟩

/-- **The factories of a build rebuild it.** Components are collected in a new workshop
from code that makes its nodes itself, with a sigil that is a text, and no key is remarked to
have different contents. Then there is a preview with the sigil of the build, unless a click
handler has no call expression. The factory that the preview has for a component whose parameters
include the names of its tree makes a new live tree whenever the arguments for these names have
texts. That tree mirrors the component, nested components expanded, with the text of the argument
in the place of each reference. Only tokens may differ, and they are tokens of the collected
components. If one of these arguments has no text, the factory fails. -/
theorem collect_rebuilds (p : Program) (entries : List Value) (w w' : Workshop)
    (components : List Component) (cue : Cue) (settings : Settings) (session : Session)
    (hp : p.IsNodeFree) (hforest : w.forest = .empty) (hnames : w.names = [])
    (hcue : w.own.sigil.cue? = some cue) (hsigil : settings.sigilOf = w.own.sigil)
    (hlead : settings.variableLead.hasText = true) (hsession : session.registry = [])
    (h : p.collect entries w = .ok components w')
    (hquiet : ∀ key, .contentDiffers key ∉ w'.notices) :
    ((∃ c ∈ components, c.body.isWritable = false) →
      settings.preview components session = .error .wrongValue) ∧
    ((∀ c ∈ components, c.body.isWritable = true) →
      ∃ session', settings.preview components session = .ok session' ∧ ∀ c ∈ components,
        (∀ name ∈ c.root.boundNames cue, name ∈ c.boundary.parameters) →
        ∃ registration, Entries.get? session'.registry c.boundary.key = some registration ∧
          ∀ arguments s,
            ((∀ name ∈ c.root.boundNames cue,
                (argumentOf c.boundary.parameters arguments name).hasText = true) →
              ∃ i t tree,
                session'.registry.call c.boundary.key registration arguments s = .ok i t ∧
                s.Gains tree i t ∧ t.document.read i = .ok tree ∧
                c.root.Mirrors cue (argumentText c.boundary.parameters arguments)
                  (fun token => ∃ d ∈ components, token ∈ d.root.tokens) tree) ∧
            ((∃ name ∈ c.root.boundNames cue,
                (argumentOf c.boundary.parameters arguments name).hasText = false) →
              ∃ t, session'.registry.call c.boundary.key registration arguments s =
                .error .wrongValue t)) := by
  have hsettings : settings.sigilOf.cue? = some cue := hsigil ▸ hcue
  refine ⟨fun hclick => Settings.preview_unwritable hsettings hlead hclick session,
    fun hclicks => ?_⟩
  obtain ⟨session', hpreview⟩ := Settings.exists_preview (fun c hc =>
    ⟨_, (Settings.compile_of_cue hsettings hlead c.body).trans (if_pos (hclicks c hc))⟩) session
  obtain ⟨known, hcovers, hserved⟩ :=
    collect_covers hp hforest hnames hcue hsigil hlead hsession h hquiet hpreview
  refine ⟨session', hpreview, fun c hc hbound => ?_⟩
  obtain ⟨hmem, registration, hget, hends⟩ := hserved c hc
  refine ⟨registration, hget, fun arguments s => ⟨fun htexts => ?_, ?_⟩⟩
  · rcases Registry.callWithin_rebuilds hcovers _ hmem hget (give_bindArguments hbound htexts) s
      with ⟨t, hendless⟩ | ⟨i, t, tree, hok, hgains, hmirrors⟩
    · exact absurd hendless (hends arguments s t)
    · exact ⟨i, t, tree, hok, hgains, hgains.holds.read, hmirrors⟩
  · rintro ⟨name, hname, htext⟩
    refine (Registry.callWithin_unwritable hcovers _ hmem hget hbound hname htext s).resolve_left ?_
    rintro ⟨t, hendless⟩
    exact hends arguments s t hendless

end Program

/-- A page that uses a card twice: its factory rebuilds both uses from the factory of the
first one, and passes its own argument on to them, if that has a text. -/
theorem collect_rebuilds_page :
    let program : Program :=
      [("Page", ⟨"Page", ["who"], .build (.value (.text "div")) (.value .none)
          [.build (.component "Card") (.table [("label", .value (.text "$who"))]) [],
            .build (.component "Card") (.table [("label", .value (.text "$who"))]) []], [], false⟩),
        ("Card", ⟨"Card", ["props"], .build (.value (.text "p")) (.value .none)
          [.prop "label" (.value (.text "none"))], [], false⟩)]
    let page : Callable := .component "Page" "Page" false
    ∃ components w, program.collect [.callable page] {} = .ok components w ∧
      ∃ session, ({} : Settings).preview components {} = .ok session ∧
        ∃ c ∈ components, c.boundary.key = "Page" ∧ c.root.boundNames (.ofText "$") = ["who"] ∧
          c.root.nested.length = 2 ∧
          ∃ registration, Entries.get? session.registry "Page" = some registration ∧
            ∀ arguments s,
              ((argumentOf ["who"] arguments "who").hasText = true → ∃ i t tree,
                session.registry.call "Page" registration arguments s = .ok i t ∧
                t.document.read i = .ok tree ∧
                c.root.Mirrors (.ofText "$") (argumentText ["who"] arguments)
                  (fun token => ∃ d ∈ components, token ∈ d.root.tokens) tree) ∧
              ((argumentOf ["who"] arguments "who").hasText = false → ∃ t,
                session.registry.call "Page" registration arguments s = .error .wrongValue t) := by
  intro program page
  obtain ⟨components, w, hcollect, hcheck⟩ :=
    Build.exists_ok_of_check (x := program.collect [.callable page]) (w := {})
      (fun components w => w.notices.isEmpty && components.all (fun c => c.body.isWritable) &&
        components.any fun c => c.boundary.key = "Page" && c.boundary.parameters = ["who"] &&
          c.root.boundNames (.ofText "$") = ["who"] && c.root.nested.length = 2)
      (by decide +kernel)
  simp only [Bool.and_eq_true, List.isEmpty_iff, List.all_eq_true, List.any_eq_true,
    decide_eq_true_eq] at hcheck
  obtain ⟨⟨hquiet, hclicks⟩, c, hc, ⟨⟨hkey, hparameters⟩, hnames⟩, hnested⟩ := hcheck
  have hfree : program.IsNodeFree := by
    unfold Program.IsNodeFree
    decide
  obtain ⟨session, hpreview, hrebuilds⟩ := (Program.collect_rebuilds program [.callable page] {} w
    components (.ofText "$") {} {} hfree rfl rfl rfl rfl rfl rfl hcollect (by simp [hquiet])).2
    hclicks
  obtain ⟨registration, hget, hcall⟩ := hrebuilds c hc (by simp [hnames, hparameters])
  rw [hkey] at hget hcall
  rw [hparameters, hnames] at hcall
  refine ⟨components, w, hcollect, session, hpreview, c, hc, hkey, hnames, hnested, registration,
    hget, fun arguments s => ⟨fun htext => ?_, fun htext => ?_⟩⟩
  · obtain ⟨i, t, tree, hok, _, hread, hmirrors⟩ := (hcall arguments s).1 (by simpa using htext)
    exact ⟨i, t, tree, hok, hread, hmirrors⟩
  · exact (hcall arguments s).2 ⟨"who", by simp, htext⟩

/-- A page whose text is its argument: its factory fails if the argument is an integer that is too
long to be written. And with a sigil that is no text, two pages are collected without any remark
and one of them refers to nothing, but there is no preview. -/
theorem rebuild_without_text :
    let greeting : Program :=
      [("Page", ⟨"Page", ["who"], .build (.value (.text "p")) (.value .none) [.param "who"], [],
        false⟩)]
    let pages : Program :=
      [("Blank", ⟨"Blank", [], .build (.value (.text "p")) (.value .none) [], [], false⟩),
        ("Note", ⟨"Note", [], .build (.value (.text "p")) (.value .none) [.value (.text "x")], [],
          false⟩)]
    let listed : Settings := { sigil := .list [.text "$"] }
    (∃ components w session registration,
      greeting.collect [.callable (.component "Page" "Page" false)] {} = .ok components w ∧
      w.notices = [] ∧ ({} : Settings).preview components {} = .ok session ∧
      (∃ c ∈ components, c.boundary.key = "Page" ∧
        c.root.boundNames (.ofText "$") = c.boundary.parameters) ∧
      Entries.get? session.registry "Page" = some registration ∧
      ∀ s, ∃ t, session.registry.call "Page" registration [.int Value.longInteger] s =
        .error .wrongValue t) ∧
    ∃ components w, pages.collect [.callable (.component "Blank" "Blank" false),
        .callable (.component "Note" "Note" false)] { own := { sigil := listed.sigilOf } } =
          .ok components w ∧
      w.notices = [] ∧ listed.preview components {} = .error .wrongKind ∧
      ∃ c ∈ components, c.boundary.key = "Blank" ∧ ∀ cue, c.root.boundNames cue = [] := by
  intro greeting pages listed
  constructor
  · obtain ⟨components, w, hcollect, hcheck⟩ := Build.exists_ok_of_check
      (x := greeting.collect [.callable (.component "Page" "Page" false)]) (w := {})
      (fun components w => w.notices.isEmpty && components.all (fun c => c.body.isWritable) &&
        components.any fun c => c.boundary.key = "Page" && c.boundary.parameters = ["who"] &&
          c.root.boundNames (.ofText "$") = ["who"]) (by decide +kernel)
    simp only [Bool.and_eq_true, List.isEmpty_iff, List.all_eq_true, List.any_eq_true,
      decide_eq_true_eq] at hcheck
    obtain ⟨⟨hquiet, hclicks⟩, c, hc, ⟨hkey, hparameters⟩, hnames⟩ := hcheck
    have hfree : greeting.IsNodeFree := by
      unfold Program.IsNodeFree
      decide
    have hcue : ({} : Workshop).own.sigil.cue? = some (.ofText "$") := rfl
    have hcompiles : ∀ c ∈ components, ∃ steps, ({} : Settings).compile c.body = .ok steps :=
      fun c hc => ⟨_, (Settings.compile_of_cue rfl rfl c.body).trans (if_pos (hclicks c hc))⟩
    obtain ⟨session, hpreview⟩ := Settings.exists_preview hcompiles {}
    obtain ⟨known, hcovers, hserved⟩ := Program.collect_covers hfree rfl rfl hcue rfl rfl rfl
      hcollect (by simp [hquiet]) hpreview
    obtain ⟨hmem, registration, hget, hends⟩ := hserved c hc
    have hfails (v : Value) (hv : v.hasText = false) (s : Stage) :
        ∃ t, session.registry.call "Page" registration [v] s = .error .wrongValue t := by
      have hused : "who" ∈ c.root.boundNames (.ofText "$") := by simp [hnames]
      have htext : (argumentOf c.boundary.parameters [v] "who").hasText = false := by
        rw [hparameters]
        exact hv
      rw [← hkey]
      refine (Registry.callWithin_unwritable hcovers _ hmem hget (by simp [hnames, hparameters])
        hused htext s).resolve_left ?_
      rintro ⟨t, hendless⟩
      exact hends _ s t hendless
    exact ⟨components, w, session, registration, hcollect, hquiet, hpreview,
      ⟨c, hc, hkey, hnames.trans hparameters.symm⟩, hkey ▸ hget, hfails _ (by decide +kernel)⟩
  · obtain ⟨components, w, hcollect, hcheck⟩ := Build.exists_ok_of_check
      (x := pages.collect [.callable (.component "Blank" "Blank" false),
        .callable (.component "Note" "Note" false)]) (w := { own := { sigil := listed.sigilOf } })
      (fun components w => w.notices.isEmpty &&
        (listed.preview components {}).map (fun _ => ()) = .error .wrongKind &&
        components.any fun c => c.boundary.key = "Blank" &&
          (c.root.preorder.flatMap Node.values).isEmpty) (by decide +kernel)
    simp only [Bool.and_eq_true, List.isEmpty_iff, List.any_eq_true, decide_eq_true_eq] at hcheck
    obtain ⟨⟨hquiet, hfails⟩, c, hc, hkey, hvalues⟩ := hcheck
    refine ⟨components, w, hcollect, hquiet, ?_, c, hc, hkey, fun cue => ?_⟩
    · cases hpreview : listed.preview components {} with
      | ok session =>
        rw [hpreview] at hfails
        cases hfails
      | error fault =>
        rw [hpreview] at hfails
        cases hfails
        rfl
    · rw [Node.boundNames, ← List.filterMap_flatMap, hvalues]
      rfl

end Pageloom
