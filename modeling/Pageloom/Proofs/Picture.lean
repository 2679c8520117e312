import Pageloom.Proofs.Compiling
import Pageloom.Proofs.Construction

/-!
# What a construction leaves

A construction that succeeds adds one tree to the document, has touched no node
that was there before, and gives the root of the tree. The tree follows the body:
each element is one node with the face of the element, its children are in order,
and a nested component is whatever its factory made.

## Main definitions

* `Pageloom.Stage.Gains` -- a page with one more tree
* `Pageloom.Body.Pictured` -- the trees that picture a body
* `Pageloom.Body.construct_pictured` -- a construction gives such a tree
-/

namespace Pageloom

/-- `t` is the page `s` with one more tree, which has no place yet: its root is
cell `i`, all its cells are new, and every old cell is as it was. -/
structure Stage.Gains (s : Stage) (tree : LiveTree) (i : Nat) (t : Stage) : Prop where
  grows : s.document.Grows t.document
  detached : t.document.parent? i = none
  holds : t.document.Holds s.document.cells.size tree i

namespace Body

mutual

/-- A tree pictures a body, where `made` says which trees a call makes. -/
def Pictured (cue : Cue) (bindings : Bindings) (made : String → List String → LiveTree → Prop) :
    Body → LiveTree → Prop
  | .element e cs, .mk face trees =>
    e.face cue bindings cs.isEmpty = .ok face ∧ PicturedAll cue bindings made cs trees
  | .call key names, tree => made key names tree

/-- Trees picture bodies, one by one. -/
def PicturedAll (cue : Cue) (bindings : Bindings) (made : String → List String → LiveTree → Prop) :
    List Body → List LiveTree → Prop
  | [], trees => trees = []
  | c :: cs, trees => ∃ tree rest, trees = tree :: rest ∧
    Pictured cue bindings made c tree ∧ PicturedAll cue bindings made cs rest

end

variable {invoke : String → Except Fault (List Value) → Live Nat} {bindings : Bindings}
  {cue : Cue} {made : String → List String → LiveTree → Prop}

mutual

theorem construct_pictured : ∀ {b : Body} {s t : Stage} {i : Nat},
    (∀ call ∈ b.calls, ∀ u j v, invoke call.1 (callArguments bindings call.2) u = .ok j v →
      ∃ tree, u.Gains tree j v ∧ made call.1 call.2 tree) →
    b.construct invoke bindings cue s = .ok i t →
    ∃ tree, s.Gains tree i t ∧ b.Pictured cue bindings made tree
  | .element e cs, s, t, i, hcalls, h => by
    simp only [construct] at h
    obtain ⟨face, u, hlift, h⟩ := bind_eq_ok.mp h
    obtain ⟨hface, rfl⟩ := Live.lift_eq_ok.mp hlift
    obtain ⟨j, u', hmake, h⟩ := bind_eq_ok.mp h
    obtain ⟨rfl, rfl⟩ : s.document.cells.size = j ∧ s.withNode face = u' := by
      cases hmake
      exact ⟨rfl, rfl⟩
    obtain ⟨_, v, hall, h⟩ := bind_eq_ok.mp h
    cases h
    have hcell : (s.withNode face).document.cells[s.document.cells.size]? = some { face } := by
      rw [Stage.withNode, Document.add_cells, if_pos rfl]
    obtain ⟨hsame, js, trees, hparent, hholds, hpictured⟩ :=
      constructAll_pictured hcalls hcell (Nat.lt_add_one s.document.cells.size)
        (by simp [Stage.withNode]) hall
    refine ⟨.mk face trees, ⟨?_, ?_, ?_⟩, hface, hpictured⟩
    · intro k c hc
      have hk : k < s.document.cells.size := (Array.getElem?_eq_some_iff.mp hc).1
      exact hsame k c (by omega) (Document.grows_add _ face k c hc)
    · simp [Document.parent?, hparent]
    · exact ⟨Nat.le_refl _, _, hparent, rfl, hholds.mono (Nat.le_succ _)⟩
  | .call key names, s, t, i, hcalls, h =>
    hcalls (key, names) (List.mem_singleton_self _) s i t h

/-- Children are added to one cell, `parent`, and are themselves new from `base` on. -/
theorem constructAll_pictured : ∀ {cs : List Body} {parent base : Nat} {s t : Stage} {c : LiveCell},
    (∀ call ∈ callsAll cs, ∀ u j v, invoke call.1 (callArguments bindings call.2) u = .ok j v →
      ∃ tree, u.Gains tree j v ∧ made call.1 call.2 tree) →
    s.document.cells[parent]? = some c → parent < base → base ≤ s.document.cells.size →
    constructAll invoke bindings cue parent cs s = .ok () t →
    (∀ k d, k ≠ parent → s.document.cells[k]? = some d → t.document.cells[k]? = some d) ∧
    ∃ js trees, t.document.cells[parent]? = some { c with children := c.children ++ js } ∧
      t.document.HoldsAll base trees js ∧ PicturedAll cue bindings made cs trees
  | [], parent, base, s, t, c, _, hc, _, _, h => by
    cases h
    refine ⟨fun _ _ _ hd => hd, [], [], ?_, by simp [Document.HoldsAll], by simp [PicturedAll]⟩
    rw [List.append_nil]
    exact hc
  | b :: cs, parent, base, s, t, c, hcalls, hc, hlt, hle, h => by
    simp only [constructAll] at h
    obtain ⟨j, u, hchild, h⟩ := bind_eq_ok.mp h
    obtain ⟨_, v, happend, h⟩ := bind_eq_ok.mp h
    obtain ⟨tree, hgains, hpictured⟩ :=
      construct_pictured (fun call hmem => hcalls call (List.mem_append_left _ hmem)) hchild
    have hfresh := hgains.holds.base_le
    have hne : parent ≠ j := by omega
    obtain rfl := Live.modifyDocument_eq_ok.mp happend
    have happended := Document.append_cells hgains.detached hne
    have hparent : (u.document.append parent j).cells[parent]? =
        some { c with children := c.children ++ [j] } := by
      rw [happended, hgains.grows parent c hc]
      simp
    have hsize : base ≤ (u.document.append parent j).cells.size := by
      have hj := (hgains.holds.keep (Document.keepsFrom_append hgains.detached hne
        (Nat.lt_of_lt_of_le hlt hle))).lt_size
      omega
    obtain ⟨hsame, js, trees, hcell, hholds, hrest⟩ :=
      constructAll_pictured (s := { u with document := u.document.append parent j })
        (fun call hmem => hcalls call (List.mem_append_right _ hmem)) hparent hlt hsize h
    refine ⟨?_, j :: js, tree :: trees, ?_, ⟨j, js, rfl, ?_, hholds⟩,
      tree, trees, rfl, hpictured, hrest⟩
    · intro k d hk hd
      have hkj : k ≠ j := by
        have := (Array.getElem?_eq_some_iff.mp hd).1
        omega
      refine hsame k d hk ?_
      rw [happended, hgains.grows k d hd]
      simp [hk, hkj]
    · simpa using hcell
    · have hkept : u.document.KeepsFrom base t.document := by
        refine (Document.keepsFrom_append hgains.detached hne hlt).trans ?_
        intro k d hk hd
        exact ⟨d, hsame k d (by omega) hd, rfl, rfl⟩
      exact (hgains.holds.mono hle).keep hkept

end

end Body

/-! ## Instructions and factories -/

/-- Whatever a call gives is the root of a new tree without a place, and the call
leaves the rest of the page alone. -/
def MakesFresh (call : String → Registration → List Value → Live Nat) : Prop :=
  ∀ key registration arguments s i t, call key registration arguments s = .ok i t →
    ∃ tree, s.Gains tree i t

theorem makeFixed_gains {tag : String} {text : Value} {attributes : Entries Value} {s t : Stage}
    {i : Nat} (h : Live.makeFixed tag text attributes s = .ok i t) :
    s.Gains (.mk { tag, text, attributes } []) i t := by
  obtain ⟨rfl, rfl⟩ : s.document.cells.size = i ∧ s.withNode { tag, text, attributes } = t := by
    cases h
    exact ⟨rfl, rfl⟩
  have hcell : (s.withNode { tag, text, attributes }).document.cells[s.document.cells.size]? =
      some { face := { tag, text, attributes } } := by
    rw [Stage.withNode, Document.add_cells, if_pos rfl]
  refine ⟨Document.grows_add _ _, ?_, Nat.le_refl _, _, hcell, rfl, ?_⟩
  · simp [Document.parent?, hcell]
  · simp [Document.HoldsAll]

namespace Registry

variable {r : Registry} {call : String → Registration → List Value → Live Nat} {key : String}
  {arguments : Except Fault (List Value)} {s t : Stage}

theorem invokeWith_of_get? {registration : Registration} {values : List Value}
    (hget : Entries.get? r key = some registration) :
    r.invokeWith call key (.ok values) = call key registration values := by
  unfold invokeWith
  rw [hget]
  rfl

theorem invokeWith_eq_ok {i : Nat} (h : r.invokeWith call key arguments s = .ok i t) :
    ∃ registration values, Entries.get? r key = some registration ∧ arguments = .ok values ∧
      call key registration values s = .ok i t := by
  unfold invokeWith at h
  cases hget : Entries.get? r key with
  | none =>
    rw [hget] at h
    cases h
  | some registration =>
    rw [hget] at h
    obtain ⟨values, u, hlift, h⟩ := bind_eq_ok.mp h
    obtain ⟨harguments, rfl⟩ := Live.lift_eq_ok.mp hlift
    exact ⟨registration, values, rfl, harguments, h⟩

/-- A call from a step fails because there is no factory, because an argument has
no value, or because the factory fails. -/
theorem invokeWith_eq_error {fault : Fault}
    (h : r.invokeWith call key arguments s = .error fault t) :
    (Entries.get? r key = none ∧ fault = .noFactory key) ∨ arguments = .error fault ∨
      ∃ registration values, Entries.get? r key = some registration ∧ arguments = .ok values ∧
        call key registration values s = .error fault t := by
  unfold invokeWith at h
  cases hget : Entries.get? r key with
  | none =>
    rw [hget] at h
    cases h
    exact .inl ⟨rfl, rfl⟩
  | some registration =>
    rw [hget] at h
    rcases bind_eq_error.mp h with h | ⟨values, u, hlift, h⟩
    · exact .inr (.inl (Live.lift_eq_error.mp h).1)
    · obtain ⟨harguments, rfl⟩ := Live.lift_eq_ok.mp hlift
      exact .inr (.inr ⟨registration, values, rfl, harguments, h⟩)

end Registry

theorem ofEntries_eq_ok {es : Entries Value} {name : String} {v : Value}
    (h : Bindings.ofEntries es name = .ok v) : es.get? name = some v := by
  unfold Bindings.ofEntries at h
  split at h <;> cases h
  assumption

theorem ofEntries_eq_error {es : Entries Value} {name : String} {fault : Fault}
    (h : Bindings.ofEntries es name = .error fault) :
    es.get? name = none ∧ fault = .unbound name := by
  unfold Bindings.ofEntries at h
  split at h <;> cases h
  exact ⟨‹_›, rfl⟩

/-- A name has no text if no entry has it, or one whose value has no text. -/
theorem resolve_ofEntries_error {es : Entries Value} {name : String} {fault : Fault}
    (h : Live.resolve (.ofEntries es) name = .error fault) :
    (es.get? name = none ∧ fault = .unbound name) ∨
      ∃ v, es.get? name = some v ∧ v.hasText = false ∧ fault = .wrongValue := by
  rcases Live.resolve_eq_error h with hunbound | ⟨v, hv, htext, hfault⟩
  · exact .inl (ofEntries_eq_error hunbound)
  · exact .inr ⟨v, ofEntries_eq_ok hv, htext, hfault⟩

theorem liveText_error {cue : Cue} {bindings : Bindings} {value : String} {fault : Fault}
    (h : liveText cue bindings value = .error fault) :
    ∃ name, referenceName? cue value = some name ∧ Live.resolve bindings name = .error fault := by
  unfold liveText at h
  cases hname : referenceName? cue value with
  | none =>
    rw [hname] at h
    cases h
  | some name =>
    rw [hname] at h
    exact ⟨name, rfl, h⟩

theorem callArguments_error {bindings : Bindings} {names : List String} {fault : Fault}
    (h : callArguments bindings names = .error fault) :
    ∃ name ∈ names, Live.resolve bindings name = .error fault := by
  obtain ⟨name, hmem, hname⟩ := mapM_eq_error h
  refine ⟨name, hmem, ?_⟩
  cases hvalue : Live.resolve bindings name with
  | error e =>
    rw [hvalue] at hname
    cases hname
    rfl
  | ok text =>
    rw [hvalue] at hname
    cases hname

/-- **The instructions of a body do what its direct construction does.** A body whose click
handlers have call expressions is compiled, and its instructions give the same node on the same
page, or fail first for the same reason. A node that is given is the root of a new tree that
pictures the body, in which every nested component is what one call with its key and the texts of
its names made. The only reasons to fail are a name of the body without a value, one whose value
has no text, a nested key without a factory, and a factory that fails itself. -/
theorem Body.instantiate_constructs (settings : Settings) (cue : Cue) (b : Body)
    (hcue : settings.sigilOf.cue? = some cue) (hlead : settings.variableLead.hasText = true)
    (hclicks : b.isWritable = true) (r : Registry)
    (call : String → Registration → List Value → Live Nat) (hfresh : MakesFresh call)
    (es : Entries Value) (s : Stage) :
    ∃ steps, settings.compile b = .ok steps ∧
      let outcome := Live.run (r.invokeWith call) (.ofEntries es) [] steps s
      SameOutcome outcome (b.construct (r.invokeWith call) (.ofEntries es) cue s) ∧
      (∀ i t, outcome = .ok i t → ∃ tree, s.Gains tree i t ∧
        b.Pictured cue (.ofEntries es) (fun key names tree =>
          ∃ registration arguments u j v, Entries.get? r key = some registration ∧
            callArguments (.ofEntries es) names = .ok arguments ∧
            call key registration arguments u = .ok j v ∧ u.Gains tree j v) tree) ∧
      (∀ fault t, outcome = .error fault t →
        (∃ name ∈ b.names cue, es.get? name = none ∧ fault = .unbound name) ∨
        (∃ name ∈ b.names cue, ∃ v, es.get? name = some v ∧ v.hasText = false ∧
          fault = .wrongValue) ∨
        ∃ key names, (key, names) ∈ b.calls ∧
          (Entries.get? r key = none ∧ fault = .noFactory key ∨
            ∃ registration arguments u v, Entries.get? r key = some registration ∧
              callArguments (.ofEntries es) names = .ok arguments ∧
              call key registration arguments u = .error fault v)) := by
  refine ⟨_, (Settings.compile_of_cue hcue hlead b).trans (if_pos hclicks), ?_⟩
  intro outcome
  have hsame : SameOutcome outcome (b.construct (r.invokeWith call) (.ofEntries es) cue s) :=
    b.run_compile (r.invokeWith call) (.ofEntries es) _ cue s
  refine ⟨hsame, ?_, ?_⟩
  · intro i t hrun
    refine construct_pictured ?_ (hsame.ok_left hrun)
    intro call' _ u j v hinvoke
    obtain ⟨registration, arguments, hget, harguments, hcall⟩ := Registry.invokeWith_eq_ok hinvoke
    obtain ⟨tree, hgains⟩ := hfresh _ _ _ _ _ _ hcall
    exact ⟨tree, hgains, registration, arguments, u, j, v, hget, harguments, hcall, hgains⟩
  · intro fault t hrun
    -- A name of the body that has no text is unbound, or its value has none.
    have hunresolved : ∀ name ∈ b.names cue, Live.resolve (.ofEntries es) name = .error fault →
        (∃ name ∈ b.names cue, es.get? name = none ∧ fault = .unbound name) ∨
          ∃ name ∈ b.names cue, ∃ v, es.get? name = some v ∧ v.hasText = false ∧
            fault = .wrongValue := fun name hmem hname =>
      (resolve_ofEntries_error hname).imp (fun h => ⟨name, hmem, h⟩) fun h => ⟨name, hmem, h⟩
    rw [← or_assoc]
    obtain ⟨u, hbuilt⟩ := hsame.error_left hrun
    rcases construct_error hbuilt with ⟨value, hvalue, hfault⟩ | ⟨⟨key, names⟩, hmem, v, hinvoke⟩
    · obtain ⟨name, href, hname⟩ := liveText_error hfault
      exact .inl (hunresolved name (mem_names.mpr (.inl ⟨value, hvalue, href⟩)) hname)
    · rcases Registry.invokeWith_eq_error hinvoke with hnone | harguments | hcall
      · exact .inr ⟨key, names, hmem, .inl hnone⟩
      · obtain ⟨name, hpassed, hname⟩ := callArguments_error harguments
        exact .inl (hunresolved name (mem_names.mpr (.inr ⟨_, hmem, hpassed⟩)) hname)
      · obtain ⟨registration, arguments, hget, harguments, hcall⟩ := hcall
        exact .inr ⟨key, names, hmem, .inr ⟨registration, arguments, v, u, hget, harguments, hcall⟩⟩

/-- A heading with a filled-in id above a card: the factory makes fresh nodes, and
the instructions agree with the construction. -/
theorem instantiate_constructs_card :
    let call : String → Registration → List Value → Live Nat :=
      fun _ _ arguments => Live.makeFixed "b" (arguments.head?.getD .none) []
    let invoke := Registry.invokeWith [("Card", ⟨.fixed "b" .none [], false⟩)] call
    let heading : Body := .element { tag := "h1", token := "t1", attributes := [("id", "$x")] }
      [.call "Card" ["x"]]
    MakesFresh call ∧ ∃ steps, ({} : Settings).compile heading = .ok steps ∧
      SameOutcome (Live.run invoke (.ofEntries [("x", .text "7")]) [] steps {})
        (heading.construct invoke (.ofEntries [("x", .text "7")]) (.ofText "$") {}) := by
  intro call invoke heading
  have hfresh : MakesFresh call := fun _ _ _ _ _ _ h => ⟨_, makeFixed_gains h⟩
  obtain ⟨steps, hsteps, hsame, _⟩ := Body.instantiate_constructs {} (.ofText "$") heading rfl rfl
    rfl [("Card", ⟨.fixed "b" .none [], false⟩)] call hfresh [("x", .text "7")] {}
  exact ⟨hfresh, steps, hsteps, hsame⟩

/-- A paragraph whose text refers to a name: if the name stands for an integer that is too long to
be written, the instructions fail, though the name is bound and nothing is called. With a sigil
that is no text there are no instructions at all. -/
theorem instantiate_without_text :
    let paragraph : Body := .element { tag := "p", token := "t1", text := some "$x" } []
    (∃ steps t, ({} : Settings).compile paragraph = .ok steps ∧
      Live.run (Registry.invokeWith [] fun _ _ _ => throw .endless)
        (.ofEntries [("x", .int Value.longInteger)]) [] steps {} = .error .wrongValue t) ∧
    ({ sigil := .list [.text "$"] } : Settings).compile paragraph = .error .wrongKind := by
  intro paragraph
  have hrun (v : Value) (hv : v.hasText = false) :
      ∃ t, Live.run (Registry.invokeWith [] fun _ _ _ => throw .endless) (.ofEntries [("x", v)]) []
        (paragraph.compile "el" (.ofText "$")) {} = .error .wrongValue t := by
    have hresolve : Live.resolve (.ofEntries [("x", v)]) "x" = .error .wrongValue := by
      simp [Live.resolve, Bindings.ofEntries, Entries.get?_cons, Value.plainText, hv, bind,
        Except.bind]
    refine (Body.run_compile _ _ "el" (.ofText "$") paragraph {}).symm.error_left (s := {}) ?_
    refine bind_of_error ?_
    have hface : ({ tag := "p", token := "t1", text := some "$x" } : Element).face (.ofText "$")
        (.ofEntries [("x", v)]) true = .error .wrongValue := by
      have hlive : liveText (.ofText "$") (.ofEntries [("x", v)]) "$x" = .error .wrongValue :=
        hresolve
      simp only [Element.face, optionalText, if_true, hlive]
      rfl
    rw [List.isEmpty_nil, hface]
    rfl
  obtain ⟨t, hfails⟩ := hrun (.int Value.longInteger) (by decide +kernel)
  exact ⟨⟨_, t, (Settings.compile_of_cue rfl rfl paragraph).trans rfl, hfails⟩, rfl⟩

end Pageloom
