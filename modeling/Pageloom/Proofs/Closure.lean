import Pageloom.Proofs.Calling
import Pageloom.Proofs.Giving
import Pageloom.Proofs.Mounting
import Pageloom.Proofs.Rebuild

/-!
# Collections are closed

A collection begins with one component for each entry and goes on with the first component of
every other key that it meets on its walk. A later component of a key is passed over, but
the walk has been to all that is nested in it, so every key that is used anywhere is there.
Whatever the factory of a collected component calls therefore has a factory, and to
mount a component never comes to a key without one.

## Main definitions

* `Pageloom.Gathering.Firsts` -- the first component of every key
* `Pageloom.Fault.isMissing` -- the faults of looking up what is not there
* `Pageloom.Program.collect_eq_duplicate` -- when a collection finds a key twice
* `Pageloom.Program.collect_closed` -- collections are complete and closed
-/

namespace Pageloom

/-! ## First components -/

namespace Gathering

/-- A gathering that began with `roots` and met `met` has seen each key once, and has gathered the
first component of a key that it met. -/
structure Firsts (g : Gathering) (roots met : List Component) : Prop where
  keys : g.seen.keys = (roots ++ g.nested).map (·.boundary.key)
  nodup : g.seen.keys.Nodup
  first : ∀ c ∈ g.nested, met.find? (fun d => d.boundary.key = c.boundary.key) = some c

theorem firsts_start {roots : List Component} (h : (roots.map (·.boundary.key)).Nodup) :
    Firsts { seen := roots.map fun c => (c.boundary.key, c) } roots [] := by
  have hkeys : Entries.keys (roots.map fun c => (c.boundary.key, c)) =
      roots.map (·.boundary.key) := by
    simp [Entries.keys]
  exact ⟨by rw [hkeys, List.append_nil], hkeys ▸ h, by simp⟩

theorem Firsts.meet {g : Gathering} {roots met : List Component} (h : g.Firsts roots met)
    (haccounts : g.Accounts roots met) (c : Component) : (g.meet c).Firsts roots (met ++ [c]) := by
  have hold : ∀ d ∈ g.nested,
      (met ++ [c]).find? (fun e => e.boundary.key = d.boundary.key) = some d := by
    intro d hd
    rw [List.find?_append, h.first d hd, Option.some_or]
  unfold Gathering.meet
  cases hget : g.seen.get? c.boundary.key with
  | some first =>
    by_cases hsame : first.sameContent c = true
    · simp only [if_pos hsame]
      exact ⟨h.keys, h.nodup, hold⟩
    · simp only [if_neg hsame]
      exact ⟨h.keys, h.nodup, hold⟩
  | none =>
    have hnew : c.boundary.key ∉ g.seen.keys := Entries.get?_eq_none_iff.mp hget
    refine ⟨?_, ?_, fun d hd => ?_⟩
    · rw [Entries.keys_append, h.keys]
      simp
    · rw [Entries.keys_append]
      simpa using h.nodup.concat hnew
    · rcases List.mem_append.mp hd with hd | hd
      · exact hold d hd
      · -- Whatever was met before has been seen, so none of it has the new key.
        cases List.mem_singleton.mp hd
        have hnone : met.find? (fun e => e.boundary.key = c.boundary.key) = none := by
          refine List.find?_eq_none.mpr fun e he hkey => ?_
          obtain ⟨first, hfirst, _⟩ := haccounts.told e he
          rw [of_decide_eq_true hkey, hget] at hfirst
          cases hfirst
        rw [List.find?_append, hnone, Option.none_or]
        simp

theorem Firsts.foldl_meet {g : Gathering} {roots met : List Component} (h : g.Firsts roots met)
    (haccounts : g.Accounts roots met) (cs : List Component) :
    (cs.foldl Gathering.meet g).Firsts roots (met ++ cs) := by
  induction cs generalizing g met with
  | nil => simpa using h
  | cons c cs ih => simpa using ih (h.meet haccounts c) (haccounts.meet c)

end Gathering

/-- Roots with distinct keys are gathered with the first component of every other key. -/
theorem gather_firsts {roots : List Component} (h : (roots.map (·.boundary.key)).Nodup) :
    ∃ g : Gathering, (gather roots).1 = roots ++ g.nested ∧
      g.Firsts roots (roots.flatMap Component.all) := by
  refine ⟨_, rfl, ?_⟩
  exact (Gathering.firsts_start h).foldl_meet (Gathering.accounts_start roots)
    (roots.flatMap Component.all)

/-! ## Boundaries in a tree -/

namespace Node

mutual

theorem mem_nested_of_mem_preorder : ∀ {n m : Node}, m ∈ n.preorder → m.boundary.isSome →
    m = n ∨ m ∈ n.nested
  | mk b e cs, m, h, hm => by
    rw [preorder, List.mem_cons] at h
    rcases h with rfl | h
    · exact .inl rfl
    · rcases mem_nested_of_mem_preorderAll h hm with hchild | ⟨c, hc, hbelow⟩
      · exact .inr (mem_nested.mpr ⟨mk b e cs, mem_preorder_self _, hchild, hm⟩)
      · exact .inr (nested_of_mem_preorder (mem_preorder_child (n := mk b e cs) hc) hbelow)

theorem mem_nested_of_mem_preorderAll : ∀ {cs : List Node} {m : Node}, m ∈ preorderAll cs →
    m.boundary.isSome → m ∈ cs ∨ ∃ c ∈ cs, m ∈ c.nested
  | [], m, h, _ => by simp [preorderAll] at h
  | c :: cs, m, h, hm => by
    rw [preorderAll, List.mem_append] at h
    rcases h with h | h
    · rcases mem_nested_of_mem_preorder h hm with rfl | hbelow
      · exact .inl List.mem_cons_self
      · exact .inr ⟨c, List.mem_cons_self, hbelow⟩
    · rcases mem_nested_of_mem_preorderAll h hm with hmem | ⟨d, hd, hbelow⟩
      · exact .inl (List.mem_cons_of_mem _ hmem)
      · exact .inr ⟨d, List.mem_cons_of_mem _ hd, hbelow⟩

end

end Node

/-- Every boundary in the tree of a component that was read has a component of its own. -/
theorem Forest.component_complete {f : Forest} {i : Nat} {c : Component}
    (h : f.component i = .ok c) {n : Node} (hn : n ∈ c.root.preorder) {b : Boundary}
    (hb : n.boundary = some b) : ∃ d ∈ c.all, d.boundary = b := by
  obtain ⟨⟨b', r⟩, _, h⟩ := except_bind_eq_ok.mp h
  obtain ⟨tree, hread, h⟩ := except_bind_eq_ok.mp h
  cases h
  have hnone : tree.boundary = none := by
    obtain ⟨bt, e, cs⟩ := tree
    exact (stands_of_readChecked hread).1
  rcases Node.mem_nested_of_mem_preorder hn (by rw [hb]; rfl) with rfl | hnested
  · rw [hnone] at hb
    cases hb
  · exact ⟨⟨b, n.withBoundary none⟩, Component.mem_all.mpr (.inr ⟨n, hnested, hb, rfl⟩), rfl⟩

/-! ## Mounting -/

/-- Whether a fault is that something is not there that was looked up: a factory or a variable. -/
def Fault.isMissing : Fault → Bool
  | .noFactory _ => true
  | .unknownVariable _ => true
  | _ => false

namespace Document

theorem findWithin_eq_error {d : Document} {id : String} {fault : Fault} :
    ∀ {bound : Nat} {nodes : List Nat}, d.findWithin id bound nodes = .error fault →
      fault = .endless
  | _, [], h => by simp [findWithin] at h
  | 0, _ :: _, h => by
    cases h
    rfl
  | bound + 1, i :: rest, h => by
    rw [findWithin] at h
    split at h
    · split at h
      · cases h
      · exact findWithin_eq_error h
    · exact findWithin_eq_error h

theorem readWithin_eq_error {d : Document} {fault : Fault} : ∀ {depth i : Nat},
    d.readWithin depth i = .error fault → fault = .endless ∨ fault = .unsupported
  | 0, _, h => by
    cases h
    exact .inl rfl
  | depth + 1, i, h => by
    rw [readWithin] at h
    split at h
    · next c _ =>
      cases hchildren : c.children.mapM fun j => d.readWithin depth j with
      | ok trees =>
        rw [hchildren] at h
        cases h
      | error e =>
        rw [hchildren] at h
        cases h
        obtain ⟨j, _, hj⟩ := mapM_eq_error hchildren
        exact readWithin_eq_error hj
    · cases h
      exact .inr rfl

end Document

/-- Mounting fails where the page has no end or a node is not there, or because the
factory fails. -/
theorem Sitting.mount_eq_error {key parent : String} {arguments : List Value} {s t : Session}
    {fault : Fault} (h : mount key parent arguments s = .error fault t) :
    (fault = .endless ∨ fault = .unsupported) ∨ ∃ registration stage,
      s.registry.get? key = some registration ∧
      s.registry.call key registration arguments s.stage = .error fault stage := by
  unfold mount at h
  cases hfind : s.document.findById parent with
  | error fault' =>
    rw [bind_of_error (inspect_of_error hfind)] at h
    cases h
    exact .inl (.inl (Document.findWithin_eq_error hfind))
  | ok found =>
    rw [bind_of_ok (inspect_of_ok hfind)] at h
    cases found with
    | none => cases h
    | some target =>
      simp only at h
      rw [bind_of_ok (show (get : Sitting Session) s = .ok s s from rfl)] at h
      cases hget : s.registry.get? key with
      | none =>
        rw [hget] at h
        cases h
      | some registration =>
        simp only [hget] at h
        rcases made_cases key registration arguments s with
          ⟨i, u, _, hmade⟩ | ⟨fault', stage, _, hcall, hmade⟩
        · rw [bind_of_ok hmade] at h
          cases hread : u.document.read i with
          | error fault' =>
            rw [bind_of_error (clone_deep_of_error hread)] at h
            cases h
            exact .inl (Document.readWithin_eq_error hread)
          | ok tree =>
            rw [bind_of_ok (clone_deep_of_ok hread)] at h
            cases h
        · rw [bind_of_error hmade] at h
          cases h
          exact .inr ⟨registration, stage, rfl, hcall⟩

namespace Settings

variable {settings : Settings} {roots : List Component} {session session' : Session}

/-- Whatever a collected component calls is registered. -/
theorem mem_registry_of_call (hpreview : settings.preview (gather roots).1 session = .ok session')
    {c : Component} (hc : c ∈ (gather roots).1) {call : String × List String}
    (hcall : call ∈ c.body.calls) : call.1 ∈ Entries.keys session'.registry := by
  obtain ⟨d, hd, rfl, _⟩ := Component.exists_of_call hcall
  obtain ⟨root, hroot, hcroot⟩ := List.mem_flatMap.mp (mem_of_mem_gather hc)
  obtain ⟨e, he, hkey⟩ := exists_gathered
    (List.mem_flatMap.mpr ⟨root, hroot, Component.all_trans hcroot hd⟩)
  refine (preview_registry hpreview).2 _ (.inl (List.mem_map.mpr ⟨e, he, hkey⟩))

/-- The factories of a preview were made of the bodies of its components. -/
theorem preview_compiled {components : List Component} (hempty : session.registry = [])
    (hpreview : settings.preview components session = .ok session') :
    session'.registry.Compiled (fun _ => True) fun _ body _ => ∃ c ∈ components, body = c.body := by
  intro key registration _ hget
  rcases (preview_registry hpreview).1 key registration hget with hserves | hold
  · obtain ⟨c, hc, _, steps, hsteps, rfl⟩ := hserves
    obtain ⟨lead, cue, _, _, _, rfl⟩ := compile_eq_ok hsteps
    exact ⟨c.boundary.parameters, c.body, lead, cue, ⟨c, hc, rfl⟩, fun _ _ => trivial, rfl⟩
  · rw [hempty] at hold
    cases hold

/-- Mounting on a page with the factories of a collection finds all that it looks up. -/
theorem mount_finds (hempty : session.registry = [])
    (hpreview : settings.preview (gather roots).1 session = .ok session') {later s : Session}
    (hlater : later.registry = session'.registry) {key parent : String} {arguments : List Value}
    {fault : Fault} (h : Sitting.mount key parent arguments later = .error fault s) :
    fault.isMissing = false := by
  rcases Sitting.mount_eq_error h with (rfl | rfl) | ⟨registration, stage, hget, hcall⟩
  · rfl
  · rfl
  · rw [hlater] at hget hcall
    rcases Registry.callWithin_eq_error (preview_compiled hempty hpreview) _ trivial hget hcall with
      rfl | rfl | ⟨parameters, body, cue, ⟨c, hc, rfl⟩,
        ⟨call, hcalled, hnone, rfl⟩ | ⟨name, _, _, rfl⟩⟩
    · rfl
    · rfl
    · exact absurd (mem_registry_of_call hpreview hc hcalled) (Entries.get?_eq_none_iff.mp hnone)
    · rfl

end Settings

/-! ## Collections -/

theorem Forest.spares_component (f : Forest) (i : Nat) : Spares (f.component i) :=
  (f.spares_boundaryOf i).bind fun _ =>
    (f.spares_readWithin (fun _ => spares_ok _) _ _ _).bind fun _ => spares_ok _

theorem spares_gatherText (roots : List Component) : Spares (gatherText roots).2 := by
  unfold gatherText
  split
  · exact spares_error rfl
  · exact spares_ok _

namespace Program

variable {p : Program} {entries : List Value} {w : Workshop}

/-- A collection fails because of a key exactly if calling its entries does. -/
theorem collect_eq_duplicate {key : String} :
    (∃ v, p.collect entries w = .error (.duplicateKey key) v) ↔
      ∃ v, p.renderEntries [] entries w = .error (.duplicateKey key) v := by
  unfold collect
  by_cases hempty : entries.isEmpty = true
  · rw [if_pos hempty, List.isEmpty_iff.mp hempty]
    constructor
    · rintro ⟨v, ⟨⟩⟩
    · rintro ⟨v, ⟨⟩⟩
  · rw [if_neg hempty]
    refine exists_congr fun v => ?_
    dsimp only
    cases hrun : p.renderEntries [] entries w with
    | error fault u =>
      rw [bind_of_error hrun]
      simp
    | ok ids u =>
      refine iff_of_false (fun h => ?_) nofun
      rw [bind_of_ok hrun, bind_of_ok (show Build.forest u = .ok u.forest u from rfl)] at h
      cases hroots : ids.mapM u.forest.component with
      | ok roots =>
        rw [hroots] at h
        have h : Build.lift (gatherText roots).2
            { u with notices := u.notices ++ (gatherText roots).1 } =
              .error (.duplicateKey key) v := h
        cases hfound : (gatherText roots).2 with
        | ok components =>
          rw [hfound] at h
          cases h
        | error fault =>
          have hspared := spares_gatherText roots fault hfound
          rw [hfound] at h
          cases h
          cases hspared
      | error fault =>
        have hspared := spares_mapM u.forest.spares_component ids fault hroots
        rw [hroots] at h
        cases h
        cases hspared

/-- A collection consists of what its entries gave, and of the first component of every other
key that is met on the walk over them. -/
theorem collect_firsts {components : List Component} {w' : Workshop}
    (h : p.collect entries w = .ok components w') : ∃ roots nested ids u,
      components = roots ++ nested ∧ components = (gather roots).1 ∧
      p.GivesAll entries w ids (roots.map (·.boundary.key)) u ∧
      ids.mapM u.forest.component = .ok roots ∧
      w' = { u with notices := u.notices ++ (gather roots).2 } ∧
      (components.map (·.boundary.key)).Nodup ∧
      ∀ c ∈ nested, (roots.flatMap Component.all).find?
        (fun d => d.boundary.key = c.boundary.key) = some c := by
  obtain ⟨ids, u, roots, hrender, hread, rfl, rfl⟩ := collect_eq_ok h
  obtain ⟨keys, hall, hnodup, _⟩ := renderEntries_eq_ok.mp hrender
  obtain rfl := hall.keys_eq hread
  obtain ⟨g, hgather, hfirsts⟩ := gather_firsts hnodup
  refine ⟨roots, g.nested, ids, u, hgather, rfl, hall, hread, rfl, ?_, hfirsts.first⟩
  rw [hgather, ← hfirsts.keys]
  exact hfirsts.nodup

/-- **Collections are complete and closed.** A collection has every key once. It begins with
what its entries gave, one component each and in order; every boundary in their trees has
its key in the collection, and what follows the entries is the first component of its key on
the walk over the entries. So all that a collected component calls is registered in a
preview of the collection, and mounting there finds every factory that it looks up. A
collection fails because of a key exactly if an entry gives a component with the key of an
earlier one, when all entries before it were called and had keys of their own. -/
theorem collect_closed (p : Program) (entries : List Value) (w : Workshop) :
    (∀ components w', p.collect entries w = .ok components w' →
      (components.map (·.boundary.key)).Nodup ∧
      ∃ roots nested, components = roots ++ nested ∧
        (∃ ids u, p.GivesAll entries w ids (roots.map (·.boundary.key)) u ∧
          ids.mapM u.forest.component = .ok roots) ∧
        (∀ root ∈ roots, ∀ n ∈ root.root.preorder, ∀ b, n.boundary = some b →
          ∃ c ∈ components, c.boundary.key = b.key) ∧
        (∀ c ∈ nested, (roots.flatMap Component.all).find?
          (fun d => d.boundary.key = c.boundary.key) = some c) ∧
        ∀ (settings : Settings) (session : Session), session.registry = [] →
          (settings.sigilOf.cue?.isSome = true → settings.variableLead.hasText = true →
            (∀ c ∈ components, c.body.isWritable = true) →
            ∃ session', settings.preview components session = .ok session') ∧
          ∀ session', settings.preview components session = .ok session' →
            (∀ c ∈ components, ∀ steps, settings.compile c.body = .ok steps → ∀ var key names,
              .invokeFactory var key names ∈ steps → key ∈ Entries.keys session'.registry) ∧
            ∀ later key parent arguments fault s, later.registry = session'.registry →
              Sitting.mount key parent arguments later = .error fault s →
              fault.isMissing = false) ∧
    ∀ key, (Fault.duplicateKey key).report? =
        some (.build "Duplicate component key" (some key)) ∧
      ((∃ v, p.collect entries w = .error (.duplicateKey key) v) ↔
        ∃ before entry rest ids keys u i v, entries = before ++ entry :: rest ∧
          p.GivesAll before w ids keys u ∧ keys.Nodup ∧ p.Gives entry u i key v ∧ key ∈ keys) := by
  refine ⟨fun components w' h => ?_, fun key => ⟨rfl, ?_⟩⟩
  · obtain ⟨roots, nested, ids, u, hsplit, rfl, hall, hread, _, hnodup, hfirsts⟩ := collect_firsts h
    refine ⟨hnodup, roots, nested, hsplit, ⟨ids, u, hall, hread⟩, ?_, hfirsts, ?_⟩
    · intro root hroot n hn b hb
      obtain ⟨i, _, hi⟩ := exists_of_mem_mapM hread hroot
      obtain ⟨d, hd, rfl⟩ := Forest.component_complete hi hn hb
      exact exists_gathered (List.mem_flatMap.mpr ⟨root, hroot, hd⟩)
    · intro settings session hempty
      refine ⟨fun hcue hlead hclicks => ?_, fun session' hpreview => ⟨?_, ?_⟩⟩
      · obtain ⟨cue, hcue⟩ := Option.isSome_iff_exists.mp hcue
        exact Settings.exists_preview (fun c hc =>
          ⟨_, (Settings.compile_of_cue hcue hlead c.body).trans (if_pos (hclicks c hc))⟩) _
      · intro c hc steps hsteps var key names hmem
        obtain ⟨lead, cue, _, _, _, rfl⟩ := Settings.compile_eq_ok hsteps
        exact Settings.mem_registry_of_call hpreview hc (Body.mem_calls_of_compile hmem)
      · exact fun later key parent arguments fault s hlater hmount =>
          Settings.mount_finds hempty hpreview hlater hmount
  · rw [collect_eq_duplicate, renderEntries_eq_duplicate]
    simp [Unseen]

/-- A page with a card in a section and a second card, and a card as an entry beside it: the
keys of the collection, and a mount of the page. With the page as an entry twice, its key
is found twice. -/
theorem collect_closed_page :
    let card (label : String) : Expr :=
      .build (.component "Card") (.table [("label", .value (.text label))]) []
    let program : Program :=
      [("Page", ⟨"Page", [], .build (.value (.text "div")) (.value .none)
          [.build (.value (.text "section")) (.value .none) [card "one"], card "two"], [], false⟩),
        ("Card", ⟨"Card", ["props"], .build (.value (.text "p")) (.value .none)
          [.prop "label" (.value (.text "none"))], [], false⟩),
        ("Footer", ⟨"Footer", [], .build (.value (.text "p")) (.value .none) [], [], false⟩)]
    let entry (name : String) : Value := .callable (.component name name false)
    (∃ components w session, program.collect [entry "Page", entry "Footer"] {} = .ok components w ∧
      components.map (·.boundary.key) = ["Page", "Footer", "Card"] ∧
      ({} : Settings).preview components {} = .ok session ∧
      ∀ later arguments fault s, later.registry = session.registry →
        Sitting.mount "Page" "app" arguments later = .error fault s → fault.isMissing = false) ∧
    ∃ before given rest ids keys u i v, [entry "Page", entry "Footer", entry "Page"] =
        before ++ given :: rest ∧
      program.GivesAll before {} ids keys u ∧ program.Gives given u i "Page" v ∧
        "Page" ∈ keys := by
  intro card program entry
  constructor
  · obtain ⟨components, w, hcollect, hcheck⟩ :=
      Build.exists_ok_of_check (x := program.collect [entry "Page", entry "Footer"]) (w := {})
        (fun components _ => components.map (·.boundary.key) = ["Page", "Footer", "Card"] &&
          components.all fun c => c.body.isWritable) (by decide +kernel)
    simp only [Bool.and_eq_true, List.all_eq_true, decide_eq_true_eq] at hcheck
    obtain ⟨hkeys, hclicks⟩ := hcheck
    obtain ⟨_, _, _, _, _, _, _, hpreviews⟩ :=
      (collect_closed program _ {}).1 components w hcollect
    obtain ⟨hexists, hmounts⟩ := hpreviews {} {} rfl
    obtain ⟨session, hpreview⟩ := hexists (by decide) (by decide) hclicks
    exact ⟨components, w, session, hcollect, hkeys, hpreview,
      fun later => (hmounts session hpreview).2 later "Page" "app"⟩
  · have hcheck : (match program.collect [entry "Page", entry "Footer", entry "Page"] {} with
        | .ok _ _ => false
        | .error fault _ => fault = .duplicateKey "Page") = true := by decide +kernel
    cases hcollect : program.collect [entry "Page", entry "Footer", entry "Page"] {} with
    | ok components v =>
      rw [hcollect] at hcheck
      cases hcheck
    | error fault v =>
      rw [hcollect] at hcheck
      cases of_decide_eq_true hcheck
      obtain ⟨before, given, rest, ids, keys, u, i, v', hsplit, hall, _, hgives, hmem⟩ :=
        ((collect_closed program _ {}).2 "Page").2.mp ⟨v, hcollect⟩
      exact ⟨before, given, rest, ids, keys, u, i, v', hsplit, hall, hgives, hmem⟩

end Program

end Pageloom
