import Pageloom.Proofs.Entries
import Pageloom.Proofs.Outcome
import Pageloom.Settings

/-!
# Settings that are given

The names that a table of settings may have are listed in one place, and the
values under them are picked up in another, one by one. A name that is listed
and not picked up would be accepted and have no effect. Here the fields of the
settings are arranged by table and name, so that both can be compared for all
names at once.

## Main definitions

* `Pageloom.Settings.fields` -- the fields of a table by name
* `Pageloom.Settings.Keeps` -- fields have the values that are given
-/

namespace Pageloom.Settings

/-! ## Fields by name -/

/-- The tables that settings are read from. -/
def tables : List String := ["build", "page", "runtime"]

/-- The fields that the settings of a table give, by name, each as the value that gives it. -/
def fields (s : Settings) (table : String) : Entries Value :=
  if table = "build" then
    [("output_dir", s.outputDir), ("token_prefix", s.tokenLead), ("var_prefix", s.variableLead),
      ("sigil", s.sigil), ("scalar_children", .text s.policy.name)]
  else if table = "page" then
    [("title", s.title), ("lang", s.lang), ("inline_scripts", .bool s.inlineScripts),
      ("inline_styles", .bool s.inlineStyles), ("scripts", .list (s.scripts.map .text))]
  else if table = "runtime" then [("component_base_url", s.componentBase)]
  else []

/-- The names of the settings of a table. -/
def namesOf (table : String) : List String := (fields {} table).keys

/-- The names of other tables that a table accepts. -/
def nestedNames (table : String) : List String :=
  if table = "build" then ["page", "runtime"] else []

/-- The names that a table may have. -/
def knownNames (table : String) : List String := namesOf table ++ nestedNames table

theorem keys_fields (s : Settings) (table : String) : (s.fields table).keys = namesOf table := by
  unfold namesOf fields
  split
  · rfl
  · split
    · rfl
    · split <;> rfl

/-! ## What is read -/

/-- Fields whose names are given have the values that are given. -/
def Keeps (given fields : Entries Value) : Prop :=
  ∀ f ∈ fields, ∀ v, given.get? f.1 = some v → f.2 = v

section

variable {given : Entries Value} {name table : String} {v : Value}

theorem getD_of_given (h : given.get? name = some v) (standard : Value) :
    (given.get? name).getD standard = v := by rw [h, Option.getD_some]

/-- A fault whose message is still to be made is a fault all the same. -/
theorem bind_error_ne_ok {α : Type} {x : Except Fault String} {fault : String → Fault} {a : α} :
    (do .error (fault (← x)) : Except Fault α) ≠ .ok a := by
  cases x <;> intro h <;> cases h

theorem readSigil_of_given {sigil : Value} (hread : readSigil given = .ok sigil)
    (h : given.get? "sigil" = some v) : sigil = v := by
  simp only [readSigil, getD_of_given h] at hread
  split at hread
  · exact (Except.ok.inj hread).symm
  · exact absurd hread bind_error_ne_ok
  · cases hread

theorem name_of_ofName? {s : String} {policy : ScalarPolicy}
    (h : ScalarPolicy.ofName? s = some policy) : s = policy.name := by
  unfold ScalarPolicy.ofName? at h
  split at h
  · cases h
    assumption
  · split at h
    · cases h
      assumption
    · cases h

theorem readPolicy_of_given {policy : ScalarPolicy} (hread : readPolicy given = .ok policy)
    (h : given.get? "scalar_children" = some v) : .text policy.name = v := by
  rw [readPolicy, h] at hread
  cases v with
  | scalar scalar =>
    cases scalar with
    | text s =>
      cases hpolicy : ScalarPolicy.ofName? s with
      | some p =>
        simp only [hpolicy, Except.ok.injEq] at hread
        rw [name_of_ofName? hpolicy, hread]
      | none =>
        simp only [hpolicy] at hread
        cases hread
    | _ => cases hread
  | _ => cases hread

theorem readFlag_of_given {standard flag : Bool}
    (hread : readFlag given table name standard = .ok flag) (h : given.get? name = some v) :
    .bool flag = v := by
  rw [readFlag, h] at hread
  split at hread
  · cases ‹some v = none›
  · cases hread
    exact (Option.some.inj ‹_›).symm
  · exact absurd hread bind_error_ne_ok

theorem eq_map_text {xs : List Value} {texts : List String} (h : xs.mapM Value.text? = some texts) :
    xs = texts.map .text := by
  induction xs generalizing texts with
  | nil =>
    cases h
    rfl
  | cons x xs ih =>
    simp only [List.mapM_cons, Option.bind_eq_bind, Option.bind_eq_some_iff] at h
    obtain ⟨text, htext, rest, hrest, heq⟩ := h
    cases heq
    rw [List.map_cons, ← ih hrest]
    congr 1
    cases x with
    | scalar scalar => cases scalar <;> simp_all [Value.text?]
    | _ => cases htext

theorem readTexts_of_given {texts : List String}
    (hread : readTexts given table name = .ok texts) (h : given.get? name = some v) :
    .list (texts.map .text) = v := by
  simp only [readTexts, h] at hread
  cases v with
  | list xs =>
    cases htexts : xs.mapM Value.text? with
    | some ts =>
      simp only [htexts, Except.ok.injEq] at hread
      rw [eq_map_text htexts, hread]
    | none =>
      simp only [htexts] at hread
      cases hread
  | _ => cases hread

/-- A table is accepted exactly if it knows all of its names. -/
theorem checkNames_eq_ok {known : List String} :
    checkNames given known table = .ok () ↔ ∀ name ∈ given.keys, name ∈ known := by
  simp [checkNames]

end

/-- **What settings were read from.** Each table has known names only, and gives its fields. -/
theorem exists_given {data : Entries Value} {s : Settings} (h : ofEntries data = .ok s) :
    ∀ table ∈ tables, ∃ given, sectionOf data table = .ok given ∧
      checkNames given (knownNames table) table = .ok () ∧ Keeps given (s.fields table) := by
  simp only [ofEntries] at h
  obtain ⟨build, hbuild, h⟩ := except_bind_eq_ok.mp h
  obtain ⟨page, hpage, h⟩ := except_bind_eq_ok.mp h
  obtain ⟨runtime, hruntime, h⟩ := except_bind_eq_ok.mp h
  obtain ⟨_, hbuildNames, h⟩ := except_bind_eq_ok.mp h
  obtain ⟨_, hpageNames, h⟩ := except_bind_eq_ok.mp h
  obtain ⟨_, hruntimeNames, h⟩ := except_bind_eq_ok.mp h
  obtain ⟨sigil, hsigil, h⟩ := except_bind_eq_ok.mp h
  obtain ⟨policy, hpolicy, h⟩ := except_bind_eq_ok.mp h
  obtain ⟨inlineScripts, hinlineScripts, h⟩ := except_bind_eq_ok.mp h
  obtain ⟨inlineStyles, hinlineStyles, h⟩ := except_bind_eq_ok.mp h
  obtain ⟨scripts, hscripts, h⟩ := except_bind_eq_ok.mp h
  cases h
  simp only [tables, List.forall_mem_cons]
  refine ⟨⟨build, hbuild, hbuildNames, ?_⟩, ⟨page, hpage, hpageNames, ?_⟩,
    ⟨runtime, hruntime, hruntimeNames, ?_⟩, List.forall_mem_nil _⟩
  · simp only [Keeps, fields, if_true, List.forall_mem_cons]
    exact ⟨fun v h => getD_of_given h _, fun v h => getD_of_given h _, fun v h => getD_of_given h _,
      fun v => readSigil_of_given hsigil, fun v => readPolicy_of_given hpolicy,
      List.forall_mem_nil _⟩
  · simp only [Keeps, fields, String.reduceEq, if_false, if_true, List.forall_mem_cons]
    exact ⟨fun v h => getD_of_given h _, fun v h => getD_of_given h _,
      fun v => readFlag_of_given hinlineScripts, fun v => readFlag_of_given hinlineStyles,
      fun v => readTexts_of_given hscripts, List.forall_mem_nil _⟩
  · simp only [Keeps, fields, String.reduceEq, if_false, if_true, List.forall_mem_cons]
    exact ⟨fun v h => getD_of_given h _, List.forall_mem_nil _⟩

/-! ## What is refused -/

theorem reports_or_sectionOf (data : Entries Value) (table : String) :
    Reports .settings (sectionOf data table) ∨ ∃ given, sectionOf data table = .ok given := by
  unfold sectionOf
  split
  · exact .inr ⟨_, rfl⟩
  · exact .inr ⟨_, rfl⟩
  · exact .inl ⟨_, rfl, rfl⟩

theorem reports_or_checkNames (given : Entries Value) (known : List String) (table : String) :
    Reports .settings (checkNames given known table) ∨
      ∃ a, checkNames given known table = .ok a := by
  simp only [checkNames]
  split
  · exact .inr ⟨_, rfl⟩
  · exact .inl ⟨_, rfl, rfl⟩

/-- A table with a name that it does not know is refused before anything else of it is read. -/
theorem reports_of_unknown {data given : Entries Value} {table name : String}
    (htable : table ∈ tables) (hgiven : sectionOf data table = .ok given)
    (hname : name ∈ given.keys) (hunknown : name ∉ knownNames table) :
    Reports .settings (ofEntries data) := by
  simp only [ofEntries]
  refine reports_bind (reports_or_sectionOf data "build") fun build hbuild => ?_
  refine reports_bind (reports_or_sectionOf data "page") fun page hpage => ?_
  refine reports_bind (reports_or_sectionOf data "runtime") fun runtime hruntime => ?_
  refine reports_bind (reports_or_checkNames build _ _) fun _ hbuildNames => ?_
  refine reports_bind (reports_or_checkNames page _ _) fun _ hpageNames => ?_
  refine reports_bind (reports_or_checkNames runtime _ _) fun _ hruntimeNames => ?_
  -- All three tables were accepted, and one of them has the unknown name.
  have haccepted : checkNames given (knownNames table) table = .ok () := by
    simp only [tables, List.mem_cons, List.not_mem_nil, or_false] at htable
    rcases htable with rfl | rfl | rfl
    · exact Except.ok.inj (hgiven.symm.trans hbuild) ▸ hbuildNames
    · exact Except.ok.inj (hgiven.symm.trans hpage) ▸ hpageNames
    · exact Except.ok.inj (hgiven.symm.trans hruntime) ▸ hruntimeNames
  exact absurd (checkNames_eq_ok.mp haccepted name hname) hunknown

/-! ## What has no effect -/

theorem sectionOf_of_given {data given : Entries Value} {table : String}
    (h : data.get? table = some (.table given)) : sectionOf data table = .ok given := by
  rw [sectionOf, h]

theorem checkNames_erase {given : Entries Value} {known : List String} {name : String}
    (h : name ∈ known) (table : String) :
    checkNames (given.erase name) known table = checkNames given known table := by
  have hkeys : ((given.erase name).keys.filter fun k => !known.contains k) =
      given.keys.filter fun k => !known.contains k := by
    simp only [Entries.erase, Entries.keys, List.filter_map, List.filter_filter]
    refine congrArg (List.map Prod.fst) (List.filter_congr fun e _ => ?_)
    by_cases he : e.1 = name <;> simp [he, h]
  simp only [checkNames, hkeys]

/-- What is given under the name of another table could as well be left out. -/
theorem ofEntries_erase {data given : Entries Value} {name : String}
    (hgiven : data.get? "build" = some (.table given)) (hname : name ∈ nestedNames "build") :
    ofEntries (data.set "build" (.table (given.erase name))) = ofEntries data := by
  have hbuild : sectionOf (data.set "build" (.table (given.erase name))) "build" =
      .ok (given.erase name) := by
    rw [sectionOf, Entries.get?_set_self]
  have hother {table : String} (h : "build" ≠ table) :
      sectionOf (data.set "build" (.table (given.erase name))) table = sectionOf data table := by
    rw [sectionOf, Entries.get?_set, if_neg h, ← sectionOf]
  have hget {field : String} (h : name ≠ field) :
      (given.erase name).get? field = given.get? field := by
    rw [Entries.get?_erase, if_neg h]
  have hne : ∀ field ∈ namesOf "build", name ≠ field := by
    simp only [nestedNames, if_true, List.mem_cons, List.not_mem_nil, or_false] at hname
    rcases hname with rfl | rfl <;> decide
  have hfields := fun field hfield => hget (hne field hfield)
  simp only [namesOf, fields, if_true, Entries.keys_cons, Entries.keys_nil,
    List.forall_mem_cons] at hfields
  obtain ⟨houtput, htoken, hvariable, hsigil, hpolicy, _⟩ := hfields
  have hknown : name ∈ buildNames := List.mem_append_right (namesOf "build") hname
  have hreadSigil : readSigil (given.erase name) = readSigil given := by
    simp only [readSigil, hsigil]
  have hreadPolicy : readPolicy (given.erase name) = readPolicy given := by
    simp only [readPolicy, hpolicy]
  simp only [ofEntries, hbuild, hother (show "build" ≠ "page" by decide),
    hother (show "build" ≠ "runtime" by decide), sectionOf_of_given hgiven, checkNames_erase hknown,
    hreadSigil, hreadPolicy, houtput, htoken, hvariable, bind, Except.bind]

/-! ## Nothing is dropped -/

/-- **Settings that are given are kept, and other names are refused.** Where settings are read from
a table of tables, every name that one of the three tables has is the name of a field, and the
field has the value that was given; a table with any other name is refused with a report on the
settings. The names of the other two tables are the exception in `build`: they are accepted there,
and what is given under them has no effect. -/
theorem ofValue_keeps {data : Value} {es given : Entries Value} {table name : String} {v : Value}
    (hdata : data.entries? = some es) (htable : table ∈ tables)
    (hgiven : es.get? table = some (.table given)) (hname : given.get? name = some v) :
    (name ∉ nestedNames table →
      (∀ s, ofValue data = .ok s → (s.fields table).get? name = some v) ∧
      (name ∉ namesOf table → Reports .settings (ofValue data))) ∧
    (name ∈ nestedNames table →
      ofValue (.table (es.set table (.table (given.erase name)))) = ofValue data) := by
  have hof : ofValue data = ofEntries es := by rw [ofValue, hdata]
  have hsection := sectionOf_of_given hgiven
  rw [hof]
  refine ⟨fun hnested => ⟨?_, ?_⟩, fun hnested => ?_⟩
  · intro s hs
    obtain ⟨given', hgiven', hnames, hkeeps⟩ := exists_given hs table htable
    cases hsection.symm.trans hgiven'
    have hknown := checkNames_eq_ok.mp hnames name (Entries.mem_keys_of_get? hname)
    have hfield : name ∈ (s.fields table).keys := by
      rw [keys_fields]
      exact (List.mem_append.mp hknown).resolve_right hnested
    obtain ⟨w, hw⟩ := Entries.exists_get?_of_mem_keys hfield
    have hsame : w = v := hkeeps (name, w) (Entries.mem_of_get? hw) v hname
    rw [hw, hsame]
  · intro hunknown
    refine reports_of_unknown htable hsection (Entries.mem_keys_of_get? hname) fun hknown => ?_
    exact (List.mem_append.mp hknown).elim hunknown hnested
  · have hbuild : table = "build" := by
      unfold nestedNames at hnested
      split at hnested
      · assumption
      · cases hnested
    subst hbuild
    exact ofEntries_erase hgiven hnested

/-- Scripts and a policy that are given are kept, a name that is misspelled is refused, and a title
for the page inside `build` could as well be left out. -/
theorem ofValue_keeps_scripts :
    let scripts : Value := .list [.text "js/a.js", .text "js/b.js"]
    let nested : Value := .table [("title", .text "My App")]
    let build : Entries Value := [("page", nested), ("scalar_children", .text "concat")]
    let data (name : String) : Value :=
      .table [("page", .table [(name, scripts)]), ("build", .table build)]
    (∃ s, ofValue (data "scripts") = .ok s ∧ (s.fields "page").get? "scripts" = some scripts ∧
      (s.fields "build").get? "scalar_children" = some (.text "concat")) ∧
    Reports .settings (ofValue (data "script")) ∧
    ofValue (.table [("page", .table [("scripts", scripts)]),
      ("build", .table [("scalar_children", .text "concat")])]) = ofValue (data "scripts") := by
  intro scripts nested build data
  have hpage : "page" ∈ tables := by decide
  have hbuild : "build" ∈ tables := by decide
  have hdata (name : String) : (data name).entries? =
      some [("page", .table [(name, scripts)]), ("build", .table build)] := rfl
  have hgiven (name : String) : Entries.get? [(name, scripts)] name = some scripts := by
    simp [Entries.get?]
  have hpolicy : build.get? "scalar_children" = some (.text "concat") := rfl
  have hnested : build.get? "page" = some nested := rfl
  refine ⟨⟨_, rfl, ?_, ?_⟩, ?_, ?_⟩
  · exact ((ofValue_keeps (hdata "scripts") hpage rfl (hgiven _)).1 (by decide)).1 _ rfl
  · exact ((ofValue_keeps (hdata "scripts") hbuild rfl hpolicy).1 (by decide)).1 _ rfl
  · exact ((ofValue_keeps (hdata "script") hpage rfl (hgiven _)).1 (by decide)).2 (by decide)
  · exact (ofValue_keeps (hdata "scripts") hbuild rfl hnested).2 (by decide)

/-- A title for the page that is given inside `build` is dropped: the settings are the standard
ones, as if nothing had been given. -/
theorem nested_title_dropped :
    let given : Value := .table [("title", .text "My App")]
    ofValue (.table [("build", .table [("page", given)])]) = .ok {} ∧
      ofValue (.table []) = .ok {} ∧ "page" ∉ namesOf "build" ∧
      (fields {} "page").get? "title" = some (.text "Compiled Component") :=
  ⟨rfl, rfl, by decide, rfl⟩

end Pageloom.Settings
