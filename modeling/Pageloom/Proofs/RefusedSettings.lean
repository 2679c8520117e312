import Pageloom.Proofs.GivenSettings

/-!
# Settings that are refused

Each setting has a check of its own, and whatever is refused should come as a report on the
settings, which is what a build shows to its author. `Acceptable` says which values the settings
may have, without regard to the order of the checks. Settings are read exactly if they are
acceptable, and everything else is reported, but for two slips. The check of the sigil asks for a
size and not for a text: a number has none, which is a fault of another kind, and a list of one
item passes. And a report that shows what was refused fails where that cannot be written.

## Main definitions

* `Pageloom.Settings.given?` -- the value that is given for a setting
* `Pageloom.Settings.Acceptable` -- the values that settings may have
* `Pageloom.Settings.Slips` -- the faults that are no reports
* `Pageloom.Settings.ReadsIf` -- when something is read, and how it fails otherwise
-/

namespace Pageloom.Settings

/-! ## Acceptable settings -/

/-- The value that is given for a setting of a table. -/
def given? (data : Entries Value) (table name : String) : Option Value :=
  match data.get? table with
  | some (.table given) => Entries.get? given name
  | _ => none

/-- The settings of `page` that are flags. -/
def flagNames : List String := ["inline_scripts", "inline_styles"]

/-- The tables are tables, and have no names that they do not know. -/
structure Tabled (data : Entries Value) : Prop where
  table : ∀ table ∈ tables, ∀ v, data.get? table = some v → ∃ given, v = .table given
  names : ∀ table ∈ tables, ∀ name v, given? data table name = some v → name ∈ knownNames table

/-- Settings that can be used: each value that is given is one that its setting may have. -/
structure Acceptable (data : Entries Value) : Prop extends Tabled data where
  sigil : ∀ v, given? data "build" "sigil" = some v → sizeOf? v = some 1
  policy : ∀ v, given? data "build" "scalar_children" = some v →
    ∃ policy : ScalarPolicy, v = .text policy.name
  flags : ∀ name ∈ flagNames, ∀ v, given? data "page" name = some v → ∃ flag, v = .bool flag
  scripts : ∀ v, given? data "page" "scripts" = some v →
    ∃ texts : List String, v = .list (texts.map .text)

/-- The faults that are no reports on the settings. -/
inductive Slips (data : Entries Value) : Fault → Prop
  /-- The size of a sigil is asked for, and it has none. -/
  | unsized {v : Value} : given? data "build" "sigil" = some v → sizeOf? v = none →
      Slips data .wrongKind
  /-- A refused sigil is to be shown, and cannot be written. -/
  | sigil {v : Value} : given? data "build" "sigil" = some v → sizeOf? v ≠ some 1 →
      v.hasText = false → Slips data .wrongValue
  /-- A refused flag is to be shown, and cannot be written. -/
  | flag {name : String} {v : Value} : name ∈ flagNames → given? data "page" name = some v →
      v.hasText = false → Slips data .wrongValue

/-! ## Readers

All readers of settings have one form: what they read is as it should be, or they fail with a
report or a slip. -/

section

variable {α β : Type} {data given : Entries Value} {P Q : Prop} {post : α → Prop}
  {x : Except Fault α}

/-- Reading fails with a report on the settings, or with a slip. -/
def Refuses (data : Entries Value) (x : Except Fault α) : Prop :=
  Reports .settings x ∨ ∃ fault, x = .error fault ∧ Slips data fault

/-- Something is read exactly under a condition, and is then as `post` says; otherwise it is
refused. -/
def ReadsIf (data : Entries Value) (P : Prop) (post : α → Prop) (x : Except Fault α) : Prop :=
  (P ∧ ∃ a, x = .ok a ∧ post a) ∨ (¬ P ∧ Refuses data x)

theorem quotedText_of_unwritable {v : Value} (h : v.hasText = false) :
    v.quotedText = .error .wrongValue := by
  simp [Value.quotedText, h]

namespace ReadsIf

theorem ok {a : α} (hP : P) (ha : post a) : ReadsIf data P post (.ok a) := .inl ⟨hP, a, rfl, ha⟩

theorem report {fault : Fault} (hP : ¬ P) (h : fault.report?.map Report.family = some .settings) :
    ReadsIf data P post (.error fault) :=
  .inr ⟨hP, .inl ⟨fault, rfl, h⟩⟩

theorem congr (hx : ReadsIf data P post x) (h : P ↔ Q) : ReadsIf data Q post x := propext h ▸ hx

theorem exists_ok (hx : ReadsIf data P post x) (hP : P) : ∃ a, x = .ok a ∧ post a := by
  rcases hx with ⟨_, hok⟩ | ⟨hnot, _⟩
  · exact hok
  · exact absurd hP hnot

theorem of_ok {a : α} (hx : ReadsIf data P post x) (h : x = .ok a) : P ∧ post a := by
  rcases hx with ⟨hP, b, hb, hpost⟩ | ⟨_, ⟨fault, hfault, _⟩ | ⟨fault, hfault, _⟩⟩
  · cases h.symm.trans hb
    exact ⟨hP, hpost⟩
  · cases h.symm.trans hfault
  · cases h.symm.trans hfault

theorem of_error {fault : Fault} (hx : ReadsIf data P post x) (h : x = .error fault) :
    Reports .settings x ∨ Slips data fault := by
  rcases hx with ⟨_, b, hb, _⟩ | ⟨_, hreports | ⟨fault', hfault, hslips⟩⟩
  · cases h.symm.trans hb
  · exact .inl hreports
  · cases h.symm.trans hfault
    exact .inr hslips

theorem bind {f : α → Except Fault β} {post' : β → Prop} (hx : ReadsIf data P post x)
    (hf : ∀ a, post a → ReadsIf data Q post' (f a)) :
    ReadsIf data (P ∧ Q) post' (x >>= f) := by
  rcases hx with ⟨hP, a, rfl, ha⟩ | ⟨hP, ⟨fault, rfl, hreport⟩ | ⟨fault, rfl, hslips⟩⟩
  · rcases hf a ha with ⟨hQ, hok⟩ | ⟨hQ, hrefuses⟩
    · exact .inl ⟨⟨hP, hQ⟩, hok⟩
    · exact .inr ⟨fun h => hQ h.2, hrefuses⟩
  · exact .inr ⟨fun h => hP h.1, .inl ⟨fault, rfl, hreport⟩⟩
  · exact .inr ⟨fun h => hP h.1, .inr ⟨fault, rfl, hslips⟩⟩

theorem map {f : α → β} {post' : β → Prop} (hx : ReadsIf data P post x)
    (hf : ∀ a, post a → post' (f a)) : ReadsIf data P post' (x >>= fun a => pure (f a)) :=
  (hx.bind fun a ha => .ok trivial (hf a ha)).congr (iff_of_eq (and_true P))

/-- A report that shows a value is made if the value can be written. -/
theorem shown {v : Value} {fault : String → Fault} (hP : ¬ P)
    (hreport : ∀ text, (fault text).report?.map Report.family = some .settings)
    (hslips : v.hasText = false → Slips data .wrongValue) :
    ReadsIf data P post (do .error (fault (← v.quotedText))) := by
  cases htext : v.hasText with
  | true =>
    have hquoted : v.quotedText = .ok v.quoted := by rw [Value.quotedText, if_pos htext]
    rw [hquoted]
    exact report hP (hreport v.quoted)
  | false =>
    rw [quotedText_of_unwritable htext]
    exact .inr ⟨hP, .inr ⟨.wrongValue, rfl, hslips htext⟩⟩

end ReadsIf

/-- What is given for the settings of a table stands in these entries. -/
def IsGiven (data : Entries Value) (table : String) (given : Entries Value) : Prop :=
  ∀ name, given.get? name = given? data table name

theorem readsIf_sectionOf (data : Entries Value) (table : String) :
    ReadsIf data (∀ v, data.get? table = some v → ∃ given, v = .table given) (IsGiven data table)
      (sectionOf data table) := by
  cases h : data.get? table with
  | none =>
    have hsection : sectionOf data table = .ok [] := by rw [sectionOf, h]
    rw [hsection]
    exact .ok (by simp) fun name => by rw [given?, h]; rfl
  | some v =>
    cases v with
    | table given =>
      have hsection : sectionOf data table = .ok given := by rw [sectionOf, h]
      rw [hsection]
      exact .ok (by simp) fun name => by rw [given?, h]
    | _ =>
      have hsection : sectionOf data table = .error (.notATable table) := by rw [sectionOf, h]
      rw [hsection]
      exact .report (by simp) rfl

theorem readsIf_checkNames {table : String} (hgiven : IsGiven data table given)
    (known : List String) :
    ReadsIf data (∀ name v, given? data table name = some v → name ∈ known) (fun _ => True)
      (checkNames given known table) := by
  have hnames : (∀ name v, given? data table name = some v → name ∈ known) ↔
      ∀ name ∈ given.keys, name ∈ known := by
    constructor
    · intro h name hname
      obtain ⟨v, hv⟩ := Entries.exists_get?_of_mem_keys hname
      exact h name v (hgiven name ▸ hv)
    · intro h name v hv
      exact h name (Entries.mem_keys_of_get? ((hgiven name).trans hv))
  refine ReadsIf.congr ?_ hnames.symm
  by_cases hknown : ∀ name ∈ given.keys, name ∈ known
  · rw [checkNames_eq_ok.mpr hknown]
    exact .ok hknown trivial
  · rcases reports_or_checkNames given known table with hreports | ⟨a, hok⟩
    · exact .inr ⟨hknown, .inl hreports⟩
    · exact absurd (checkNames_eq_ok.mp hok) hknown

/-- The sigil is the one that is given, or the standard one, and has one item. -/
theorem readsIf_readSigil (hgiven : IsGiven data "build" given) :
    ReadsIf data (∀ v, given? data "build" "sigil" = some v → sizeOf? v = some 1)
      (fun sigil => sizeOf? sigil = some 1 ∧
        sigil = (given? data "build" "sigil").getD (.text standardSigil))
      (readSigil given) := by
  simp only [readSigil, hgiven "sigil"]
  cases h : given? data "build" "sigil" with
  | none => exact .ok (by simp) ⟨rfl, rfl⟩
  | some v =>
    simp only [Option.getD_some, Option.some.injEq, forall_eq']
    cases hsize : sizeOf? v with
    | none => exact .inr ⟨by simp, .inr ⟨.wrongKind, rfl, .unsized h hsize⟩⟩
    | some n =>
      by_cases hn : n = 1
      · subst hn
        exact .ok rfl ⟨hsize, rfl⟩
      · have hone : sizeOf? v ≠ some 1 := by simpa [hsize] using hn
        split
        · exact absurd (Option.some.inj ‹some n = some 1›) hn
        · exact .shown (by simpa using hn) (fun _ => rfl) fun htext => .sigil h hone htext
        · cases ‹some n = none›

theorem ofName?_name (policy : ScalarPolicy) :
    ScalarPolicy.ofName? policy.name = some policy := by cases policy <;> rfl

theorem readsIf_readPolicy (hgiven : IsGiven data "build" given) :
    ReadsIf data (∀ v, given? data "build" "scalar_children" = some v →
      ∃ policy : ScalarPolicy, v = .text policy.name) (fun _ => True) (readPolicy given) := by
  rw [readPolicy, hgiven "scalar_children"]
  cases h : given? data "build" "scalar_children" with
  | none => exact .ok (by simp) trivial
  | some v =>
    simp only [Option.some.injEq, forall_eq']
    by_cases hname : ∃ policy : ScalarPolicy, v = .text policy.name
    · obtain ⟨policy, rfl⟩ := hname
      simp only [ofName?_name]
      exact .ok ⟨policy, rfl⟩ trivial
    · split
      · cases ‹some v = none›
      · cases ‹some v = some _›
        split
        · exact absurd ⟨_, congrArg Value.text (name_of_ofName? ‹_›)⟩ hname
        · exact .report hname rfl
      · exact .report hname rfl

theorem readsIf_readFlag (hgiven : IsGiven data "page" given) {name : String}
    (hname : name ∈ flagNames) (standard : Bool) :
    ReadsIf data (∀ v, given? data "page" name = some v → ∃ flag, v = .bool flag) (fun _ => True)
      (readFlag given "page" name standard) := by
  rw [readFlag, hgiven name]
  cases h : given? data "page" name with
  | none => exact .ok (by simp) trivial
  | some v =>
    simp only [Option.some.injEq, forall_eq']
    split
    · cases ‹some v = none›
    · cases ‹some v = some _›
      exact .ok ⟨_, rfl⟩ trivial
    · cases ‹some v = some _›
      refine .shown ?_ (fun _ => rfl) fun htext => .flag hname h htext
      rintro ⟨flag, rfl⟩
      exact ‹∀ b, Value.bool flag = .bool b → False› flag rfl

theorem mapM_text (texts : List String) :
    (texts.map Value.text).mapM Value.text? = some texts := by
  induction texts with
  | nil => rfl
  | cons text texts ih => simp [ih, Value.text?]

theorem readsIf_readTexts (hgiven : IsGiven data "page" given) (name : String) :
    ReadsIf data (∀ v, given? data "page" name = some v →
      ∃ texts : List String, v = .list (texts.map .text)) (fun _ => True)
      (readTexts given "page" name) := by
  simp only [readTexts, hgiven name]
  cases h : given? data "page" name with
  | none => exact .ok (by simp) trivial
  | some v =>
    simp only [Option.some.injEq, forall_eq']
    by_cases htexts : ∃ texts : List String, v = .list (texts.map .text)
    · obtain ⟨texts, rfl⟩ := htexts
      simp only [mapM_text]
      exact .ok ⟨texts, rfl⟩ trivial
    · split
      · cases ‹some v = none›
      · cases ‹some v = some _›
        split
        · exact absurd ⟨_, congrArg Value.list (eq_map_text ‹_›)⟩ htexts
        · exact .report htexts rfl
      · exact .report htexts rfl

end

/-! ## All settings -/

/-- What is asked of the settings, in the order of the checks. -/
theorem acceptable_iff {data : Entries Value} : Acceptable data ↔
    (∀ v, data.get? "build" = some v → ∃ given, v = .table given) ∧
    (∀ v, data.get? "page" = some v → ∃ given, v = .table given) ∧
    (∀ v, data.get? "runtime" = some v → ∃ given, v = .table given) ∧
    (∀ name v, given? data "build" name = some v → name ∈ buildNames) ∧
    (∀ name v, given? data "page" name = some v → name ∈ pageNames) ∧
    (∀ name v, given? data "runtime" name = some v → name ∈ runtimeNames) ∧
    (∀ v, given? data "build" "sigil" = some v → sizeOf? v = some 1) ∧
    (∀ v, given? data "build" "scalar_children" = some v →
      ∃ policy : ScalarPolicy, v = .text policy.name) ∧
    (∀ v, given? data "page" "inline_scripts" = some v → ∃ flag, v = .bool flag) ∧
    (∀ v, given? data "page" "inline_styles" = some v → ∃ flag, v = .bool flag) ∧
    (∀ v, given? data "page" "scripts" = some v →
      ∃ texts : List String, v = .list (texts.map .text)) := by
  constructor
  · intro h
    exact ⟨h.table "build" (by decide), h.table "page" (by decide), h.table "runtime" (by decide),
      h.names "build" (by decide), h.names "page" (by decide), h.names "runtime" (by decide),
      h.sigil, h.policy, h.flags "inline_scripts" (by decide), h.flags "inline_styles" (by decide),
      h.scripts⟩
  · rintro ⟨hbuild, hpage, hruntime, hbuildNames, hpageNames, hruntimeNames, hsigil, hpolicy,
      hinlineScripts, hinlineStyles, hscripts⟩
    refine ⟨⟨?_, ?_⟩, hsigil, hpolicy, ?_, hscripts⟩
    · simp only [tables, List.forall_mem_cons]
      exact ⟨hbuild, hpage, hruntime, List.forall_mem_nil _⟩
    · simp only [tables, List.forall_mem_cons]
      exact ⟨hbuildNames, hpageNames, hruntimeNames, List.forall_mem_nil _⟩
    · simp only [flagNames, List.forall_mem_cons]
      exact ⟨hinlineScripts, hinlineStyles, List.forall_mem_nil _⟩

/-- **Settings are read exactly if they are acceptable.** -/
theorem readsIf_ofEntries (data : Entries Value) :
    ReadsIf data (Acceptable data) (fun s => sizeOf? s.sigil = some 1 ∧
      s.sigil = (given? data "build" "sigil").getD (.text standardSigil)) (ofEntries data) := by
  refine ReadsIf.congr ?_ acceptable_iff.symm
  simp only [ofEntries]
  refine (readsIf_sectionOf data "build").bind fun build hbuild => ?_
  refine (readsIf_sectionOf data "page").bind fun page hpage => ?_
  refine (readsIf_sectionOf data "runtime").bind fun runtime hruntime => ?_
  refine (readsIf_checkNames hbuild _).bind fun _ _ => ?_
  refine (readsIf_checkNames hpage _).bind fun _ _ => ?_
  refine (readsIf_checkNames hruntime _).bind fun _ _ => ?_
  refine (readsIf_readSigil hbuild).bind fun sigil hsigil => ?_
  refine (readsIf_readPolicy hbuild).bind fun policy _ => ?_
  refine (readsIf_readFlag hpage (by decide) _).bind fun inlineScripts _ => ?_
  refine (readsIf_readFlag hpage (by decide) _).bind fun inlineStyles _ => ?_
  exact (readsIf_readTexts hpage "scripts").map fun scripts _ => hsigil

theorem Tabled.exists_given {data : Entries Value} (h : Tabled data) {table : String}
    (htable : table ∈ tables) : ∃ given, sectionOf data table = .ok given ∧
      IsGiven data table given ∧ checkNames given (knownNames table) table = .ok () := by
  obtain ⟨given, hsection, hgiven⟩ := (readsIf_sectionOf data table).exists_ok
    (h.table table htable)
  obtain ⟨_, hnames, _⟩ := (readsIf_checkNames hgiven (knownNames table)).exists_ok
    (h.names table htable)
  exact ⟨given, hsection, hgiven, hnames⟩

/-- Where the tables are right, the first thing that is asked for is the size of the sigil. -/
theorem ofEntries_of_unsized {data : Entries Value} (h : Tabled data) {v : Value}
    (hgiven : given? data "build" "sigil" = some v) (hsize : sizeOf? v = none) :
    ofEntries data = .error .wrongKind := by
  obtain ⟨build, hbuild, hget, hbuildNames⟩ := h.exists_given (show "build" ∈ tables by decide)
  obtain ⟨page, hpage, _, hpageNames⟩ := h.exists_given (show "page" ∈ tables by decide)
  obtain ⟨runtime, hruntime, _, hruntimeNames⟩ :=
    h.exists_given (show "runtime" ∈ tables by decide)
  change checkNames build buildNames "build" = .ok () at hbuildNames
  change checkNames page pageNames "page" = .ok () at hpageNames
  change checkNames runtime runtimeNames "runtime" = .ok () at hruntimeNames
  have hsigil : readSigil build = .error .wrongKind := by
    simp only [readSigil, hget "sigil", hgiven, Option.getD_some, hsize]
  simp only [ofEntries, hbuild, hpage, hruntime, hbuildNames, hpageNames, hruntimeNames, hsigil,
    bind, Except.bind]

theorem exists_char_of_sizeOf? {text : String} (h : sizeOf? (.text text) = some 1) :
    ∃ c, text = String.singleton c := by
  have hlength : text.toList.length = 1 := by simpa [sizeOf?, String.length_toList] using h
  obtain ⟨c, hc⟩ := List.length_eq_one_iff.mp hlength
  exact ⟨c, String.toList_inj.mp (by simpa using hc)⟩

/-- There is no slip where the sigil is a text, or not given, and the flags can be written. -/
theorem not_slips {data : Entries Value}
    (hsigil : ∀ v, given? data "build" "sigil" = some v → ∃ text, v = .text text)
    (hflags : ∀ name ∈ flagNames, ∀ v, given? data "page" name = some v → v.hasText = true)
    (fault : Fault) : ¬ Slips data fault := by
  intro h
  cases h with
  | unsized hv hsize =>
    obtain ⟨text, rfl⟩ := hsigil _ hv
    cases hsize
  | sigil hv _ htext =>
    obtain ⟨text, rfl⟩ := hsigil _ hv
    cases htext
  | flag hname hv htext => exact absurd ((hflags _ hname _ hv).symm.trans htext) (by decide)

/-- **Settings that cannot be used are reported.** Where the sigil is a text, or not given, and the
flags can be written, settings are read and the sigil is one character, or they are reported. In
general, settings are read exactly if they are acceptable, with the sigil that was given; it has
one item, and need not be a text. A fault that is no report on the settings is a slip, and a sigil
without a size always is one, once the tables and their names are right. -/
theorem ofValue_reported {data : Value} {es : Entries Value} (hdata : data.entries? = some es) :
    ((∀ v, given? es "build" "sigil" = some v → ∃ text, v = .text text) →
      (∀ name ∈ flagNames, ∀ v, given? es "page" name = some v → v.hasText = true) →
      (∃ s c, ofValue data = .ok s ∧ s.sigil = .text (String.singleton c)) ∨
        Reports .settings (ofValue data)) ∧
    ((∃ s, ofValue data = .ok s) ↔ Acceptable es) ∧
    (∀ s, ofValue data = .ok s → sizeOf? s.sigil = some 1 ∧
      s.sigil = (given? es "build" "sigil").getD (.text standardSigil)) ∧
    (∀ fault, ofValue data = .error fault →
      Reports .settings (ofValue data) ∨ Slips es fault) ∧
    (Tabled es → ∀ v, given? es "build" "sigil" = some v → sizeOf? v = none →
      ofValue data = .error .wrongKind) := by
  have hof : ofValue data = ofEntries es := by rw [ofValue, hdata]
  have hreads := readsIf_ofEntries es
  rw [hof]
  refine ⟨fun hsigil hflags => ?_, ?_, fun s hs => (hreads.of_ok hs).2,
    fun fault hfault => hreads.of_error hfault, fun h v hv hsize => ofEntries_of_unsized h hv hsize⟩
  · rcases hreads with ⟨_, s, hs, hsize, hgiven⟩ | ⟨_, hreports | ⟨fault, _, hslips⟩⟩
    · obtain ⟨text, htext⟩ : ∃ text, s.sigil = .text text := by
        cases hv : given? es "build" "sigil" with
        | none => exact ⟨standardSigil, by rw [hgiven, hv, Option.getD_none]⟩
        | some v =>
          obtain ⟨text, rfl⟩ := hsigil v hv
          exact ⟨text, by rw [hgiven, hv, Option.getD_some]⟩
      rw [htext] at hsize
      obtain ⟨c, rfl⟩ := exists_char_of_sizeOf? hsize
      exact .inl ⟨s, c, hs, htext⟩
    · exact .inr hreports
    · exact absurd hslips (not_slips hsigil hflags fault)
  · constructor
    · rintro ⟨s, hs⟩
      exact (hreads.of_ok hs).1
    · intro h
      obtain ⟨s, hs, _⟩ := hreads.exists_ok h
      exact ⟨s, hs⟩

/-- A sigil of one character is read, a flag that is a text is reported, and a sigil that is a
number is not. -/
theorem ofValue_reported_kinds :
    let data (sigil flag : Value) : Value :=
      .table [("build", .table [("sigil", sigil)]), ("page", .table [("inline_styles", flag)])]
    (∃ s c, ofValue (data (.text "%") (.bool true)) = .ok s ∧
      s.sigil = .text (String.singleton c)) ∧
    Reports .settings (ofValue (data (.text "%") (.text "yes"))) ∧
    ofValue (data (.int 5) (.bool true)) = .error .wrongKind := by
  intro data
  have hreported (sigil flag : Value) :=
    ofValue_reported (rfl : (data sigil flag).entries? = some _)
  refine ⟨?_, ?_, ?_⟩
  · obtain hread | ⟨fault, hfault, _⟩ := (hreported (.text "%") (.bool true)).1
      (by simp [given?, Entries.get?_cons])
      (by simp [given?, flagNames, Entries.get?_cons, Value.hasText, Scalar.isWritable])
    · exact hread
    · cases hfault
  · obtain ⟨s, c, hs, _⟩ | hreports := (hreported (.text "%") (.text "yes")).1
      (by simp [given?, Entries.get?_cons])
      (by simp [given?, flagNames, Entries.get?_cons, Value.hasText, Scalar.isWritable])
    · cases hs
    · exact hreports
  · refine (hreported (.int 5) (.bool true)).2.2.2.2 ⟨?_, ?_⟩ (.int 5) rfl rfl
    · simp [tables, Entries.get?_cons]
    · simp [tables, given?, Entries.get?_cons, knownNames, namesOf, fields]

/-- A flag that cannot be written cannot be shown in a report. -/
theorem readFlag_of_unwritable {table name : String} {v : Value} {standard : Bool}
    (h : v.hasText = false) : readFlag [(name, v)] table name standard = .error .wrongValue := by
  simp only [readFlag, Entries.get?_cons, if_true]
  split
  · cases ‹some v = none›
  · cases ‹some v = some _›
    cases h
  · cases ‹some v = some _›
    rw [quotedText_of_unwritable h]
    rfl

/-- A sigil that is a number gives no report, and neither does a flag that is too long a number. A
list of one text is taken for a sigil. -/
theorem sigil_unchecked :
    let data (sigil : Value) : Value := .table [("build", .table [("sigil", sigil)])]
    let page (flag : Value) : Value := .table [("page", .table [("inline_styles", flag)])]
    (ofValue (data (.int 5)) = .error .wrongKind ∧ Fault.report? .wrongKind = none) ∧
      (∃ s, ofValue (data (.list [.text "$"])) = .ok s ∧ s.sigil = .list [.text "$"]) ∧
      ofValue (page (.int Value.longInteger)) = .error .wrongValue ∧
        Fault.report? .wrongValue = none := by
  intro data page
  have hflag (v : Value) (h : v.hasText = false) : ofValue (page v) = .error .wrongValue := by
    change Except.bind (readFlag [("inline_styles", v)] "page" "inline_styles" false) _ = _
    rw [readFlag_of_unwritable h]
    rfl
  exact ⟨⟨rfl, rfl⟩, ⟨_, rfl, rfl⟩, hflag _ (by decide +kernel), rfl⟩

end Pageloom.Settings
