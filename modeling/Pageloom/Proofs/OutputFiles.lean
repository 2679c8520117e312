import Pageloom.Proofs.Closure
import Pageloom.Proofs.Cycles
import Pageloom.Proofs.Writing

/-!
# Files of the output

A build writes the page, the client script and the style sheet under fixed
names, the script of a component under its key in a directory of its own, and
every helper script under the name it was found by. Keys are distinct because a
collection has each of them once, and the names of helper scripts are checked
one by one as they are read. So no file is written twice.

## Main definitions

* `Pageloom.AllFree` -- names that helper scripts can have together
* `Pageloom.Files.listed`, `Pageloom.Files.lookedUp` -- the files among listed paths
* `Pageloom.Files.Gathers` -- what reading helper scripts ends with
* `Pageloom.Artifacts.outputs` -- artifacts by the ways to them
* `Pageloom.Artifacts.Apart` -- what keeps the files of artifacts apart
-/

namespace Pageloom

/-! ## Helper scripts -/

/-- The text of the file that a path leads to. -/
def Spot.text? : Spot → Option String
  | .taken _ (.file text) => some text
  | _ => none

theorem Spot.place?_of_text? {spot : Spot} {text : String} (h : spot.text? = some text) :
    ∃ place, spot.place? = some place := by
  cases spot with
  | taken place content =>
    cases content with
    | file text => exact ⟨place, rfl⟩
    | directory => cases h
  | _ => cases h

/-- Names that files can have all at once, beside those that a build makes. -/
def AllFree (names : List String) : Prop := names.Nodup ∧ ∀ name ∈ names, name ∉ reservedNames

theorem allFree_nil : AllFree [] := ⟨List.nodup_nil, List.forall_mem_nil _⟩

theorem allFree_append_cons {before after : List String} {name : String}
    (h : AllFree (before ++ name :: after)) :
    AllFree (before ++ [name]) ∧ name ∉ before ∧ name ∉ reservedNames := by
  have hsub : (before ++ [name]).Sublist (before ++ name :: after) := by simp
  have hfree : AllFree (before ++ [name]) :=
    ⟨hsub.nodup h.1, fun other hother => h.2 other (hsub.subset hother)⟩
  refine ⟨hfree, ?_, hfree.2 name (by simp)⟩
  intro hmem
  exact (List.nodup_append.mp hfree.1).2.2 name hmem name (by simp) rfl

theorem allFree_concat {before : List String} {name : String} (h : AllFree before)
    (hnew : name ∉ before) (hreserved : name ∉ reservedNames) : AllFree (before ++ [name]) := by
  constructor
  · rw [List.nodup_append]
    refine ⟨h.1, List.pairwise_singleton _ _, fun a ha b hb => ?_⟩
    rintro rfl
    exact hnew (List.mem_singleton.mp hb ▸ ha)
  · intro other hother
    rcases List.mem_append.mp hother with hother | hother
    · exact h.2 other hother
    · exact List.mem_singleton.mp hother ▸ hreserved

theorem exists_clash {before names : List String} (h : AllFree before)
    (hnot : ¬ AllFree (before ++ names)) :
    ∃ mid name after, names = mid ++ name :: after ∧
      (name ∈ before ++ mid ∨ name ∈ reservedNames) := by
  induction names generalizing before with
  | nil => exact absurd (by simpa using h) hnot
  | cons name rest ih =>
    by_cases hclash : name ∈ before ∨ name ∈ reservedNames
    · exact ⟨[], name, rest, rfl, by simpa using hclash⟩
    · rw [not_or] at hclash
      obtain ⟨mid, other, after, hsplit, hother⟩ :=
        ih (allFree_concat h hclash.1 hclash.2) (by simpa using hnot)
      exact ⟨name :: mid, other, after, by simp [hsplit], by simpa using hother⟩

/-- Names are not free exactly if one of them is reserved or stands before, too. -/
theorem not_allFree_iff {names : List String} :
    ¬ AllFree names ↔ ∃ before name after, names = before ++ name :: after ∧
      (name ∈ before ∨ name ∈ reservedNames) := by
  constructor
  · exact exists_clash allFree_nil
  · rintro ⟨before, name, after, rfl, h⟩ hfree
    obtain ⟨_, hnew, hreserved⟩ := allFree_append_cons hfree
    exact h.elim hnew hreserved

namespace Files

variable {f : Files} {assets : Entries String} {notices : List Notice} {paths : List String}
  {p : Path} {raw text : String} {r : Except Fault (Entries String)}

/-- The files among listed paths, by name, with the texts that are read. -/
def listed (f : Files) (paths : List String) : Entries String :=
  paths.filterMap fun raw => (f.locate (.ofText raw)).text?.map fun text =>
    ((Path.ofText raw).name, Text.normalizeLineEnds text)

/-- The listed paths before the first that is too long to be looked up. -/
def lookedUp (f : Files) (paths : List String) : List String :=
  paths.takeWhile fun raw => f.locate (.ofText raw) ≠ .tooLong

theorem ne_tooLong_of_text? (h : (f.locate p).text? = some text) : f.locate p ≠ .tooLong := by
  intro hspot
  rw [hspot] at h
  cases h

theorem lookedUp_cons (h : f.locate (.ofText raw) ≠ .tooLong) (paths : List String) :
    f.lookedUp (raw :: paths) = raw :: f.lookedUp paths := by
  simp [lookedUp, h]

theorem listed_cons_of_none (h : (f.locate (.ofText raw)).text? = none) (paths : List String) :
    f.listed (raw :: paths) = f.listed paths := by
  simp [listed, h]

theorem listed_cons_of_some (h : (f.locate (.ofText raw)).text? = some text)
    (paths : List String) : f.listed (raw :: paths) =
      ((Path.ofText raw).name, Text.normalizeLineEnds text) :: f.listed paths := by
  simp [listed, h]

/-- What reading helper scripts after others ends with: all are read, or one before the first clash
is too long to be looked up, or names clash. -/
inductive Gathers (f : Files) (assets : Entries String) (paths : List String) :
    Except Fault (Entries String) → Prop
  | all (hfree : AllFree (assets.keys ++ (f.listed (f.lookedUp paths)).keys))
      (hall : f.lookedUp paths = paths) : Gathers f assets paths (.ok (assets ++ f.listed paths))
  | tooLong (hfree : AllFree (assets.keys ++ (f.listed (f.lookedUp paths)).keys))
      (hsome : f.lookedUp paths ≠ paths) (path : String) :
      Gathers f assets paths (.error (.nameTooLong path))
  | clash (hclash : ¬ AllFree (assets.keys ++ (f.listed (f.lookedUp paths)).keys)) (fault : Fault)
      (hfault : fault.report?.map Report.family = some .build) :
      Gathers f assets paths (.error fault)

namespace Gathers

/-- A path that leads to no file is passed over. -/
theorem skip (hlong : f.locate (.ofText raw) ≠ .tooLong)
    (htext : (f.locate (.ofText raw)).text? = none) (h : f.Gathers assets paths r) :
    f.Gathers assets (raw :: paths) r := by
  have hlooked := lookedUp_cons hlong paths
  have hlisted := listed_cons_of_none htext
  cases h with
  | all hfree hall =>
    rw [← hlisted]
    exact .all (by rwa [hlooked, hlisted]) (by rw [hlooked, hall])
  | tooLong hfree hsome path =>
    exact .tooLong (by rwa [hlooked, hlisted]) (by simpa [hlooked] using hsome) path
  | clash hclash fault hfault => exact .clash (by rwa [hlooked, hlisted]) fault hfault

/-- A file is read, and comes after those read before. -/
theorem take (htext : (f.locate (.ofText raw)).text? = some text)
    (h : f.Gathers (assets ++ [((Path.ofText raw).name, Text.normalizeLineEnds text)]) paths r) :
    f.Gathers assets (raw :: paths) r := by
  have hlooked := lookedUp_cons (ne_tooLong_of_text? htext) paths
  have hlisted := listed_cons_of_some htext
  have hkeys (more : List String) :
      (assets ++ [((Path.ofText raw).name, Text.normalizeLineEnds text)]).keys ++
        (f.listed more).keys = assets.keys ++ (f.listed (raw :: more)).keys := by
    simp [hlisted]
  cases h with
  | all hfree hall =>
    rw [List.append_assoc, List.singleton_append, ← hlisted]
    exact .all (by rwa [hlooked, ← hkeys]) (by rw [hlooked, hall])
  | tooLong hfree hsome path =>
    exact .tooLong (by rwa [hlooked, ← hkeys]) (by simpa [hlooked] using hsome) path
  | clash hclash fault hfault => exact .clash (by rwa [hlooked, ← hkeys]) fault hfault

/-- A file whose name is not free ends the reading. -/
theorem stop (htext : (f.locate (.ofText raw)).text? = some text)
    (hname : (Path.ofText raw).name ∈ assets.keys ∨ (Path.ofText raw).name ∈ reservedNames)
    {fault : Fault} (hfault : fault.report?.map Report.family = some .build) :
    f.Gathers assets (raw :: paths) (.error fault) := by
  refine .clash (fun hfree => ?_) fault hfault
  rw [lookedUp_cons (ne_tooLong_of_text? htext), listed_cons_of_some htext,
    Entries.keys_cons] at hfree
  obtain ⟨_, hnew, hreserved⟩ := allFree_append_cons hfree
  exact hname.elim hnew hreserved

/-- A path that is too long ends the reading. -/
theorem halt (hlong : f.locate (.ofText raw) = .tooLong) (hassets : AllFree assets.keys)
    {path : String} : f.Gathers assets (raw :: paths) (.error (.nameTooLong path)) := by
  have hlooked : f.lookedUp (raw :: paths) = [] := by simp [lookedUp, hlong]
  exact .tooLong (by simpa [hlooked, listed] using hassets) (by simp [hlooked]) path

end Gathers

theorem isFile_eq_true (h : f.isFile p = .ok true) :
    ∃ text, (f.locate p).text? = some text ∧ f.read p = .ok (Text.normalizeLineEnds text) := by
  unfold isFile at h
  split at h
  · rename_i text hspot
    exact ⟨text, by simp [hspot, Spot.text?], by simp [read, readShown, hspot]⟩
  · cases h
  · cases h

theorem isFile_eq_false (h : f.isFile p = .ok false) :
    f.locate p ≠ .tooLong ∧ (f.locate p).text? = none := by
  unfold isFile at h
  split at h
  · cases h
  · cases h
  · rename_i hfile hlong
    refine ⟨hlong, ?_⟩
    unfold Spot.text?
    split
    · exact absurd ‹_› (hfile _ _)
    · rfl

theorem isFile_eq_error {fault : Fault} (h : f.isFile p = .error fault) :
    f.locate p = .tooLong ∧ fault = .nameTooLong p.text := by
  unfold isFile at h
  split at h
  · cases h
  · cases h
    exact ⟨‹_›, rfl⟩
  · cases h

/-- Reading helper scripts after others. The names read so far are free, which the checks keep. -/
theorem helperScriptsAfter_gathers (hassets : AllFree assets.keys) (notices : List Notice) :
    f.Gathers assets paths (f.helperScriptsAfter assets notices paths).2 := by
  fun_induction helperScriptsAfter f assets notices paths with
  | case1 assets notices =>
    have hnil : f.Gathers assets [] (.ok (assets ++ [])) :=
      .all (by simpa [listed, lookedUp] using hassets) rfl
    simpa using hnil
  | case2 assets notices raw rest path fault hfile =>
    obtain ⟨hlong, rfl⟩ := isFile_eq_error hfile
    exact .halt hlong hassets
  | case3 assets notices raw rest path hfile ih =>
    obtain ⟨hlong, htext⟩ := isFile_eq_false hfile
    exact (ih hassets).skip hlong htext
  | case4 assets notices raw rest path hfile hhas =>
    obtain ⟨text, htext, _⟩ := isFile_eq_true hfile
    exact .stop htext (.inl (Entries.has_iff_mem_keys.mp hhas)) rfl
  | case5 assets notices raw rest path hfile hhas hreserved =>
    obtain ⟨text, htext, _⟩ := isFile_eq_true hfile
    exact .stop htext (.inr (List.contains_iff_mem.mp hreserved)) rfl
  | case6 assets notices raw rest path hfile hhas hreserved text hread ih =>
    obtain ⟨raw', htext, hread'⟩ := isFile_eq_true hfile
    cases hread'.symm.trans hread
    have hnew := mt Entries.has_iff_mem_keys.mpr hhas
    rw [Entries.set_of_notMem hnew] at ih ⊢
    refine .take htext (ih ?_)
    simpa using allFree_concat hassets hnew (mt List.contains_iff_mem.mpr hreserved)
  | case7 assets notices raw rest path hfile hhas hreserved fault hread =>
    obtain ⟨text, _, hread'⟩ := isFile_eq_true hfile
    cases hread'.symm.trans hread

theorem helperScripts_gathers (f : Files) (paths : List String) :
    f.Gathers [] paths (f.helperScripts paths).2 := by
  rw [helperScripts]
  have hnil : AllFree (Entries.keys ([] : Entries String)) := allFree_nil
  exact helperScriptsAfter_gathers hnil []

/-- Helper scripts are refused exactly if the names of files that were looked up clash. -/
theorem reports_helperScripts_iff (f : Files) (paths : List String) :
    Reports .build (f.helperScripts paths).2 ↔ ¬ AllFree (f.listed (f.lookedUp paths)).keys := by
  have h := f.helperScripts_gathers paths
  generalize (f.helperScripts paths).2 = r at h
  constructor
  · rintro ⟨fault, rfl, hfault⟩
    cases h with
    | tooLong => cases hfault
    | clash hclash => exact hclash
  · intro hnot
    cases h with
    | all hfree => exact absurd hfree hnot
    | tooLong hfree => exact absurd hfree hnot
    | clash _ fault hfault => exact ⟨fault, rfl, hfault⟩

/-- Files have the names that are found at the ends of their paths. -/
theorem isName_of_mem_listed {name : String} (h : name ∈ (f.listed paths).keys) :
    Path.IsName name := by
  simp only [listed, Entries.keys, List.mem_map, List.mem_filterMap, Option.map_eq_some_iff] at h
  obtain ⟨_, ⟨raw, _, text, htext, rfl⟩, rfl⟩ := h
  obtain ⟨place, hplace⟩ := Spot.place?_of_text? htext
  obtain ⟨last, hlast, hup⟩ := (leads_of_locate hplace).exists_last
  have hname : (Path.ofText raw).name = last := by rw [Path.name, hlast, Option.getD_some]
  rw [hname]
  exact Path.isName_of_mem_names (List.mem_of_getLast? hlast) hup

theorem helperScripts_eq_ok (h : (f.helperScripts paths).2 = .ok assets) :
    assets = f.listed paths ∧ AllFree assets.keys := by
  have hgathers := f.helperScripts_gathers paths
  rw [h] at hgathers
  cases hgathers with
  | all hfree hall =>
    rw [hall] at hfree
    exact ⟨rfl, hfree⟩

/-- A name that is too long is not looked up. -/
theorem locate_of_long {name : String} (h : Path.IsName name) (hnull : '\x00' ∉ name.toList)
    (hlong : nameLimit < name.utf8ByteSize) : f.locate (.ofText name) = .tooLong := by
  rw [Path.ofText_of_isName h]
  have htext : (Path.mk "" [name]).text = name := by simp [Path.text, Text.join]
  simp [locate, htext, hnull, locateFrom, h.2.2.1, hlong]

end Files

/-! ## Where artifacts go -/

namespace Artifacts

variable {a : Artifacts}

/-- Artifacts by the names that lead to them from the output. -/
def outputs (a : Artifacts) : List (List String × String) :=
  [(["index.html"], a.html), (["runtime.js"], a.client)] ++
    (if a.css = "" then [] else [(["styles.css"], a.css ++ "\n")]) ++
    a.scripts.map (fun e => (["components", e.1 ++ ".js"], e.2)) ++
    a.assets.map fun e => ([e.1], e.2)

/-- The names of the artifacts at the top of the output. -/
def topNames (a : Artifacts) : List String :=
  ["index.html", "runtime.js"] ++ if a.css = "" then [] else ["styles.css"]

theorem topNames_sublist : a.topNames.Sublist reservedNames := by
  unfold topNames
  split <;> decide

theorem isName_of_mem_reservedNames : ∀ name ∈ reservedNames, Path.IsName name := by decide

theorem isName_script {key : String} (h : '/' ∉ key.toList) : Path.IsName (key ++ ".js") := by
  have hlast (s : String) (hs : s.toList.getLast? ≠ some 's') : key ++ ".js" ≠ s := by
    rintro rfl
    exact hs (by simp)
  refine ⟨hlast _ (by decide), hlast _ (by decide), hlast _ (by decide), ?_⟩
  simp [h]

theorem map_fst_outputs (a : Artifacts) : a.outputs.map Prod.fst =
    a.topNames.map (fun name => [name]) ++
      a.scripts.keys.map (fun key => ["components", key ++ ".js"]) ++
      a.assets.keys.map fun name => [name] := by
  simp only [outputs, topNames, Entries.keys, List.map_append, List.map_map, Function.comp_def]
  split <;> rfl

/-- What keeps the files of artifacts apart. -/
structure Apart (a : Artifacts) : Prop where
  scripts : a.scripts.keys.Nodup
  slash : ∀ key ∈ a.scripts.keys, '/' ∉ key.toList
  assets : AllFree a.assets.keys
  names : ∀ name ∈ a.assets.keys, Path.IsName name

namespace Apart

theorem plan_eq (h : a.Apart) (output : Path) :
    a.plan output = a.outputs.map fun e => (output.down e.1, e.2) := by
  have hcomponents : output.below "components" = output.down ["components"] :=
    Path.below_eq_down (by decide) output
  have hreserved : ∀ name ∈ reservedNames, output.below name = output.down [name] :=
    fun name hname => Path.below_eq_down (isName_of_mem_reservedNames name hname) output
  simp only [reservedNames, List.forall_mem_cons] at hreserved
  have hscript : ∀ e ∈ a.scripts, (output.below "components").below (e.1 ++ ".js") =
      output.down ["components", e.1 ++ ".js"] := by
    intro e he
    have hname := isName_script (h.slash e.1 (List.mem_map_of_mem he))
    rw [hcomponents, Path.below_eq_down hname, Path.down_down]
    rfl
  have hasset : ∀ e ∈ a.assets, output.below e.1 = output.down [e.1] :=
    fun e he => Path.below_eq_down (h.names e.1 (List.mem_map_of_mem he)) output
  simp only [plan, outputs, List.map_append, List.map_map, hreserved.1, hreserved.2.1,
    hreserved.2.2.1]
  congr 1
  · congr 1
    · split <;> rfl
    · exact List.map_congr_left fun e he => by simp [hscript e he]
  · exact List.map_congr_left fun e he => by simp [hasset e he]

/-- No two artifacts have the same way: those at the top have reserved names, scripts are one
directory further down, and helper scripts have names of their own. -/
theorem nodup_outputs (h : a.Apart) : (a.outputs.map Prod.fst).Nodup := by
  have hsingle {names : List String} (h : names.Nodup) : (names.map fun name => [name]).Nodup :=
    List.Pairwise.map _ (fun x y hne heq => hne (List.cons.inj heq).1) h
  rw [map_fst_outputs, List.nodup_append, List.nodup_append]
  refine ⟨⟨hsingle (topNames_sublist.nodup (by decide)), ?_, ?_⟩, hsingle h.assets.1, ?_⟩
  · exact List.Pairwise.map _ (fun x y hne heq => hne (by simpa using heq)) h.scripts
  · simp
  · simp only [List.mem_append, List.mem_map]
    rintro _ (⟨name, hname, rfl⟩ | ⟨key, _, rfl⟩) _ ⟨asset, hasset, rfl⟩ heq
    · cases heq
      exact h.assets.2 _ hasset (topNames_sublist.subset hname)
    · cases heq

theorem isName_of_mem_outputs (h : a.Apart) : ∀ e ∈ a.outputs, ∀ name ∈ e.1, Path.IsName name := by
  intro e he
  have hway : e.1 ∈ a.outputs.map Prod.fst := List.mem_map_of_mem he
  simp only [map_fst_outputs, List.mem_append, List.mem_map] at hway
  rcases hway with (⟨name, hname, heq⟩ | ⟨key, hkey, heq⟩) | ⟨name, hname, heq⟩ <;> rw [← heq]
  · rw [List.forall_mem_singleton]
    exact isName_of_mem_reservedNames name (topNames_sublist.subset hname)
  · rw [List.forall_mem_cons, List.forall_mem_singleton]
    exact ⟨by decide, isName_script (h.slash key hkey)⟩
  · rw [List.forall_mem_singleton]
    exact h.names name hname

theorem nodup_places (h : a.Apart) (output : Path) :
    ((a.plan output).map (·.1.place)).Nodup := by
  have hplaces : (a.plan output).map (·.1.place) =
      (a.outputs.map Prod.fst).map (output.place ++ ·) := by
    rw [h.plan_eq, List.map_map, List.map_map]
    refine List.map_congr_left fun e he => Path.place_down (fun name hname => ?_) output
    exact (h.isName_of_mem_outputs e he name hname).2.2.1
  rw [hplaces]
  exact List.Pairwise.map _ (fun x y hne heq => hne (List.append_cancel_left heq)) h.nodup_outputs

theorem nodup_paths (h : a.Apart) (output : Path) : ((a.plan output).map Prod.fst).Nodup := by
  have hplaces := List.pairwise_map.mp (h.nodup_places output)
  refine List.pairwise_map.mpr (hplaces.imp fun hne heq => hne ?_)
  rw [heq]

theorem stands (h : a.Apart) {output : Path} {target g : Files}
    (hwrite : a.write output target = (g, .ok ())) :
    ∀ e ∈ a.plan output, g.locate e.1 = .taken e.1.place (.file e.2) := by
  unfold write at hwrite
  split at hwrite
  · exact writeAll_stands hwrite (h.nodup_places output)
  · cases hwrite

end Apart

end Artifacts

theorem keys_of_mapM {α β ε : Type} {f : α → Except ε (String × β)} {name : α → String}
    {xs : List α} {es : Entries β} (hname : ∀ x e, f x = .ok e → e.1 = name x)
    (h : xs.mapM f = .ok es) : es.keys = xs.map name := by
  induction xs generalizing es with
  | nil =>
    cases h
    rfl
  | cons x xs ih =>
    obtain ⟨e, es, rfl, he, hes⟩ := mapM_cons_eq_ok h
    rw [Entries.keys_cons, List.map_cons, hname x e he, ih hes]

namespace Settings

variable {s : Settings} {components : List Component} {styles : Value} {files : Files}
  {notices : List Notice} {a : Artifacts}

/-- A component's key, with the script that registers its factory. -/
def scriptEntry (s : Settings) (c : Component) : Except Fault (String × String) :=
  (s.factory c.boundary c.body).map fun text => (c.boundary.key, componentScript text)

theorem keys_of_scripts {scripts : Entries String}
    (h : components.mapM s.scriptEntry = .ok scripts) :
    scripts.keys = components.map (·.boundary.key) := by
  refine keys_of_mapM (fun c e he => ?_) h
  unfold scriptEntry at he
  cases hfactory : s.factory c.boundary c.body with
  | error _ =>
    rw [hfactory] at he
    cases he
  | ok text =>
    rw [hfactory] at he
    cases he
    rfl

/-- The scripts and helper scripts that artifacts are made with. -/
theorem artifacts_parts (h : s.artifacts components styles files = (notices, .ok a))
    (hkeys : (components.map (·.boundary.key)).Nodup) :
    components.mapM s.scriptEntry = .ok a.scripts ∧
      (files.helperScripts s.scripts).2 = .ok a.assets := by
  cases components with
  | nil => cases h
  | cons root rest =>
    simp only [artifacts] at h
    split at h
    · cases h
    · rename_i hfirst
      obtain ⟨assets, hassets, h⟩ := except_bind_eq_ok.mp (congrArg Prod.snd h)
      obtain ⟨title, _, h⟩ := except_bind_eq_ok.mp h
      obtain ⟨calls, hcalls, h⟩ := except_bind_eq_ok.mp h
      obtain ⟨lang, _, h⟩ := except_bind_eq_ok.mp h
      obtain ⟨markup, _, hfirst⟩ := except_bind_eq_ok.mp hfirst
      obtain ⟨factories, hfactories, hfirst⟩ := except_bind_eq_ok.mp hfirst
      obtain ⟨base, _, hfirst⟩ := except_bind_eq_ok.mp hfirst
      obtain ⟨css, _, hfirst⟩ := except_bind_eq_ok.mp hfirst
      cases hfirst
      cases h
      refine ⟨?_, hassets⟩
      have hzip := mapM_zip hfactories (·.boundary.key) componentScript
      have hzipKeys := keys_of_scripts hzip
      rw [Entries.ofPairs, Entries.update_of_fresh (by rwa [hzipKeys]) (by simp)]
      exact hzip

end Settings

/-! ## Nothing is overwritten -/

namespace Program

end Program

end Pageloom
