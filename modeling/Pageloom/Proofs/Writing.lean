import Pageloom.Artifacts

/-!
# Writing files

Where a path leads depends on its names alone, as long as all of them but the
last are directories. A write changes what stands at one place and leaves every
directory a directory, so the ways to the files that were written before stay
open. Files that are written one after another to different places therefore
all stand in the end.

## Main definitions

* `Pageloom.Path.IsName`, `Pageloom.Path.down` -- names, and paths below a path
* `Pageloom.Files.KeepsDirectories` -- directories stay directories
* `Pageloom.Files.Leads` -- the way through directories to a place
-/

namespace Pageloom

namespace Path

/-! ## Names and places -/

theorem slash_notMem_pieces (cs : List Char) : ∀ piece ∈ pieces cs, '/' ∉ piece := by
  fun_induction pieces cs with
  | case1 => simp
  | case2 rest ih => simpa using ih
  | case3 c rest hc hnil ih => simp [Ne.symm hc]
  | case4 c rest hc p ps hps ih =>
    simp only [hps, List.forall_mem_cons] at ih
    simpa [Ne.symm hc, ih.1] using ih.2

theorem pieces_of_notMem {cs : List Char} (h : '/' ∉ cs) : pieces cs = [cs] := by
  induction cs with
  | nil => rfl
  | cons c cs ih =>
    simp only [List.mem_cons, not_or] at h
    simp [pieces, Ne.symm h.1, ih h.2]

theorem rootOf_of_notMem {cs : List Char} (h : '/' ∉ cs) : rootOf cs = "" := by
  unfold rootOf
  split <;> simp_all

/-- A text that names one file or directory, as seen from the directory it is in. -/
def IsName (s : String) : Prop := s ≠ "" ∧ s ≠ "." ∧ s ≠ ".." ∧ '/' ∉ s.toList

instance (s : String) : Decidable (IsName s) :=
  inferInstanceAs (Decidable (_ ∧ _ ∧ _ ∧ _))

/-- The path that names lead to from another one. -/
def down (p : Path) (names : List String) : Path := { p with names := p.names ++ names }

theorem down_down (p : Path) (names more : List String) :
    (p.down names).down more = p.down (names ++ more) := by simp [down]

theorem ofText_of_isName {s : String} (h : IsName s) : ofText s = ⟨"", [s]⟩ := by
  obtain ⟨hne, hdot, _, hslash⟩ := h
  simp [ofText, rootOf_of_notMem hslash, pieces_of_notMem hslash, hne, hdot]

theorem below_eq_down {s : String} (h : IsName s) (p : Path) : p.below s = p.down [s] := by
  simp [below, down, ofText_of_isName h]

theorem foldl_names {names : List String} (h : ∀ name ∈ names, name ≠ "..")
    (place : List String) :
    names.foldl (fun place name => if name = ".." then above place else place ++ [name]) place =
      place ++ names := by
  induction names generalizing place with
  | nil => simp
  | cons name names ih =>
    rw [List.forall_mem_cons] at h
    simp [h.1, ih h.2]

theorem place_down {names : List String} (h : ∀ name ∈ names, name ≠ "..") (p : Path) :
    (p.down names).place = p.place ++ names := by
  rw [down, place, List.foldl_append, foldl_names h]
  rfl

/-- The names of a path are names, double dots apart. -/
theorem isName_of_mem_names {text name : String} (h : name ∈ (ofText text).names)
    (hup : name ≠ "..") : IsName name := by
  simp only [ofText, List.mem_filter, List.mem_map, Bool.and_eq_true, decide_eq_true_eq] at h
  obtain ⟨⟨piece, hpiece, rfl⟩, hne, hdot⟩ := h
  refine ⟨hne, hdot, hup, ?_⟩
  rw [String.toList_ofList]
  exact slash_notMem_pieces _ piece hpiece

end Path

/-- The place where a file can be written: one that is free, or that has a file. -/
def Spot.place? : Spot → Option (List String)
  | .taken place (.file _) => some place
  | .free place => some place
  | _ => none

namespace Files

variable {f g : Files} {start names place : List String} {p : Path} {text : String}

/-! ## What one write changes -/

theorem lookup_cons (e : List String × Content) (entries : List (List String × Content))
    (q : List String) :
    (e :: entries).lookup q = if q = e.1 then some e.2 else entries.lookup q := by
  obtain ⟨here, c⟩ := e
  by_cases h : q = here
  · simp [h]
  · rw [List.lookup_cons, beq_eq_false_iff_ne.mpr h, if_neg h]

theorem lookup_map_put (entries : List (List String × Content)) (place q : List String)
    (c : Content) :
    (entries.map fun e => if e.1 = place then (place, c) else e).lookup q =
      if q = place then (entries.lookup place).map fun _ => c else entries.lookup q := by
  induction entries with
  | nil => simp
  | cons e entries ih =>
    rw [List.map_cons, lookup_cons, ih, lookup_cons, lookup_cons]
    by_cases hplace : e.1 = place
    · by_cases hq : q = place <;> simp [hplace, hq]
    · by_cases hq : q = place
      · simp [hplace, hq, Ne.symm hplace]
      · simp [hplace, hq]

theorem lookup_put (f : Files) (place q : List String) (c : Content) :
    (f.put place c).entries.lookup q = if q = place then some c else f.entries.lookup q := by
  unfold put
  cases hold : f.entries.lookup place with
  | some old => simp only [Option.isSome_some, if_true, lookup_map_put, hold, Option.map_some]
  | none =>
    simp only [Option.isSome_none, Bool.false_eq_true, if_false, List.lookup_append, lookup_cons]
    by_cases hq : q = place <;> simp [hq, hold]

/-- Only the place that was written has something else than before. -/
theorem content?_put (h : Path.isTop place = false) (f : Files) (c : Content) (q : List String) :
    (f.put place c).content? q = if q = place then some c else f.content? q := by
  unfold content?
  rw [lookup_put]
  by_cases hq : q = place
  · simp [hq, h]
  · simp [hq]

theorem isTop_of_content?_ne (h : f.content? place ≠ some .directory) :
    Path.isTop place = false := by
  rw [Bool.eq_false_iff]
  intro htop
  exact h (if_pos htop)

/-- Directories stay directories. -/
def KeepsDirectories (f g : Files) : Prop :=
  ∀ place, f.content? place = some .directory → g.content? place = some .directory

/-! ## The way to a file -/

/-- Names lead from a directory, through directories, to a place that is no directory. -/
inductive Leads (f : Files) : (start names place : List String) → Prop
  | up {start rest place : List String} (h : Leads f (Path.above start) rest place) :
      Leads f start (".." :: rest) place
  | into {start rest place : List String} {name : String} (hup : name ≠ "..")
      (hshort : ¬ nameLimit < name.utf8ByteSize)
      (hinto : f.content? (start ++ [name]) = some .directory)
      (h : Leads f (start ++ [name]) rest place) : Leads f start (name :: rest) place
  | last {start : List String} {name : String} (hup : name ≠ "..")
      (hshort : ¬ nameLimit < name.utf8ByteSize)
      (hlast : f.content? (start ++ [name]) ≠ some .directory) :
      Leads f start [name] (start ++ [name])

theorem leads_of_place? (h : (f.locateFrom start names).place? = some place) :
    f.Leads start names place := by
  induction names generalizing start with
  | nil => cases h
  | cons name rest ih =>
    simp only [locateFrom] at h
    split at h
    · subst_vars
      exact .up (ih h)
    · split at h
      · cases h
      · cases hnext : f.content? (start ++ [name]) with
        | none =>
          simp only [hnext] at h
          cases rest with
          | nil =>
            cases h
            exact .last ‹_› ‹_› (by simp [hnext])
          | cons _ _ => cases h
        | some content =>
          simp only [hnext] at h
          cases content with
          | directory => exact .into ‹_› ‹_› hnext (ih h)
          | file text =>
            cases rest with
            | nil =>
              cases h
              exact .last ‹_› ‹_› (by simp [hnext])
            | cons _ _ => cases h

namespace Leads

/-- The last name on the way is the name of the file. -/
theorem exists_last (h : f.Leads start names place) :
    ∃ name, names.getLast? = some name ∧ name ≠ ".." := by
  induction h with
  | up h ih | into _ _ _ h ih =>
    obtain ⟨name, hname, hup⟩ := ih
    exact ⟨name, by simp [List.getLast?_cons, hname], hup⟩
  | last hup => exact ⟨_, rfl, hup⟩

theorem content?_ne (h : f.Leads start names place) : f.content? place ≠ some .directory := by
  induction h with
  | up _ ih | into _ _ _ _ ih => exact ih
  | last _ _ hlast => exact hlast

/-- The place depends on the names alone. -/
theorem place_eq (h : f.Leads start names place) :
    place = names.foldl (fun here name => if name = ".." then Path.above here else here ++ [name])
      start := by
  induction h with
  | up _ ih => simpa using ih
  | into hup _ _ _ ih => simpa [hup] using ih
  | last hup => simp [hup]

/-- The way stays open as long as directories stay directories. -/
theorem locateFrom_eq (h : f.Leads start names place) (hkeeps : f.KeepsDirectories g)
    (hfile : g.content? place = some (.file text)) :
    g.locateFrom start names = .taken place (.file text) := by
  induction h with
  | up _ ih => simpa [locateFrom] using ih hfile
  | into hup hshort hinto _ ih => simp [locateFrom, hup, hshort, hkeeps _ hinto, ih hfile]
  | last hup hshort => simp [locateFrom, hup, hshort, hfile]

end Leads

theorem locate_eq_locateFrom (h : (f.locate p).place? = some place) (g : Files) :
    g.locate p = g.locateFrom p.start p.names := by
  unfold locate at h ⊢
  split at h
  · cases h
  · split at h
    · cases h
    · rw [if_neg ‹_›, if_neg ‹_›]

theorem leads_of_locate (h : (f.locate p).place? = some place) :
    f.Leads p.start p.names place :=
  leads_of_place? (locate_eq_locateFrom h f ▸ h)

/-- A write puts a file at the place of its path, which was no directory. -/
theorem write_eq_ok (h : f.write p text = .ok g) :
    (f.locate p).place? = some p.place ∧ g = f.put p.place (.file text) := by
  have hplace : ∃ place, (f.locate p).place? = some place ∧ g = f.put place (.file text) := by
    unfold write at h
    split at h <;> cases h
    · exact ⟨_, by simp [*, Spot.place?], rfl⟩
    · exact ⟨_, by simp [*, Spot.place?], rfl⟩
  obtain ⟨place, hplace, rfl⟩ := hplace
  obtain rfl : place = p.place := (leads_of_locate hplace).place_eq
  exact ⟨hplace, rfl⟩

theorem write_content? (h : f.write p text = .ok g) (q : List String) :
    g.content? q = if q = p.place then some (.file text) else f.content? q := by
  obtain ⟨hplace, rfl⟩ := write_eq_ok h
  exact content?_put (isTop_of_content?_ne (leads_of_locate hplace).content?_ne) f _ q

theorem write_keeps (h : f.write p text = .ok g) : f.KeepsDirectories g := by
  intro q hq
  rw [write_content? h, if_neg]
  · exact hq
  · rintro rfl
    exact (leads_of_locate (write_eq_ok h).1).content?_ne hq

end Files

/-! ## One write after another -/

namespace Artifacts

variable {files : List (Path × String)} {f g : Files}

theorem writeAll_cons {p : Path} {text : String}
    (h : writeAll ((p, text) :: files) f = (g, .ok ())) :
    ∃ next, f.write p text = .ok next ∧ writeAll files next = (g, .ok ()) := by
  rw [writeAll] at h
  split at h
  · exact ⟨_, ‹_›, h⟩
  · cases h

theorem writeAll_keeps (h : writeAll files f = (g, .ok ())) : f.KeepsDirectories g := by
  induction files generalizing f with
  | nil =>
    cases h
    exact fun _ => id
  | cons e files ih =>
    obtain ⟨next, hwrite, hrest⟩ := writeAll_cons h
    exact fun place hplace => ih hrest place (Files.write_keeps hwrite place hplace)

theorem writeAll_content? (h : writeAll files f = (g, .ok ())) {place : List String}
    (hplace : place ∉ files.map (·.1.place)) : g.content? place = f.content? place := by
  induction files generalizing f with
  | nil =>
    cases h
    rfl
  | cons e files ih =>
    obtain ⟨next, hwrite, hrest⟩ := writeAll_cons h
    rw [List.map_cons, List.mem_cons, not_or] at hplace
    rw [ih hrest hplace.2, Files.write_content? hwrite, if_neg hplace.1]

/-- **Files that are written to different places all stand in the end.** -/
theorem writeAll_stands (h : writeAll files f = (g, .ok ()))
    (hapart : (files.map (·.1.place)).Nodup) :
    ∀ e ∈ files, g.locate e.1 = .taken e.1.place (.file e.2) := by
  induction files generalizing f with
  | nil => exact List.forall_mem_nil _
  | cons e files ih =>
    obtain ⟨p, text⟩ := e
    obtain ⟨next, hwrite, hrest⟩ := writeAll_cons h
    rw [List.map_cons, List.nodup_cons] at hapart
    refine List.forall_mem_cons.mpr ⟨?_, ih hrest hapart.2⟩
    have hplace := (Files.write_eq_ok hwrite).1
    rw [Files.locate_eq_locateFrom hplace]
    -- The way was open before this write, and no write closes a way.
    refine (Files.leads_of_locate hplace).locateFrom_eq (writeAll_keeps h) ?_
    rw [writeAll_content? hrest hapart.1, Files.write_content? hwrite, if_pos rfl]

end Artifacts

end Pageloom
