import Pageloom.Proofs.NewNodes
import Pageloom.Proofs.Requests

/-!
# Mounted copies

A factory runs once, and every mount is a copy of what it made. Between mounts a page may be
changed in any way by those who hold nodes of it: they can get hold of the body, of what was
given to them, and of whatever can be got at from there by links. What a factory made is never
given to them. It stands on a side of its own, which their work does not touch, so all copies of
it are alike.

## Main definitions

* `Pageloom.Ref`, `Pageloom.Visit` -- how nodes are got hold of, and what is done with them
* `Pageloom.Visitor` -- a session, with what was given and mounted
* `Pageloom.Visitor.Hides` -- the invariant: cells that no one can get hold of
* `Pageloom.Visitor.mounts_agree` -- copies agree, and share nothing with what they copy
-/

namespace Pageloom

/-- A way to get hold of a node of a page. -/
inductive Ref
  | body
  /-- One of the nodes that were given, by number. -/
  | given (n : Nat)
  /-- A child, by number. -/
  | child (node : Ref) (n : Nat)
  | parent (node : Ref)

/-- The node that one gets hold of. -/
def Ref.resolve (d : Document) (given : List Nat) : Ref → Option Nat
  | body => some Document.body
  | .given n => given[n]?
  | child node n =>
    (node.resolve d given).bind fun i => d.cells[i]?.bind fun c => c.children[n]?
  | parent node => (node.resolve d given).bind d.parent?

/-- What can be done on a page. -/
inductive Visit
  | act (a : Session.Act)
  | create (tag : String)
  /-- Change what a node says of itself: its attributes, its class, its text and so on. -/
  | change (node : Ref) (change : Face → Face)
  | detach (node : Ref)
  | append (parent child : Ref)
  | clone (node : Ref) (deep : Bool)

/-- A copy that was mounted, and the page right after that. -/
structure Mounting where
  key : String
  node : Nat
  page : Document

/-- A session; the nodes that were given by mounting, making and copying; and the copies that were
mounted. -/
structure Visitor where
  session : Session
  given : List Nat := []
  mountings : List Mounting := []

/-- The session with another page in place of its page. -/
def Session.withPage (s : Session) (d : Document) : Session :=
  { s with stage := { s.stage with document := d } }

namespace Visitor

/-- The page. -/
def page (v : Visitor) : Document := v.session.document

/-- Put another page in place of the page, and give nodes. -/
def turn (v : Visitor) (d : Document) (nodes : List Nat) : Visitor :=
  { v with session := v.session.withPage d, given := v.given ++ nodes }

/-- The node that one gets hold of. -/
def hold (v : Visitor) (node : Ref) : Option Nat := node.resolve v.page v.given

/-- What becomes of a visitor. A node that one cannot get hold of is left alone. -/
def visit (v : Visitor) : Visit → Visitor
  | .act (.mount key parent arguments) =>
    match Sitting.mount key parent arguments v.session with
    | .ok (some i) s =>
      { v with
        session := s
        given := v.given ++ [i]
        mountings := v.mountings ++ [⟨key, i, s.document⟩] }
    | .ok none s => { v with session := s }
    | .error _ s => { v with session := s }
  | .act a => { v with session := a.run v.session }
  | .create tag => v.turn (v.page.create tag).1 [(v.page.create tag).2]
  | .change node change =>
    match v.hold node with
    | some i => v.turn (v.page.modifyFace i change) []
    | none => v
  | .detach node =>
    match v.hold node with
    | some i => v.turn (v.page.detach i) []
    | none => v
  | .append parent child =>
    match v.hold parent, v.hold child with
    | some p, some i => v.turn (v.page.append p i) []
    | _, _ => v
  | .clone node deep =>
    match v.hold node with
    | some i =>
      match v.page.clone i deep with
      | .ok (d, j) => v.turn d [j]
      | .error _ => v
    | none => v

/-- What becomes of a visitor, step after step. -/
def visitAll : List Visit → Visitor → Visitor
  | [], v => v
  | a :: as, v => visitAll as (v.visit a)

end Visitor

/-! ## What requests leave alone -/

namespace Session

/-- The page and what factories made are as they were. -/
def SamePage (s t : Session) : Prop :=
  t.stage = s.stage ∧ t.cache = s.cache ∧ t.invoked = s.invoked

theorem SamePage.trans {s t u : Session} (h : s.SamePage t) (h' : t.SamePage u) : s.SamePage u :=
  ⟨h'.1.trans h.1, h'.2.1.trans h.2.1, h'.2.2.trans h.2.2⟩

theorem samePage_register (s : Session) (key : String) (registration : Registration) :
    s.SamePage (s.register key registration) := by
  obtain ⟨_, _, -, heq⟩ := s.exists_register_eq key registration
  rw [heq]
  exact ⟨rfl, rfl, rfl⟩

theorem samePage_failLoad (s : Session) (key reason : String) :
    s.SamePage (s.failLoad key reason) := by
  obtain ⟨_, _, _, -, heq⟩ := s.exists_failLoad_eq key reason
  rw [heq]
  exact ⟨rfl, rfl, rfl⟩

theorem samePage_share (s : Session) (i : Nat) : s.SamePage (s.share i).1 := by
  obtain ⟨shared, hshare⟩ := s.exists_share_eq i
  rw [hshare]
  exact ⟨rfl, rfl, rfl⟩

theorem samePage_request (s : Session) (key : String) : s.SamePage (s.request key).1 := by
  obtain ⟨-, heq⟩ | ⟨i, -, -, heq⟩ | ⟨-, -, -, heq⟩ | ⟨_, -, -, -, heq⟩ := s.request_cases key <;>
    rw [heq] <;> exact ⟨rfl, rfl, rfl⟩

theorem samePage_act {reload : String → Session → Session × Nat} {key : String}
    (hreload : ∀ s : Session, s.SamePage (reload key s).1) (actions : List LoaderAction)
    (s : Session) : s.SamePage (act reload key actions s).1 := by
  induction actions generalizing s with
  | nil => exact ⟨rfl, rfl, rfl⟩
  | cons action rest ih =>
    cases action with
    | register => exact (samePage_register s key _).trans (ih _)
    | fail => exact (samePage_failLoad s key _).trans (ih _)
    | abort => exact ⟨rfl, rfl, rfl⟩
    | wait => exact ih s
    | reload => exact ((hreload s).trans (samePage_share _ _)).trans (ih _)

theorem samePage_loadWithin (depth : Nat) (key : String) (s : Session) :
    s.SamePage (loadWithin depth key s).1 := by
  induction depth generalizing s with
  | zero => exact ⟨rfl, rfl, rfl⟩
  | succ depth ih =>
    rw [loadWithin_succ]
    have hact := (samePage_request s key).trans (samePage_act ih (s.answer key) (s.request key).1)
    dsimp only
    split
    · exact hact.trans ⟨rfl, rfl, rfl⟩
    · exact hact

theorem samePage_load (s : Session) (key : String) : s.SamePage (s.load key).1 :=
  (samePage_loadWithin 100 key s).trans (samePage_share _ _)

end Session

/-! ## Outcomes of mounting and removing -/

namespace Sitting

variable {s : Session}

theorem inspect_of_ok {α : Type} {look : Document → Except Fault α} {a : α}
    (h : look s.document = .ok a) : inspect look s = .ok a s := by
  change (live (Live.lift (look s.document))) s = _
  rw [h]
  rfl

theorem inspect_of_error {α : Type} {look : Document → Except Fault α} {fault : Fault}
    (h : look s.document = .error fault) : inspect look s = .error fault s := by
  change (live (Live.lift (look s.document))) s = _
  rw [h]
  rfl

/-- Removing takes a node of the page from its place, if it finds one. -/
theorem after_remove (id : String) (s : Session) :
    s.SamePage ((remove id).after s) ∨
      ∃ i, s.document.findById id = .ok (some i) ∧
        (remove id).after s = s.withPage (s.document.detach i) := by
  unfold after remove
  cases hfind : s.document.findById id with
  | error fault =>
    rw [bind_of_error (inspect_of_error hfind)]
    exact .inl ⟨rfl, rfl, rfl⟩
  | ok found =>
    rw [bind_of_ok (inspect_of_ok hfind)]
    cases found with
    | none => exact .inl ⟨rfl, rfl, rfl⟩
    | some i => exact .inr ⟨i, rfl, rfl⟩

/-- Between finding the target and copying, there is what the factory made: it was there
before, or the factory was run. -/
inductive Prepared (key : String) (registration : Registration) (arguments : List Value)
    (s : Session) (i : Nat) : Session → Prop
  | cached (h : s.cache.get? key = some i) : Prepared key registration arguments s i s
  | made (stage : Stage) (h : s.cache.get? key = none)
      (hcall : s.registry.call key registration arguments s.stage = .ok i stage) :
      Prepared key registration arguments s i
        { s with stage, cache := s.cache.set key i, invoked := s.invoked ++ [key] }

theorem made_cases (key : String) (registration : Registration) (arguments : List Value)
    (s : Session) :
    (∃ i u, Prepared key registration arguments s i u ∧
      made key registration arguments s = .ok i u) ∨
    ∃ fault stage, s.cache.get? key = none ∧
      s.registry.call key registration arguments s.stage = .error fault stage ∧
      made key registration arguments s = .error fault { s with stage } := by
  cases hcached : s.cache.get? key with
  | some i =>
    refine .inl ⟨i, s, .cached hcached, ?_⟩
    unfold made
    rw [bind_of_ok (show (get : Sitting Session) s = .ok s s from rfl), hcached]
    rfl
  | none =>
    have hmade : made key registration arguments s =
        (live (s.registry.call key registration arguments) >>= fun i => do
          modify fun s => { s with cache := s.cache.set key i, invoked := s.invoked ++ [key] }
          return i) s := by
      unfold made
      rw [bind_of_ok (show (get : Sitting Session) s = .ok s s from rfl), hcached]
    cases hcall : s.registry.call key registration arguments s.stage with
    | ok i stage =>
      refine .inl ⟨i, _, .made stage hcached hcall, ?_⟩
      have hlive : live (s.registry.call key registration arguments) s =
          .ok i { s with stage } := by
        simp only [live, hcall]
      rw [hmade, bind_of_ok hlive]
      rfl
    | error fault stage =>
      have hlive : live (s.registry.call key registration arguments) s =
          .error fault { s with stage } := by
        simp only [live, hcall]
      exact .inr ⟨fault, stage, rfl, rfl, hmade.trans (bind_of_error hlive)⟩

theorem clone_deep_of_ok {i : Nat} {tree : LiveTree} (h : s.document.read i = .ok tree) :
    clone i true s = .ok (Document.graft tree s.document).2
      (s.withPage (Document.graft tree s.document).1) := by
  have hclone : s.document.clone i true = .ok (Document.graft tree s.document) := by
    simp only [Document.clone, if_true, h]
    rfl
  exact bind_of_ok (inspect_of_ok hclone)

theorem clone_deep_of_error {i : Nat} {fault : Fault} (h : s.document.read i = .error fault) :
    clone i true s = .error fault s := by
  have hclone : s.document.clone i true = .error fault := by
    simp only [Document.clone, if_true, h]
    rfl
  exact bind_of_error (inspect_of_error hclone)

/-- Mounting ends before the factory, or the factory fails, or it ends with what the factory
made being there, and a copy of it is mounted or cannot be taken. -/
theorem mount_cases (key parent : String) (arguments : List Value) (s : Session) :
    (∃ t, s.SamePage t ∧
      (mount key parent arguments s = .ok none t ∨
        ∃ fault, mount key parent arguments s = .error fault t)) ∨
    (∃ registration fault stage,
      s.registry.call key registration arguments s.stage = .error fault stage ∧
      mount key parent arguments s = .error fault { s with stage }) ∨
    ∃ target registration i u, s.document.findById parent = .ok (some target) ∧
      s.registry.get? key = some registration ∧ Prepared key registration arguments s i u ∧
      ((∃ fault, mount key parent arguments s = .error fault u) ∨
        ∃ tree, u.document.read i = .ok tree ∧
          mount key parent arguments s = .ok (some (Document.graft tree u.document).2)
            (u.withPage ((Document.graft tree u.document).1.append target
              (Document.graft tree u.document).2))) := by
  unfold mount
  cases hfind : s.document.findById parent with
  | error fault =>
    rw [bind_of_error (inspect_of_error hfind)]
    exact .inl ⟨s, ⟨rfl, rfl, rfl⟩, .inr ⟨fault, rfl⟩⟩
  | ok found =>
    rw [bind_of_ok (inspect_of_ok hfind)]
    cases found with
    | none =>
      exact .inl ⟨s.remark (.targetMissing parent), ⟨rfl, rfl, rfl⟩, .inl rfl⟩
    | some target =>
      simp only
      rw [bind_of_ok (show (get : Sitting Session) s = .ok s s from rfl)]
      cases hget : s.registry.get? key with
      | none =>
        exact .inl ⟨s.remark (.componentMissing key), ⟨rfl, rfl, rfl⟩, .inl rfl⟩
      | some registration =>
        simp only
        rcases made_cases key registration arguments s with
          ⟨i, u, hprepared, hmade⟩ | ⟨fault, stage, hcached, hcall, hmade⟩
        · refine .inr (.inr ⟨target, registration, i, u, rfl, rfl, hprepared, ?_⟩)
          rw [bind_of_ok hmade]
          cases hread : u.document.read i with
          | error fault => exact .inl ⟨fault, bind_of_error (clone_deep_of_error hread)⟩
          | ok tree =>
            refine .inr ⟨tree, rfl, ?_⟩
            rw [bind_of_ok (clone_deep_of_ok hread)]
            rfl
        · exact .inr (.inl ⟨registration, fault, stage, hcall, bind_of_error hmade⟩)

end Sitting

/-! ## Hidden cells -/

namespace Visitor

/-- The cells of `P` are those that no one can get hold of. What factories made is among them,
and it is the tree of every copy of it that was mounted. -/
structure Hides (P : Nat → Prop) (v : Visitor) : Prop where
  sided : v.page.Sided P
  lt_size : ∀ i, P i → i < v.page.cells.size
  cached : ∀ key i, v.session.cache.get? key = some i → P i
  held : ∀ i ∈ Document.body :: v.given, i < v.page.cells.size ∧ ¬ P i
  trees : ∀ m ∈ v.mountings, ∃ i tree, v.session.cache.get? m.key = some i ∧
    v.page.Holds 0 tree i ∧ m.page.read m.node = .ok tree
  nodup_invoked : v.session.invoked.Nodup
  mem_invoked : ∀ key, key ∈ v.session.invoked ↔ (v.session.cache.get? key).isSome

namespace Hides

variable {P : Nat → Prop} {v w : Visitor}

/-- What one gets hold of is not hidden. -/
theorem resolve (h : v.Hides P) : ∀ {node : Ref} {i : Nat}, v.hold node = some i →
    i < v.page.cells.size ∧ ¬ P i
  | .body, i, hi => by
    cases hi
    exact h.held _ List.mem_cons_self
  | .given n, i, hi => h.held i (List.mem_cons_of_mem _ (List.mem_of_getElem? hi))
  | .child node n, i, hi => by
    obtain ⟨j, hj, hi⟩ := Option.bind_eq_some_iff.mp hi
    obtain ⟨c, hc, hi⟩ := Option.bind_eq_some_iff.mp hi
    have hlink := h.sided j i ⟨c, hc, .inl (List.mem_of_getElem? hi)⟩
    exact ⟨hlink.1, fun hP => (h.resolve hj).2 (hlink.2.mp hP)⟩
  | .parent node, i, hi => by
    obtain ⟨j, hj, hi⟩ := Option.bind_eq_some_iff.mp hi
    obtain ⟨c, hc, hi⟩ := Option.bind_eq_some_iff.mp hi
    have hlink := h.sided j i ⟨c, hc, .inr hi⟩
    exact ⟨hlink.1, fun hP => (h.resolve hj).2 (hlink.2.mp hP)⟩

theorem findById (h : v.Hides P) {id : String} {i : Nat}
    (hfind : v.page.findById id = .ok (some i)) : i < v.page.cells.size ∧ ¬ P i := by
  obtain ⟨hi, hreach⟩ := Document.findById_reaches hfind
  exact ⟨hi, fun hP => (h.held _ List.mem_cons_self).2 ((h.sided.reaches hreach).mp hP)⟩

/-- New cells are not hidden. -/
theorem new (h : v.Hides P) : ∀ i, v.page.cells.size ≤ i → ¬ P i :=
  fun i hi hP => Nat.not_lt_of_le hi (h.lt_size i hP)

/-- **Work on what is not hidden keeps hidden cells hidden and as they are.** -/
theorem work (h : v.Hides P) (hwork : Document.Works (fun i => ¬ P i) v.page w.page)
    (hcache : w.session.cache = v.session.cache) (hinvoked : w.session.invoked = v.session.invoked)
    (hgiven : ∀ i ∈ w.given, i ∈ v.given ∨ i < w.page.cells.size ∧ ¬ P i)
    (hmountings : w.mountings = v.mountings) : w.Hides P := by
  have hsame : ∀ i, P i → w.page.cells[i]? = v.page.cells[i]? := fun i hi =>
    hwork.same h.sided.compl i (not_not_intro hi)
  refine ⟨?_, fun i hi => ?_, ?_, fun i hi => ?_, ?_, ?_, ?_⟩
  · simpa only [not_not] using (hwork.sided h.sided.compl).compl
  · exact Nat.lt_of_lt_of_le (h.lt_size i hi) hwork.size_le
  · rw [hcache]
    exact h.cached
  · have hold : ∀ j ∈ Document.body :: v.given, j < w.page.cells.size ∧ ¬ P j := fun j hj =>
      ⟨Nat.lt_of_lt_of_le (h.held j hj).1 hwork.size_le, (h.held j hj).2⟩
    rcases List.mem_cons.mp hi with rfl | hi
    · exact hold _ List.mem_cons_self
    · exact (hgiven i hi).elim (fun hi => hold i (List.mem_cons_of_mem _ hi)) id
  · rw [hmountings, hcache]
    intro m hm
    obtain ⟨i, tree, hi, hholds, hread⟩ := h.trees m hm
    exact ⟨i, tree, hi, hholds.onSide h.sided hsame (h.cached m.key i hi), hread⟩
  · rw [hinvoked]
    exact h.nodup_invoked
  · rw [hinvoked, hcache]
    exact h.mem_invoked

theorem turn (h : v.Hides P) {d : Document} (nodes : List Nat)
    (hwork : Document.Works (fun i => ¬ P i) v.page d)
    (hnodes : ∀ i ∈ nodes, i < d.cells.size ∧ ¬ P i) : (v.turn d nodes).Hides P :=
  h.work hwork rfl rfl (fun i hi => (List.mem_append.mp hi).imp_right (hnodes i)) rfl

theorem samePage (h : v.Hides P) {s : Session} (hsame : v.session.SamePage s) :
    ({ v with session := s } : Visitor).Hides P := by
  have hpage : ({ v with session := s } : Visitor).page = v.page :=
    congrArg Stage.document hsame.1
  exact h.work (hpage ▸ .refl _ _) hsame.2.1 hsame.2.2 (fun _ => .inl) rfl

/-- A factory that fails leaves nothing behind that anyone could get hold of. -/
theorem callFails (h : v.Hides P) {key : String} {registration : Registration}
    {arguments : List Value} {fault : Fault} {stage : Stage}
    (hcall : v.session.registry.call key registration arguments v.session.stage =
      .error fault stage) :
    ({ v with session := { v.session with stage } } : Visitor).Hides P := by
  have hnew := v.session.registry.call_makesNew key registration arguments v.session.stage
  rw [hcall] at hnew
  exact h.work (Document.Works.widen hnew h.new) rfl rfl (fun _ => .inl) rfl

/-- What a factory makes is hidden. -/
theorem callMakes (h : v.Hides P) {key : String} {registration : Registration}
    {arguments : List Value} {i : Nat} {stage : Stage}
    (hcached : v.session.cache.get? key = none)
    (hcall : v.session.registry.call key registration arguments v.session.stage = .ok i stage) :
    ∃ Q, (∀ j, j < v.page.cells.size → ¬ P j → j < stage.document.cells.size ∧ ¬ Q j) ∧
      ({ v with
        session := { v.session with
          stage
          cache := v.session.cache.set key i
          invoked := v.session.invoked ++ [key] } } : Visitor).Hides Q := by
  have hends := v.session.registry.call_makesNew key registration arguments v.session.stage
  rw [hcall] at hends
  obtain ⟨hwork, hle, hlt⟩ := hends
  have hsame := hwork.same h.sided.above
  let Q : Nat → Prop := fun j => P j ∨ v.page.cells.size ≤ j ∧ j < stage.document.cells.size
  have hold : ∀ j, j < v.page.cells.size → (Q j ↔ P j) := fun j hj =>
    ⟨fun hQ => hQ.elim id fun hnew => absurd hnew.1 (Nat.not_le_of_lt hj), .inl⟩
  have hother : ∀ {k : String}, (v.session.cache.get? k).isSome → key ≠ k := by
    rintro k hk rfl
    rw [hcached] at hk
    cases hk
  have hpublic : ∀ j, j < v.page.cells.size → ¬ P j → j < stage.document.cells.size ∧ ¬ Q j :=
    fun j hj hP => ⟨Nat.lt_of_lt_of_le hj hwork.size_le, fun hQ => hP ((hold j hj).mp hQ)⟩
  refine ⟨Q, hpublic, ?_, fun j hj => ?_, fun k j hj => ?_,
    fun j hj => hpublic j (h.held j hj).1 (h.held j hj).2, fun m hm => ?_, ?_, fun k => ?_⟩
  · refine h.sided.merge (hwork.sided h.sided.above) hsame hold fun j k hj hj' hk hk' => ?_
    exact iff_of_true (.inr ⟨hj, hj'⟩) (.inr ⟨hk, hk'⟩)
  · rcases hj with hP | hnew
    · exact Nat.lt_of_lt_of_le (h.lt_size j hP) hwork.size_le
    · exact hnew.2
  · rw [Entries.get?_set] at hj
    split at hj
    · cases hj
      exact .inr ⟨hle, hlt⟩
    · exact .inl (h.cached k j hj)
  · obtain ⟨j, tree, hj, hholds, hread⟩ := h.trees m hm
    refine ⟨j, tree, ?_, ?_, hread⟩
    · rw [Entries.get?_set, if_neg (hother (Option.isSome_of_eq_some hj)), hj]
    · refine hholds.onSide h.sided (fun k hk => ?_) (h.cached m.key j hj)
      exact hsame k (Nat.not_le_of_lt (h.lt_size k hk))
  · refine h.nodup_invoked.append (List.nodup_singleton key) ?_
    rw [List.disjoint_singleton, h.mem_invoked, hcached]
    exact Bool.false_ne_true
  · rw [List.mem_append, List.mem_singleton, h.mem_invoked, Entries.get?_set]
    by_cases hk : key = k
    · simp [hk]
    · simp [hk, Ne.symm hk]

/-- A copy of what a factory made is mounted. -/
theorem copies (h : v.Hides P) {key : String} {i target : Nat} {tree : LiveTree}
    (hcached : v.session.cache.get? key = some i) (htarget : target < v.page.cells.size)
    (hpublic : ¬ P target) (hread : v.page.read i = .ok tree) :
    let d := (Document.graft tree v.page).1
    let j := (Document.graft tree v.page).2
    ({ v with
      session := v.session.withPage (d.append target j)
      given := v.given ++ [j]
      mountings := v.mountings ++ [⟨key, j, d.append target j⟩] } : Visitor).Hides P := by
  intro d j
  obtain ⟨hj, hsize, hgraft⟩ := Document.graft_works tree h.new
  obtain ⟨-, hdetached, hholds⟩ := Document.graft_holds tree v.page
  have hjP : ¬ P j := h.new j (Nat.le_of_eq hj.symm)
  have hjd : j < d.cells.size := Nat.lt_of_le_of_lt (Nat.le_of_eq hj) hsize
  have happend : Document.Works (fun k => ¬ P k) d (d.append target j) :=
    .append hpublic hjP (Nat.lt_trans htarget hsize) hjd
  have hturn := h.turn [j] (hgraft.trans happend) (by
    intro k hk
    cases List.mem_singleton.mp hk
    exact ⟨Nat.lt_of_lt_of_le hjd happend.size_le, hjP⟩)
  refine { hturn with trees := fun m hm => ?_ }
  rcases List.mem_append.mp hm with hm | hm
  · exact hturn.trees m hm
  · cases List.mem_singleton.mp hm
    have hsame : ∀ k, P k → (d.append target j).cells[k]? = v.page.cells[k]? := fun k hk =>
      (hgraft.trans happend).same h.sided.compl k (not_not_intro hk)
    refine ⟨i, tree, hcached, ?_, ?_⟩
    · exact (Document.holds_of_readWithin hread).onSide h.sided hsame (h.cached key i hcached)
    · have hne : target ≠ j := by omega
      exact (hholds.keep (Document.keepsFrom_append hdetached hne htarget)).read

theorem mount (h : v.Hides P) (key parent : String) (arguments : List Value) :
    ∃ Q, (v.visit (.act (.mount key parent arguments))).Hides Q := by
  rw [visit]
  rcases Sitting.mount_cases key parent arguments v.session with
    ⟨t, hsame, hmount⟩ | ⟨registration, fault, stage, hcall, hmount⟩ |
    ⟨target, registration, i, u, hfind, hget, hprepared, hmount⟩
  · refine ⟨P, ?_⟩
    rcases hmount with hmount | ⟨fault, hmount⟩ <;> rw [hmount] <;> exact h.samePage hsame
  · refine ⟨P, ?_⟩
    rw [hmount]
    exact h.callFails hcall
  · obtain ⟨htarget, hpublic⟩ := h.findById hfind
    obtain ⟨Q, hpublic, hhides, hcached⟩ : ∃ Q, (target < u.document.cells.size ∧ ¬ Q target) ∧
        ({ v with session := u } : Visitor).Hides Q ∧ u.cache.get? key = some i := by
      cases hprepared with
      | cached hi => exact ⟨P, ⟨htarget, hpublic⟩, h, hi⟩
      | made stage hnone hcall =>
        obtain ⟨Q, hQ, hhides⟩ := h.callMakes hnone hcall
        exact ⟨Q, hQ target htarget hpublic, hhides, Entries.get?_set_self _ _ _⟩
    refine ⟨Q, ?_⟩
    rcases hmount with ⟨fault, hmount⟩ | ⟨tree, hread, hmount⟩
    · rw [hmount]
      exact hhides
    · rw [hmount]
      exact hhides.copies hcached hpublic.1 hpublic.2 hread

/-- **Whatever is done, there are cells that hide what factories made.** -/
theorem visit (h : v.Hides P) (a : Visit) : ∃ Q, (v.visit a).Hides Q := by
  cases a with
  | act a =>
    cases a with
    | register key registration => exact ⟨P, h.samePage (Session.samePage_register _ _ _)⟩
    | load key => exact ⟨P, h.samePage (Session.samePage_load _ _)⟩
    | fail key reason => exact ⟨P, h.samePage (Session.samePage_failLoad _ _ _)⟩
    | mount key parent arguments => exact h.mount key parent arguments
    | remove id =>
      refine ⟨P, ?_⟩
      change ({ v with session := (Sitting.remove id).after v.session } : Visitor).Hides P
      rcases Sitting.after_remove id v.session with hsame | ⟨i, hfind, heq⟩
      · exact h.samePage hsame
      · rw [heq]
        exact h.work (.detach (h.findById hfind).2) rfl rfl (fun _ => .inl) rfl
  | create tag =>
    refine ⟨P, h.turn _ (.add (h.new _ (Nat.le_refl _)) _) ?_⟩
    intro i hi
    cases List.mem_singleton.mp hi
    exact ⟨by simp [Document.create, Document.add], h.new _ (Nat.le_refl _)⟩
  | change node change =>
    rw [Visitor.visit]
    cases hi : v.hold node with
    | none => exact ⟨P, h⟩
    | some i => exact ⟨P, h.turn [] (.modifyFace (h.resolve hi).2 change) (List.forall_mem_nil _)⟩
  | detach node =>
    rw [Visitor.visit]
    cases hi : v.hold node with
    | none => exact ⟨P, h⟩
    | some i => exact ⟨P, h.turn [] (.detach (h.resolve hi).2) (List.forall_mem_nil _)⟩
  | append parent child =>
    rw [Visitor.visit]
    cases hp : v.hold parent with
    | none => exact ⟨P, h⟩
    | some p =>
      cases hi : v.hold child with
      | none => exact ⟨P, h⟩
      | some i =>
        obtain ⟨⟨hp, hpP⟩, hi, hiP⟩ := And.intro (h.resolve hp) (h.resolve hi)
        exact ⟨P, h.turn [] (.append hpP hiP hp hi) (List.forall_mem_nil _)⟩
  | clone node deep =>
    rw [Visitor.visit]
    cases hi : v.hold node with
    | none => exact ⟨P, h⟩
    | some i =>
      cases hclone : v.page.clone i deep with
      | error fault => exact ⟨P, by simpa [hclone] using h⟩
      | ok copy =>
        obtain ⟨hroot, hsize, hwork⟩ := Document.clone_works h.new hclone
        refine ⟨P, ?_⟩
        simp only [hclone]
        refine h.turn _ hwork fun j hj => ?_
        cases List.mem_singleton.mp hj
        exact ⟨hsize, h.new _ (Nat.le_of_eq hroot.symm)⟩

theorem visitAll (h : v.Hides P) (as : List Visit) : ∃ Q, (visitAll as v).Hides Q := by
  induction as generalizing v P with
  | nil => exact ⟨P, h⟩
  | cons a as ih =>
    obtain ⟨Q, hQ⟩ := h.visit a
    exact ih hQ

end Hides

/-- On a new page nothing is hidden. -/
theorem hides_start (loader : Option Loader) :
    ({ session := { loader } } : Visitor).Hides fun _ => False := by
  refine ⟨Document.sided_empty _, nofun, nofun, fun i hi => ?_, nofun, List.nodup_nil, ?_⟩
  · cases List.mem_singleton.mp hi
    exact ⟨Nat.one_pos, id⟩
  · simp

/-- **Copies of a component are alike, and share nothing with what they are copies of.** Whatever
is done on a new page, mounting ran a factory with success at most once for each key, and the
keys for which it did are those for which something is kept. The copies of a key that were
mounted were the same tree when they were mounted, and had the same markup. No cell that can be
got at from what is kept can be got at from the body or from anything that was given. -/
theorem mounts_agree (loader : Option Loader) (visits : List Visit) :
    let v := visitAll visits { session := { loader } }
    (v.session.invoked.Nodup ∧
      ∀ key, key ∈ v.session.invoked ↔ (v.session.cache.get? key).isSome) ∧
    (∀ m ∈ v.mountings, ∃ tree, m.page.read m.node = .ok tree ∧
      ∀ m' ∈ v.mountings, m'.key = m.key →
        m'.page.read m'.node = .ok tree ∧ m'.page.html m'.node = m.page.html m.node) ∧
    ∀ key i, v.session.cache.get? key = some i → ∀ n, v.page.Reaches i n →
      ∀ held ∈ Document.body :: v.given, ¬ v.page.Reaches held n := by
  intro v
  obtain ⟨P, h⟩ : ∃ P, v.Hides P := (hides_start loader).visitAll visits
  refine ⟨⟨h.nodup_invoked, h.mem_invoked⟩, fun m hm => ?_,
    fun key i hi n hn held hheld hreach => ?_⟩
  · obtain ⟨i, tree, hi, hholds, hread⟩ := h.trees m hm
    refine ⟨tree, hread, fun m' hm' hkey => ?_⟩
    obtain ⟨i', tree', hi', hholds', hread'⟩ := h.trees m' hm'
    rw [hkey, hi] at hi'
    cases hi'
    rw [hholds'.unique hholds] at hread'
    refine ⟨hread', ?_⟩
    simp only [Document.html, hread, hread']
  · have hP : P n := (h.sided.reaches hn).mpr (h.cached key i hi)
    exact (h.held held hheld).2 ((h.sided.reaches hreach).mp hP)

-- The first copy is changed and another factory is registered before the second one is mounted.
example :
    let visits : List Visit := [.create "div",
      .change (.given 0) fun f => { f with attributes := f.attributes.set "id" (.text "slot") },
      .append .body (.given 0), .act (.register "A" ⟨.fixed "b" (.text "x") [], false⟩),
      .act (.mount "A" "slot" []), .change (.given 1) fun f => { f with tag := "i" },
      .act (.register "A" ⟨.fixed "u" .none [], false⟩), .act (.mount "A" "slot" [])]
    let v := visitAll visits { session := {} }
    v.session.invoked = ["A"] ∧
      v.mountings.map (fun m => (m.page.html m.node).toOption) =
        [some "<b>x</b>", some "<b>x</b>"] ∧
      ((v.page.html 1).toOption = some "<div id=\"slot\">\n<i>x</i>\n<b>x</b>\n</div>") := by
  decide +kernel

end Visitor

end Pageloom
