import Pageloom.Proofs.Building
import Pageloom.Proofs.Conduct
import Pageloom.Proofs.Faults

/-!
# What the entries of a build give

The entries of a build are called one after the other, each in the workshop that the one
before left. Each gives a component, and no later one may have its key. Components keep
their keys from then on, since all that follows only adds to the forest, so the keys that were
compared are the keys that a collection finds. Calling an entry may fail in many ways, but never
because of a key.

## Main definitions

* `Pageloom.Program.conduct_extends` -- evaluation only adds to a forest
* `Pageloom.Program.Gives`, `Pageloom.Program.GivesAll` -- what entries give
* `Pageloom.Program.renderEntries_eq_ok` -- when all entries can be called
* `Pageloom.Program.renderEntries_eq_duplicate` -- when two of them have one key
-/

namespace Pageloom

/-! ## Evaluation adds to a forest -/

namespace Forest

theorem Extends.addChildNew {f g h : Forest} (hg : f.Extends g) {id : NodeId}
    (hadd : g.addChild f.elements.size id = .ok h) : f.Extends h := by
  obtain ⟨_, _, _, rfl⟩ := addChild_eq_ok hadd
  cases id with
  | element i =>
    refine modifyNew (hg.trans (extends_modifyElement g i ?_)) _
    exact fun _ => ⟨rfl, rfl⟩
  | component j =>
    refine modifyNew (hg.trans (extends_modifyComponent g j ?_)) _
    exact fun _ => ⟨rfl, rfl, rfl⟩

theorem Extends.boundaryOf {f g : Forest} (h : f.Extends g) {i r : Nat} {b : Boundary}
    (hb : f.boundaryOf i = .ok (b, r)) : ∃ b', g.boundaryOf i = .ok (b', r) ∧ b'.key = b.key := by
  obtain ⟨hroot, k, b', heq, hk, hkey, _⟩ := rootOf_of_boundaryOf hb
  cases heq
  obtain ⟨l, hl, _, hkey', _⟩ := h.components hk
  have hroot' : g.root i = .ok r := h.rootOf hroot
  refine ⟨l.boundary, ?_, hkey'.trans hkey⟩
  rw [Forest.boundaryOf, hl, hroot']
  rfl

end Forest

@[simp] theorem Workshop.forest_withWaiting (w : Workshop) (seat : Seat)
    (waiting : List (Nat × List Value)) : (w.withWaiting seat waiting).forest = w.forest := by
  cases seat <;> rfl

theorem Workshop.waiting_withWaiting (w : Workshop) (seat other : Seat)
    (waiting : List (Nat × List Value)) : ((w.withWaiting seat waiting).builder other).waiting =
      if other = seat then waiting else (w.builder other).waiting := by
  cases other <;> cases seat <;> rfl

/-- A property of forests that the small changes keep while an element is made. -/
theorem Build.Raising.ofForest {seat : Seat} {w : Workshop} {P : Forest → Prop} (here : P w.forest)
    (start : ∀ tag token, P (w.forest.addElement tag token).1)
    (write : ∀ {g change}, P g → ElementCell.Write change →
      P (g.modifyElement w.forest.elements.size change))
    (child : ∀ {g h id}, P g → g.addChild w.forest.elements.size id = .ok h → P h) :
    Build.Raising seat w fun v => P v.forest where
  spend _ := by cases seat <;> exact here
  start tag token _ := start tag token
  write hu hchange := write hu hchange
  child hu hadd := child hu hadd
  remark _ hu := hu

namespace Program

/-- **Evaluation only adds to a forest**, and so does calling the entries of a build. -/
theorem conduct_extends (p : Program) : p.RootConduct fun w v => w.forest.Extends v.forest where
  refl _ := .refl _
  trans := .trans
  names _ _ := .refl _
  raise w _ := ⟨_, .ofForest (.refl _) (Forest.extends_addElement w.forest)
    (fun hg _ => hg.modifyNew _) fun hg hadd => hg.addChildNew hadd, fun _ hv => hv⟩
  lend _ _ _ := Forest.extends_addHooks _ _ _
  wait w seat _ _ _ := by
    rw [Workshop.forest_withWaiting]
    exact .refl _
  wrap _ _ _ hadd := (Forest.extends_addComponent hadd).1.trans (Forest.extends_addHooks _ _ _)
  claim w seat i waiting hooks _ _ := by
    simp only [Workshop.forest_withWaiting]
    exact Forest.extends_addHooks _ _ _
  active _ _ := .refl _
  root _ _ hadd := (Forest.extends_addComponent hadd).1.trans (Forest.extends_addHooks _ _ _)
  around _ _ _ hadd := ((Forest.extends_addComponent hadd).1.trans
    (Forest.extends_addHooks _ _ _)).trans (Forest.extends_addHooks _ _ _)

/-! ## Entries -/

/-- Calling an entry gives the component of a number, which has a key. -/
def Gives (p : Program) (entry : Value) (w : Workshop) (i : Nat) (key : String) (v : Workshop) :
    Prop :=
  ∃ shown b r, p.renderRoot entry none w = .ok (.node ⟨.component i, shown⟩) v ∧
    v.forest.boundaryOf i = .ok (b, r) ∧ b.key = key

/-- Calling entries in order gives one component each. -/
inductive GivesAll (p : Program) : List Value → Workshop → List Nat → List String → Workshop → Prop
  | nil (w : Workshop) : GivesAll p [] w [] [] w
  | cons {entry : Value} {entries : List Value} {w u v : Workshop} {i : Nat} {ids : List Nat}
      {key : String} {keys : List String} (first : p.Gives entry w i key u)
      (rest : GivesAll p entries u ids keys v) :
      GivesAll p (entry :: entries) w (i :: ids) (key :: keys) v

variable {p : Program} {entry : Value} {entries : List Value} {w u v : Workshop} {i : Nat}
  {ids : List Nat} {key : String} {keys seen : List String}

theorem Gives.conduct {R : Workshop → Workshop → Prop} (hR : p.RootConduct R)
    (h : p.Gives entry w i key v) : R w v := by
  obtain ⟨shown, b, r, hroot, _⟩ := h
  have hended := hR.renderRoot buildFaults_any entry w
  rwa [hroot] at hended

/-- What calling entries does to a workshop. -/
theorem GivesAll.conduct {R : Workshop → Workshop → Prop} (hR : p.RootConduct R)
    (h : p.GivesAll entries w ids keys v) : R w v := by
  induction h with
  | nil w => exact hR.refl w
  | cons first _ ih => exact hR.trans (first.conduct hR) ih

/-- The components that entries gave have their keys in the workshop that is left. -/
theorem GivesAll.keys_eq {roots : List Component} (h : p.GivesAll entries w ids keys v)
    (hroots : ids.mapM v.forest.component = .ok roots) : roots.map (·.boundary.key) = keys := by
  induction h generalizing roots with
  | nil w =>
    cases hroots
    rfl
  | @cons entry entries w u v i ids key keys first rest ih =>
    obtain ⟨root, roots, rfl, hroot, hothers⟩ := mapM_cons_eq_ok hroots
    obtain ⟨shown, b, r, _, hboundary, hkey⟩ := first
    obtain ⟨b', hboundary', hkey'⟩ := (rest.conduct p.conduct_extends).boundaryOf hboundary
    obtain ⟨core, hcore, hroot⟩ := except_bind_eq_ok.mp hroot
    cases Except.ok.inj (hboundary'.symm.trans hcore)
    obtain ⟨n, _, hroot⟩ := except_bind_eq_ok.mp hroot
    cases hroot
    rw [List.map_cons, ih hothers]
    exact congrArg (· :: keys) (hkey'.trans hkey)

/-! ## Calling entries in order -/

/-- An entry that gives a component is refused if its key was seen. -/
theorem renderEntries_cons_of_gives (h : p.Gives entry w i key u) :
    p.renderEntries seen (entry :: entries) w =
      if key ∈ seen then .error (.duplicateKey key) u
      else match p.renderEntries (seen ++ [key]) entries u with
        | .ok ids v => .ok (i :: ids) v
        | .error fault v => .error fault v := by
  obtain ⟨shown, b, r, hroot, hboundary, rfl⟩ := h
  rw [renderEntries, bind_of_ok hroot]
  dsimp only
  rw [bind_of_ok (show Build.forest u = .ok u.forest u from rfl), hboundary,
    bind_of_ok (show Build.lift (.ok (b, r)) u = .ok (b, r) u from rfl)]
  by_cases hseen : b.key ∈ seen
  · have hcontains : seen.contains b.key = true := List.contains_iff_mem.mpr hseen
    simp only [hcontains, if_pos hseen, if_true]
    rfl
  · have hcontains : seen.contains b.key = false := by simpa using hseen
    simp only [hcontains, if_neg hseen]
    cases hrest : p.renderEntries (seen ++ [b.key]) entries u with
    | ok ids v =>
      simp only [Bool.false_eq_true, if_false]
      exact bind_of_ok hrest
    | error fault v =>
      simp only [Bool.false_eq_true, if_false]
      exact bind_of_error hrest

/-- Where an entry gives no component, its key is not the reason. -/
theorem renderEntries_cons_of_not_gives (seen : List String) (entries : List Value)
    (h : ¬ ∃ i key u, p.Gives entry w i key u) :
    ∃ fault v, p.renderEntries seen (entry :: entries) w = .error fault v ∧
      fault.isDuplicate = false := by
  have hended := p.conduct_extends.renderRoot buildFaults_isDuplicate entry w
  unfold renderEntries
  cases hroot : p.renderRoot entry none w with
  | error fault v =>
    rw [hroot] at hended
    exact ⟨fault, v, bind_of_error hroot, hended.2⟩
  | ok x v =>
    rw [bind_of_ok hroot]
    split
    · next i shown =>
      rw [bind_of_ok (show Build.forest v = .ok v.forest v from rfl)]
      cases hboundary : v.forest.boundaryOf i with
      | ok core => exact absurd ⟨i, _, v, shown, core.1, core.2, hroot, hboundary, rfl⟩ h
      | error fault => exact ⟨fault, v, rfl, Forest.spares_boundaryOf _ _ _ hboundary⟩
    · exact ⟨_, v, rfl, rfl⟩

/-- Keys that are distinct, and none of which was seen before. -/
def Unseen (seen keys : List String) : Prop := keys.Nodup ∧ ∀ key ∈ keys, key ∉ seen

theorem unseen_nil (seen : List String) : Unseen seen [] := ⟨List.nodup_nil, by simp⟩

theorem unseen_cons : Unseen seen (key :: keys) ↔ key ∉ seen ∧ Unseen (seen ++ [key]) keys := by
  simp only [Unseen, List.nodup_cons, List.forall_mem_cons, List.mem_append, List.mem_singleton,
    not_or]
  grind

/-- **All entries can be called** exactly if each gives a component with a key of its own. -/
theorem renderEntries_eq_ok : p.renderEntries seen entries w = .ok ids v ↔
    ∃ keys, p.GivesAll entries w ids keys v ∧ Unseen seen keys := by
  induction entries generalizing seen w ids with
  | nil =>
    constructor
    · rintro ⟨⟩
      exact ⟨[], .nil _, unseen_nil seen⟩
    · rintro ⟨keys, ⟨⟩, _⟩
      rfl
  | cons entry entries ih =>
    constructor
    · intro h
      by_cases hgives : ∃ i key u, p.Gives entry w i key u
      · obtain ⟨i, key, u, hgives⟩ := hgives
        rw [renderEntries_cons_of_gives hgives] at h
        split at h
        · cases h
        · next hseen =>
          cases hrest : p.renderEntries (seen ++ [key]) entries u with
          | error fault u' =>
            rw [hrest] at h
            cases h
          | ok ids' u' =>
            rw [hrest] at h
            cases h
            obtain ⟨keys, hall, hunseen⟩ := ih.mp hrest
            exact ⟨key :: keys, .cons hgives hall, unseen_cons.mpr ⟨hseen, hunseen⟩⟩
      · obtain ⟨fault, u, hfails, _⟩ :=
          renderEntries_cons_of_not_gives seen entries hgives
        rw [hfails] at h
        cases h
    · rintro ⟨_, ⟨⟩ | ⟨hgives, hall⟩, hunseen⟩
      obtain ⟨hseen, hunseen⟩ := unseen_cons.mp hunseen
      rw [renderEntries_cons_of_gives hgives, if_neg hseen, ih.mpr ⟨_, hall, hunseen⟩]

/-- **Two entries have one key** exactly if an entry gives a component with the key of an
earlier one, and all entries before it were called and had keys of their own. -/
theorem renderEntries_eq_duplicate :
    (∃ v, p.renderEntries seen entries w = .error (.duplicateKey key) v) ↔
      ∃ before entry rest ids keys u i v, entries = before ++ entry :: rest ∧
        p.GivesAll before w ids keys u ∧ Unseen seen keys ∧ p.Gives entry u i key v ∧
        key ∈ seen ++ keys := by
  induction entries generalizing seen w with
  | nil =>
    constructor
    · rintro ⟨v, ⟨⟩⟩
    · rintro ⟨before, entry, rest, _, _, _, _, _, hsplit, _⟩
      simp at hsplit
  | cons first entries ih =>
    constructor
    · rintro ⟨v, h⟩
      by_cases hgives : ∃ i key u, p.Gives first w i key u
      · obtain ⟨i, key', u, hgives⟩ := hgives
        rw [renderEntries_cons_of_gives hgives] at h
        split at h
        · next hseen =>
          cases h
          exact ⟨[], first, entries, [], [], _, i, v, rfl, .nil _, unseen_nil seen, hgives,
            List.mem_append_left _ hseen⟩
        · next hseen =>
          cases hrest : p.renderEntries (seen ++ [key']) entries u with
          | ok ids' u' =>
            rw [hrest] at h
            cases h
          | error fault u' =>
            rw [hrest] at h
            cases h
            obtain ⟨before, entry, rest, ids, keys, u', i', v', rfl, hall, hunseen, hgives',
              hmem⟩ := ih.mp ⟨v, hrest⟩
            exact ⟨first :: before, entry, rest, i :: ids, key' :: keys, u', i', v', rfl,
              .cons hgives hall, unseen_cons.mpr ⟨hseen, hunseen⟩, hgives', by simpa using hmem⟩
      · obtain ⟨fault, u, hfails, hfault⟩ :=
          renderEntries_cons_of_not_gives seen entries hgives
        rw [hfails] at h
        cases h
        cases hfault
    · rintro ⟨before, entry, rest, ids, keys, u, i, v, hsplit, hall, hunseen, hgives, hmem⟩
      cases hall with
      | nil =>
        cases hsplit
        rw [List.append_nil] at hmem
        exact ⟨v, by rw [renderEntries_cons_of_gives hgives, if_pos hmem]⟩
      | cons hfirst hall =>
        cases hsplit
        obtain ⟨hseen, hunseen⟩ := unseen_cons.mp hunseen
        obtain ⟨v', hrest⟩ := ih.mpr ⟨_, entry, rest, _, _, u, i, v, rfl, hall, hunseen, hgives,
          by simpa using hmem⟩
        exact ⟨v', by rw [renderEntries_cons_of_gives hfirst, if_neg hseen, hrest]⟩

end Program

end Pageloom
