import Pageloom.Proofs.Entries
import Pageloom.Proofs.Operations

/-!
# Faults of building

Building fails for many reasons, and none of them is that two entries of a build have one
key: entries are looked at together by a collection only. So where a collection fails for
that reason, it was the collection that found it. This follows each check that building
makes of values and of forests.

## Main definitions

* `Pageloom.Fault.isDuplicate` -- the fault of two entries with one key
* `Pageloom.Spares` -- computations that do not fail in this way
* `Pageloom.buildFaults_isDuplicate` -- building does not
-/

namespace Pageloom

/-- Whether a fault is that two entries of a build have one key. -/
def Fault.isDuplicate : Fault → Bool
  | .duplicateKey _ => true
  | _ => false

/-- A computation does not fail because of two entries with one key. -/
def Spares {α : Type} (x : Except Fault α) : Prop :=
  ∀ fault, x = .error fault → fault.isDuplicate = false

section

variable {α β : Type}

theorem spares_ok (a : α) : Spares (.ok a) := nofun

theorem spares_error {fault : Fault} (h : fault.isDuplicate = false) :
    Spares (.error fault : Except Fault α) := by
  rintro _ ⟨⟩
  exact h

theorem Spares.bind {x : Except Fault α} {f : α → Except Fault β} (hx : Spares x)
    (hf : ∀ a, Spares (f a)) : Spares (x >>= f) := by
  intro fault h
  cases x with
  | ok a => exact hf a fault h
  | error e =>
    cases (show (Except.error e : Except Fault β) = .error fault from h)
    exact hx _ rfl

theorem Spares.map {x : Except Fault α} (hx : Spares x) (f : α → β) : Spares (x.map f) := by
  intro fault h
  cases x with
  | ok a => cases h
  | error e => cases h; exact hx _ rfl

theorem spares_mapM {f : α → Except Fault β} (hf : ∀ a, Spares (f a)) (xs : List α) :
    Spares (xs.mapM f) := by
  intro fault h
  obtain ⟨x, _, hx⟩ := mapM_eq_error h
  exact hf x fault hx

theorem spares_forM {f : α → Except Fault PUnit} (hf : ∀ a, Spares (f a)) (xs : List α) :
    Spares (xs.forM f) := by
  induction xs with
  | nil => exact spares_ok _
  | cons x xs ih => exact (hf x).bind fun _ => ih

end

/-! ## Values -/

theorem Value.spares_asText (v : Value) : Spares v.asText := by
  unfold asText
  split
  · exact spares_ok _
  · exact spares_ok _
  all_goals exact spares_error rfl

theorem Value.spares_settingText (v : Value) : Spares v.settingText := by
  unfold settingText
  split
  · exact spares_ok _
  · exact spares_error rfl

theorem Value.spares_plainText (v : Value) : Spares v.plainText := by
  unfold plainText
  split
  · exact spares_ok _
  · exact spares_error rfl

theorem Value.isDuplicate_nameFault (v : Value) : v.nameFault.isDuplicate = false := by
  unfold nameFault
  split <;> rfl

theorem Style.spares_declared : ∀ ps : Pairs, Spares (declared ps)
  | [] => spares_ok _
  | (k, v) :: rest => by
    rw [declared]
    split
    · exact spares_declared rest
    · split
      · exact spares_error rfl
      · exact v.spares_settingText.bind fun _ => (spares_declared rest).bind fun _ => spares_ok _

theorem Style.spares_inline (style : Value) : Spares (inline style) := by
  unfold inline
  split
  · exact (spares_declared _).map _
  · exact spares_error rfl

theorem spares_attributeOf (property : String) (v : Value) : Spares (attributeOf property v) := by
  unfold attributeOf
  dsimp only
  split
  · exact v.spares_settingText.map _
  · split
    · exact (Style.spares_inline _).map _
    · exact spares_ok _

theorem spares_attributesOf : ∀ ps : Pairs, Spares (attributesOf ps)
  | [] => spares_ok _
  | (k, v) :: rest => by
    rw [attributesOf]
    split
    · exact spares_error k.isDuplicate_nameFault
    · next property _ =>
      have hrest : ∀ own, Spares (do return own ++ (← attributesOf rest)) := fun own =>
        (spares_attributesOf rest).bind fun _ => spares_ok _
      dsimp only
      split
      · exact (spares_ok _).bind hrest
      · exact (spares_attributeOf property v).bind hrest

theorem Value.spares_pair? (v : Value) : Spares v.pair? := by
  unfold pair?
  split
  case h_6 => split <;> first | exact spares_ok _ | exact spares_error rfl
  all_goals first | exact spares_ok _ | exact spares_error rfl

theorem Pairs.spares_writeAll : ∀ (xs : List Value) (ps : Pairs), Spares (writeAll xs ps)
  | [], _ => spares_ok _
  | x :: xs, ps => by
    rw [writeAll]
    refine x.spares_pair?.bind fun kv => ?_
    dsimp only
    split
    · exact spares_writeAll xs _
    · exact spares_error rfl

theorem spares_propertiesOf (props : Value) : Spares (propertiesOf props) := by
  unfold propertiesOf
  split
  · exact spares_ok _
  · split
    · exact spares_ok _
    · exact Pairs.spares_writeAll _ _
    · exact Pairs.spares_writeAll _ _
    · exact spares_error rfl
    · split
      · exact spares_ok _
      · exact spares_error rfl

theorem spares_mergeChildren (props : Value) (children : List Value) :
    Spares (mergeChildren props children) :=
  (spares_propertiesOf props).bind fun _ => spares_ok _

theorem Inherent.spares_gives {name : String} {i : Inherent} (h : ofName? name = some i) :
    Spares i.gives := by
  have hall : (all.all fun e =>
      match e.2.gives with
      | .ok _ => true
      | .error fault => !fault.isDuplicate) = true := by decide
  intro fault hfault
  have hone := List.all_eq_true.mp hall _ (Entries.mem_of_get? h)
  simpa [hfault] using hone

theorem Sigil.spares_forValues (s : Sigil) (values : List String) :
    Spares (s.forValues values) := by
  unfold forValues
  split
  · exact spares_ok _
  · split
    · exact spares_ok _
    · exact spares_error rfl

/-! ## Forests -/

namespace ElementCell

theorem spares_checkAttributes (c : ElementCell) (others : List String) :
    Spares (c.checkAttributes others) := by
  refine spares_forM (fun a => ?_) _
  unfold checkAttribute
  split
  · split
    · exact spares_ok _
    · exact (Value.spares_asText _).map _
  · exact spares_ok _

theorem spares_checkNames (c : ElementCell) : Spares c.checkNames := by
  refine (c.spares_checkAttributes _).bind fun _ => ?_
  unfold checkText
  split
  · split
    · exact (Value.spares_asText _).map _
    · exact spares_ok _
  · exact spares_ok _

end ElementCell

namespace Forest

theorem spares_root (f : Forest) (i : Nat) : Spares (f.root i) := by
  unfold root
  split
  · split
    · exact spares_ok _
    · refine spares_error ?_
      split <;> rfl
  · exact spares_error rfl

theorem spares_boundaryOf (f : Forest) (i : Nat) : Spares (f.boundaryOf i) := by
  unfold boundaryOf
  split
  · exact (f.spares_root i).map _
  · exact spares_error rfl

theorem spares_attachable (f : Forest) (child : NodeId) : Spares (f.attachable child) := by
  unfold attachable
  split
  · split
    · split
      · exact spares_error rfl
      · exact spares_ok _
    · exact spares_error rfl
  · split
    · exact spares_error rfl
    · split
      · exact spares_ok _
      · exact (f.spares_root _).map _

theorem spares_addChild (f : Forest) (parent : Nat) (child : NodeId) :
    Spares (f.addChild parent child) := by
  refine (f.spares_attachable child).bind fun target => ?_
  split
  · exact spares_error rfl
  · exact spares_ok _

theorem spares_addComponent (f : Forest) (root : Nat) (key : String) (parameters : List String) :
    Spares (f.addComponent root key parameters) := by
  unfold addComponent
  split
  · exact spares_error rfl
  · exact spares_ok _

theorem spares_readWithin (f : Forest) {check : ElementCell → Except Fault Unit}
    (hcheck : ∀ c, Spares (check c)) : ∀ (depth : Nat) (b : Option Boundary) (i : Nat),
      Spares (f.readWithin f.boundaryOf check depth b i)
  | 0, _, _ => spares_error rfl
  | depth + 1, b, i => by
    rw [readWithin]
    split
    · next c _ =>
      refine (hcheck c).bind fun _ => (spares_mapM (fun child => ?_) _).bind fun _ => spares_ok _
      cases child with
      | element j => exact spares_readWithin f hcheck depth none j
      | component j =>
        dsimp only
        split
        · exact spares_readWithin f hcheck depth _ _
        · next fault hfault => exact spares_error (f.spares_boundaryOf j fault hfault)
    · exact spares_error rfl

end Forest

/-! ## Building -/

theorem Value.isDuplicate_faultShowing (v : Value) {fault : String → Fault}
    (h : ∀ shown, (fault shown).isDuplicate = false) :
    (v.faultShowing fault).isDuplicate = false := by
  unfold faultShowing
  split
  · exact h _
  · rfl

theorem Sigil.spares_placeholders (sigil : Sigil) (parameters : List String) :
    Spares (sigil.placeholders parameters) := by
  unfold placeholders
  split
  · exact spares_ok _
  · exact spares_error rfl

/-- **Building does not fail because of two entries with one key.** -/
theorem buildFaults_isDuplicate : BuildFaults fun fault => fault.isDuplicate = false where
  wrongValue := rfl
  unsupported := rfl
  invalidHandler := rfl
  endless := rfl
  notCallable v := v.isDuplicate_faultShowing fun _ => rfl
  notBuildable v := v.isDuplicate_faultShowing fun _ => rfl
  unknownName _ := rfl
  notANode _ _ := rfl
  inlineNotANode _ _ := rfl
  plain := Value.spares_plainText _ _
  attributes := spares_attributesOf _ _
  merge := spares_mergeChildren _ _ _
  inherent hname := Inherent.spares_gives hname _
  cue := Sigil.spares_forValues _ _ _
  placeholders := Sigil.spares_placeholders _ _ _
  child := Forest.spares_addChild _ _ _ _
  read := Forest.spares_readWithin _ ElementCell.spares_checkNames _ _ _ _
  component := Forest.spares_addComponent _ _ _ _ _
  root := Forest.spares_root _ _ _
  boundary := Forest.spares_boundaryOf _ _ _

end Pageloom
