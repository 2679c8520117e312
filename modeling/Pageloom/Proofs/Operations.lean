import Pageloom.Builder.Component
import Pageloom.Inherent
import Pageloom.Proofs.Outcome

/-!
# Operations of builders, step by step

A builder changes a workshop in few ways. While it makes an element it adds the element,
writes to it and links children below it; when it finishes a component it adds hooks to
one, lets hooks wait, or makes a component around an element. A property that each of these
keeps holds after the whole operation, and also where the operation fails, since a failed
one keeps what it did before. Properties of operations are proved from here on by naming
what the small changes do, and the operations are taken apart only once.

## Main definitions

* `Pageloom.Ended` -- what is asked of an outcome, whether it is a success or a failure
* `Pageloom.BuildFaults` -- a property of all faults that building can have
* `Pageloom.Build.Filling`, `Pageloom.Build.Raising`, `Pageloom.Build.Enclosing` -- what is asked
  of the small changes
* `Pageloom.Build.Raising.element`, `Pageloom.Build.Enclosing.finish` -- what follows
-/

namespace Pageloom

/-- An outcome leaves a workshop with a property, and its fault, if it has one, has a
property too. -/
def Ended {α : Type} (R : Workshop → Prop) (F : Fault → Prop) :
    EStateM.Result Fault Workshop α → Prop
  | .ok _ v => R v
  | .error fault v => R v ∧ F fault

namespace Ended

variable {α β : Type} {R S : Workshop → Prop} {F : Fault → Prop}

theorem imp {r : EStateM.Result Fault Workshop α} (h : Ended R F r) (hRS : ∀ v, R v → S v) :
    Ended S F r := by
  cases r with
  | ok a v => exact hRS v h
  | error fault v => exact ⟨hRS v h.1, h.2⟩

theorem bind {x : Build α} {f : α → Build β} {w : Workshop} (hx : Ended R F (x w))
    (hf : ∀ a u, x w = .ok a u → R u → Ended R F (f a u)) : Ended R F ((x >>= f) w) := by
  cases hrun : x w with
  | ok a u =>
    rw [hrun] at hx
    rw [bind_of_ok hrun]
    exact hf a u hrun hx
  | error fault u =>
    rw [hrun] at hx
    rw [bind_of_error hrun]
    exact hx

theorem lift {x : Except Fault α} {w : Workshop} (hw : R w)
    (hx : ∀ fault, x = .error fault → F fault) : Ended R F (Build.lift x w) := by
  cases x with
  | ok a => exact hw
  | error fault => exact ⟨hw, hx fault rfl⟩

end Ended

/-- A property of every fault that building can have. -/
structure BuildFaults (F : Fault → Prop) : Prop where
  wrongValue : F .wrongValue
  unsupported : F .unsupported
  invalidHandler : F .invalidHandler
  endless : F .endless
  notCallable : ∀ v : Value, F (v.faultShowing .notCallable)
  notBuildable : ∀ v : Value, F (v.faultShowing .notBuildable)
  unknownName : ∀ name, F (.unknownName name)
  notANode : ∀ component kind, F (.notANode component kind)
  inlineNotANode : ∀ component kind, F (.inlineNotANode component kind)
  plain : ∀ {v : Value} {fault}, v.plainText = .error fault → F fault
  attributes : ∀ {ps fault}, attributesOf ps = .error fault → F fault
  merge : ∀ {props children fault}, mergeChildren props children = .error fault → F fault
  inherent : ∀ {name i fault}, Inherent.ofName? name = some i → i.gives = .error fault → F fault
  cue : ∀ {sigil : Sigil} {values fault}, sigil.forValues values = .error fault → F fault
  placeholders : ∀ {sigil : Sigil} {parameters fault},
    sigil.placeholders parameters = .error fault → F fault
  child : ∀ {f : Forest} {parent id fault}, f.addChild parent id = .error fault → F fault
  read : ∀ {f : Forest} {i fault},
    f.readChecked f.boundaryOf ElementCell.checkNames (.element i) = .error fault → F fault
  component : ∀ {f : Forest} {root key parameters fault},
    f.addComponent root key parameters = .error fault → F fault
  root : ∀ {f : Forest} {i fault}, f.root i = .error fault → F fault
  boundary : ∀ {f : Forest} {i fault}, f.boundaryOf i = .error fault → F fault

theorem buildFaults_any : BuildFaults fun _ => True := by
  constructor <;> intros <;> trivial

theorem Sigil.placeholders_eq_ok {sigil : Sigil} {parameters : List String}
    {arguments : List Value} (h : sigil.placeholders parameters = .ok arguments) :
    arguments = parameters.map fun name => .text (sigil.plain ++ name) := by
  unfold placeholders at h
  split at h
  · exact (Except.ok.inj h).symm
  · cases h

namespace Build

variable {α β : Type} {R : Workshop → Prop} {F : Fault → Prop} {seat : Seat} {w : Workshop}

/-- An operation leaves workshops with a property if it finds them with it. -/
def Keeps (R : Workshop → Prop) (F : Fault → Prop) (x : Build α) : Prop :=
  ∀ w, R w → Ended R F (x w)

theorem keeps_pure (a : α) : Keeps R F (pure a) := fun _ hw => hw

theorem keeps_throw {fault : Fault} (h : F fault) : Keeps R F (throw fault : Build α) :=
  fun _ hw => ⟨hw, h⟩

theorem keeps_get : Keeps R F (get : Build Workshop) := fun _ hw => hw

theorem keeps_forest : Keeps R F forest := fun _ hw => hw

theorem keeps_nodeValue (id : NodeId) : Keeps R F (nodeValue id) := fun _ hw => hw

theorem keeps_modify {change : Workshop → Workshop} (h : ∀ w, R w → R (change w)) :
    Keeps R F (modify change) := h

theorem keeps_lift {x : Except Fault α} (h : ∀ fault, x = .error fault → F fault) :
    Keeps R F (lift x) := fun _ hw => Ended.lift hw h

theorem Keeps.bind {x : Build α} {f : α → Build β} (hx : Keeps R F x)
    (hf : ∀ a, Keeps R F (f a)) : Keeps R F (x >>= f) :=
  fun w hw => (hx w hw).bind fun a u _ hu => hf a u hu

/-! ## Making an element -/

end Build

/-- What a builder writes to an element: a text in the place of an attribute or of the text,
whether broken or not, and a click handler. -/
inductive ElementCell.Write : (ElementCell → ElementCell) → Prop
  | attribute (name : String) (pieces : List Text.Piece) :
      Write fun c => c.writeAttribute name (.ofPieces pieces)
  | text (pieces : List Text.Piece) : Write fun c => c.writeText (.ofPieces pieces)
  | click (h : Handler) : Write fun c => c.writeOnClick (.handler h)

namespace Build

variable {R : Workshop → Prop} {F : Fault → Prop} {seat : Seat} {w : Workshop}

/-- A property that the small changes keep while a builder fills the element that it added to
a workshop. -/
structure Filling (seat : Seat) (w : Workshop) (R : Workshop → Prop) : Prop where
  start : ∀ tag token counter, R { w.setBuilder seat { w.builder seat with counter } with
    forest := (w.forest.addElement tag token).1 }
  write : ∀ {u change}, R u → ElementCell.Write change →
    R { u with forest := u.forest.modifyElement w.forest.elements.size change }
  child : ∀ {u g id}, R u → u.forest.addChild w.forest.elements.size id = .ok g →
    R { u with forest := g }
  remark : ∀ {u} notices, R u → R { u with notices }

/-- A property that a workshop has, and that the small changes keep while a builder makes
one more element in it. -/
structure Raising (seat : Seat) (w : Workshop) (R : Workshop → Prop) : Prop
    extends Filling seat w R where
  spend : ∀ counter, R (w.setBuilder seat { w.builder seat with counter })

theorem keeps_properties (hF : BuildFaults F) (props : Value) : Keeps R F (properties props) := by
  unfold properties
  split
  · split
    · exact keeps_pure _
    · exact keeps_throw hF.unsupported
  · exact keeps_pure _

/-- A builder that can mint gives the new element the next number. -/
theorem mint_of_canMint (h : (w.builder seat).canMint = true) (tag : String) :
    Build.mint seat tag w = .ok w.forest.elements.size
      { w.setBuilder seat { w.builder seat with counter := (w.builder seat).counter.next.2 } with
        forest := (w.forest.addElement tag (w.builder seat).counter.next.1).1 } := by
  unfold Build.mint
  rw [bind_of_ok (show (get : Build Workshop) w = .ok w w from rfl)]
  dsimp only
  rw [if_pos h]
  rfl

/-- One that cannot mint has spent the number all the same. -/
theorem mint_of_not_canMint (h : (w.builder seat).canMint = false) (tag : String) :
    Build.mint seat tag w = .error .wrongValue
      (w.setBuilder seat
        { w.builder seat with counter := (w.builder seat).counter.next.2 }) := by
  unfold Build.mint
  rw [bind_of_ok (show (get : Build Workshop) w = .ok w w from rfl)]
  dsimp only
  rw [if_neg (by simp [h])]
  rfl

/-- A builder could not mint: the number is spent, and nothing else has happened. -/
def Spent (seat : Seat) (w : Workshop) {α : Type} (r : EStateM.Result Fault Workshop α) : Prop :=
  ∃ counter, r = .error .wrongValue (w.setBuilder seat { w.builder seat with counter })

namespace Filling

theorem addChild (h : Filling seat w R) (hF : BuildFaults F) (id : NodeId) :
    Keeps R F (Build.addChild w.forest.elements.size id) := by
  intro u hu
  refine (Ended.lift (x := u.forest.addChild _ id) hu fun _ hfault => hF.child hfault).bind
    fun g v hg hv => ?_
  obtain ⟨hadd, rfl⟩ := lift_eq_ok.mp hg
  exact h.child hv hadd

theorem takeText (h : Filling seat w R) (hF : BuildFaults F) (v : Value) :
    Keeps R F (Build.takeText seat w.forest.elements.size v) :=
  (keeps_lift fun _ hfault => hF.plain hfault).bind fun _ =>
    keeps_get.bind fun _ => keeps_modify fun _ hu => h.write hu (.text _)

theorem takeChild (h : Filling seat w R) (hF : BuildFaults F) (c : Value) :
    Keeps R F (Build.takeChild seat w.forest.elements.size c) := by
  unfold Build.takeChild
  split
  · exact h.addChild hF _
  · split
    · exact h.takeText hF _
    · exact keeps_pure _

theorem takeChildren (h : Filling seat w R) (hF : BuildFaults F) : ∀ cs : List Value,
    Keeps R F (Build.takeChildren seat w.forest.elements.size cs)
  | [] => keeps_pure _
  | c :: cs => (h.takeChild hF c).bind fun _ => takeChildren h hF cs

theorem takeNodes (h : Filling seat w R) (hF : BuildFaults F) : ∀ cs : List Value,
    Keeps R F (Build.takeNodes w.forest.elements.size cs)
  | [] => keeps_pure _
  | c :: cs => by
    cases c with
    | node handle => exact (h.addChild hF handle.id).bind fun _ => takeNodes h hF cs
    | _ => exact takeNodes h hF cs

theorem warnHiddenText (h : Filling seat w R) (i : Nat) : Keeps R F (Build.warnHiddenText i) := by
  refine keeps_forest.bind fun f => ?_
  split
  · split
    · exact keeps_modify fun _ hu => h.remark _ hu
    · exact keeps_pure _
  · exact keeps_pure _

theorem setAttributes (h : Filling seat w R) (attributes : List (String × List Text.Piece))
    {u : Workshop} (hu : R u) :
    R { u with
      forest := attributes.foldl
        (fun f a => f.setAttribute w.forest.elements.size a.1 (.ofPieces a.2)) u.forest } := by
  induction attributes generalizing u with
  | nil => exact hu
  | cons a attributes ih => exact ih (h.write hu (.attribute a.1 a.2))

/-- What follows the click handler: attributes, children and the remark. -/
theorem fill (h : Filling seat w R) (hF : BuildFaults F) (entries : Pairs) (children : List Value) :
    Keeps R F (do
      let attributes ← lift (attributesOf entries)
      modifyForest fun f => attributes.foldl
        (fun f a => f.setAttribute w.forest.elements.size a.1 (.ofPieces a.2)) f
      let given := if children.isEmpty then childrenOf (entries.get? "children") else children
      Build.takeChildren seat w.forest.elements.size (flattenChildren given)
      Build.warnHiddenText w.forest.elements.size
      nodeValue (.element w.forest.elements.size) : Build Value) :=
  (keeps_lift fun _ hfault => hF.attributes hfault).bind fun attributes =>
    (keeps_modify fun _ hu => h.setAttributes attributes hu).bind fun _ =>
      (h.takeChildren hF _).bind fun _ => (h.warnHiddenText _).bind fun _ => keeps_nodeValue _

/-- The new element has the next number. -/
theorem mint (h : Filling seat w R) {α : Type} {rest : Nat → Build α} {tag : String}
    (hrest : Keeps R F (rest w.forest.elements.size)) :
    Ended R F ((Build.mint seat tag >>= rest) w) ∨
      Spent seat w ((Build.mint seat tag >>= rest) w) := by
  cases hmints : (w.builder seat).canMint with
  | true =>
    rw [bind_of_ok (mint_of_canMint hmints tag)]
    exact .inl (hrest _ (h.start _ _ _))
  | false =>
    rw [bind_of_error (mint_of_not_canMint hmints tag)]
    exact .inr ⟨_, rfl⟩

theorem element (h : Filling seat w R) (hF : BuildFaults F) (tag : String) (props : Value)
    (children : List Value) :
    Ended R F (Build.element seat tag props children w) ∨
      Spent seat w (Build.element seat tag props children w) := by
  refine h.mint ((keeps_properties hF props).bind fun entries => ?_)
  dsimp only
  split
  · exact (keeps_modify fun _ hu => h.write hu (.click _)).bind fun _ => h.fill hF entries children
  · exact h.fill hF entries children

theorem fragment (h : Filling seat w R) (hF : BuildFaults F) (props : Value) :
    Ended R F (Build.fragment seat props w) ∨ Spent seat w (Build.fragment seat props w) :=
  h.mint ((keeps_properties hF props).bind fun _ =>
    (h.takeNodes hF _).bind fun _ => keeps_nodeValue _)

end Filling

theorem Raising.ended (h : Raising seat w R) (hF : BuildFaults F) {α : Type}
    {r : EStateM.Result Fault Workshop α} (hr : Ended R F r ∨ Spent seat w r) : Ended R F r := by
  rcases hr with hr | ⟨counter, rfl⟩
  · exact hr
  · exact ⟨h.spend counter, hF.wrongValue⟩

/-- **Making an element** keeps what its small changes keep. -/
theorem Raising.element (h : Raising seat w R) (hF : BuildFaults F) (tag : String) (props : Value)
    (children : List Value) : Ended R F (Build.element seat tag props children w) :=
  h.ended hF (h.toFilling.element hF tag props children)

/-- **Making a fragment** keeps what the small changes keep. -/
theorem Raising.fragment (h : Raising seat w R) (hF : BuildFaults F) (props : Value) :
    Ended R F (Build.fragment seat props w) :=
  h.ended hF (h.toFilling.fragment hF props)

/-! ## Finishing a component -/

end Build

/-- A workshop with other hooks waiting at a seat. -/
def Workshop.withWaiting (w : Workshop) (seat : Seat) (waiting : List (Nat × List Value)) :
    Workshop := w.setBuilder seat { w.builder seat with waiting }

namespace Build

variable {R : Workshop → Prop} {F : Fault → Prop} {seat : Seat} {w : Workshop}

/-- A property that claiming hooks keeps. Only hooks that wait can be claimed, and only for an
element that the search from the root of the component finds. -/
def Claiming (seat : Seat) (R : Workshop → Prop) : Prop :=
  ∀ w c waiting hooks, waiting ⊆ (w.builder seat).waiting →
    (∀ hook ∈ hooks, ∃ entry ∈ (w.builder seat).waiting, hook ∈ entry.2 ∧
      ∃ root, w.forest.root c = .ok root ∧ entry.1 ∈ w.forest.ownElements root) → R w →
    R { w.withWaiting seat waiting with
      forest := (w.withWaiting seat waiting).forest.addHooks c hooks }

theorem Claiming.claim (h : Claiming seat R) (hF : BuildFaults F) (c : Nat) :
    Keeps R F (claim seat c) := by
  intro w hw
  refine Ended.bind (x := get) hw fun a u hget hu => ?_
  cases hget
  cases hwaiting : (w.builder seat).waiting with
  | nil =>
    simp only [hwaiting, List.isEmpty_nil, if_true]
    exact hw
  | cons entry entries =>
    simp only [hwaiting, List.isEmpty_cons]
    refine (Ended.lift (x := w.forest.root c) hw fun _ hfault => hF.root hfault).bind
      fun root u hlift _ => ?_
    obtain ⟨hroot, rfl⟩ := lift_eq_ok.mp hlift
    refine h w c _ _ ?_ ?_ hw
    · rw [List.partition_eq_filter_filter, hwaiting]
      exact fun e he => (List.mem_filter.mp he).1
    · intro hook hhook
      rw [List.partition_eq_filter_filter] at hhook
      obtain ⟨e, he, hhook⟩ := List.mem_flatMap.mp hhook
      obtain ⟨hwaits, hheld⟩ := List.mem_filter.mp he
      exact ⟨e, hwaiting ▸ hwaits, hhook, root, hroot, List.contains_iff_mem.mp hheld⟩

/-- A property that the small changes keep when a builder finishes what a component gave. -/
structure Enclosing (seat : Seat) (name : String) (hooks : List Value) (result : Value)
    (R : Workshop → Prop) : Prop where
  lend : ∀ {w handle c}, result = .node handle → handle.id = .component c → R w →
    R { w with forest := w.forest.addHooks c hooks }
  wait : ∀ {w handle e}, result = .node handle → handle.id = .element e →
    isInlineName name = true → hooks ≠ [] → R w →
    R (w.withWaiting seat ((w.builder seat).waiting ++ [(e, hooks)]))
  wrap : ∀ {w handle e names g i}, result = .node handle → handle.id = .element e → R w →
    boundNames (w.builder seat).sigil e w = .ok names w →
    w.forest.addComponent e name names = .ok (g, i) → R { w with forest := g.addHooks i hooks }
  claim : Claiming seat R

theorem keeps_boundNames (hF : BuildFaults F) (sigil : Sigil) (i : Nat) :
    Keeps R F (boundNames sigil i) :=
  keeps_forest.bind fun _ => (keeps_lift fun _ hfault => hF.read hfault).bind fun _ =>
    (keeps_lift fun _ hfault => hF.cue hfault).bind fun _ => keeps_pure _

theorem boundNames_state {sigil : Sigil} {i : Nat} {names : List String} {v : Workshop}
    (h : boundNames sigil i w = .ok names v) : v = w := by
  have hkept := keeps_boundNames (R := fun u => u = w) buildFaults_any sigil i w rfl
  rwa [h] at hkept

/-- Making a component around an element is a change of the forest that may be refused. -/
theorem ended_wrap (hF : BuildFaults F) {α : Type} {rest : Nat → Build α} {root : Nat}
    {key : String} {parameters : List String} (hw : R w)
    (hrest : ∀ g i, w.forest.addComponent root key parameters = .ok (g, i) →
      Ended R F (rest i { w with forest := g })) :
    Ended R F ((wrap root key parameters >>= rest) w) := by
  cases hadd : w.forest.addComponent root key parameters with
  | ok made =>
    have hwrap : wrap root key parameters w = .ok made.2 { w with forest := made.1 } := by
      unfold wrap
      rw [bind_of_ok (show forest w = .ok w.forest w from rfl), hadd]
      rfl
    rw [bind_of_ok hwrap]
    exact hrest _ _ hadd
  | error fault =>
    have hwrap : wrap root key parameters w = .error fault w := by
      unfold wrap
      rw [bind_of_ok (show forest w = .ok w.forest w from rfl), hadd]
      rfl
    rw [bind_of_error hwrap]
    exact ⟨hw, hF.component hadd⟩

/-- Adding hooks to a component, and letting it claim those that wait for it. -/
theorem Claiming.hooked (h : Claiming seat R) (hF : BuildFaults F) {c : Nat} {hooks : List Value}
    (hw : R { w with forest := w.forest.addHooks c hooks }) :
    Ended R F ((do
      modifyForest fun f => f.addHooks c hooks
      Build.claim seat c
      nodeValue (.component c) : Build Value) w) :=
  Ended.bind (x := modifyForest fun f => f.addHooks c hooks) hw fun _ u _ hu =>
    ((h.claim hF c).bind fun _ => keeps_nodeValue _) u hu

namespace Enclosing

variable {name : String} {hooks : List Value} {result : Value}

theorem splice (h : Enclosing seat name hooks result R) (hF : BuildFaults F)
    (hname : isInlineName name = true) (hw : R w) :
    Ended R F (Build.splice seat name hooks result w) := by
  unfold Build.splice
  split
  · exact h.lend rfl rfl hw
  · cases hooks with
    | nil => exact hw
    | cons hook rest => exact h.wait rfl rfl hname (List.cons_ne_nil _ _) hw
  · exact ⟨hw, hF.inlineNotANode _ _⟩

theorem enclose (h : Enclosing seat name hooks result R) (hF : BuildFaults F) (hw : R w) :
    Ended R F (Build.enclose seat name hooks result w) := by
  unfold Build.enclose
  split
  · exact h.claim.hooked hF (h.lend rfl rfl hw)
  · refine Ended.bind (x := get) hw fun a u hget _ => ?_
    cases hget
    refine (keeps_boundNames hF _ _ w hw).bind fun names u hnames _ => ?_
    cases boundNames_state hnames
    exact ended_wrap hF hw fun g i hadd =>
      h.claim.hooked hF (h.wrap (w := w) rfl rfl hw hnames hadd)
  · exact ⟨hw, hF.notANode _ _⟩

/-- **Finishing a component** keeps what its small changes keep. -/
theorem finish (h : Enclosing seat name hooks result R) (hF : BuildFaults F) (hw : R w) :
    Ended R F (Build.finish seat name hooks result w) := by
  unfold Build.finish
  split
  · exact h.splice hF ‹_› hw
  · exact h.enclose hF hw

end Enclosing

/-! ## Roots -/

/-- Letting a builder serve while an operation runs. -/
theorem ended_serving {α : Type} {act : Build α}
    (hactive : ∀ {u} other, R u → R { u with active := other })
    (h : Ended R F (act { w with active := seat })) : Ended R F (serving seat act w) := by
  unfold serving
  cases hact : act { w with active := seat } with
  | ok a v =>
    rw [hact] at h
    exact hactive _ h
  | error fault v =>
    rw [hact] at h
    exact ⟨hactive _ h.1, h.2⟩

theorem serving_eq_ok {α : Type} {act : Build α} {a : α} {v : Workshop}
    (h : serving seat act w = .ok a v) :
    ∃ u, act { w with active := seat } = .ok a u ∧ v = { u with active := w.active } := by
  unfold serving at h
  cases hact : act { w with active := seat } with
  | ok b u =>
    rw [hact] at h
    cases h
    exact ⟨u, rfl, rfl⟩
  | error fault u =>
    rw [hact] at h
    cases h

/-- A property that the small changes keep when a builder makes the root of a build. -/
structure Rooting (author : Author) (c : Callable) (R : Workshop → Prop) : Prop where
  active : ∀ {w} seat, R w → R { w with active := seat }
  wrap : ∀ {arguments u v w handle e g i}, author.call c arguments u = .ok (.node handle) v →
    handle.id = .element e → R w →
    w.forest.addComponent e c.name (author.parameters c) = .ok (g, i) →
    R { w with forest := g.addHooks i (author.hooks c) }
  around : ∀ {arguments u v w handle j b e g i},
    author.call c arguments u = .ok (.node handle) v → handle.id = .component j → R w →
    w.forest.boundaryOf j = .ok (b, e) →
    w.forest.addComponent e c.name (author.parameters c) = .ok (g, i) →
    R { w with forest := (g.addHooks i b.hooks).addHooks i (author.hooks c) }
  claim : Claiming .own R

/-- **Making the root of a build** keeps what its small changes keep. -/
theorem Rooting.renderRoot {author : Author} {c : Callable} (h : Rooting author c R)
    (hF : BuildFaults F) (hw : R w)
    (hcall : ∀ arguments, Ended R F (author.call c arguments { w with active := .own })) :
    Ended R F (Build.renderRoot author (.callable c) none w) := by
  unfold Build.renderRoot
  refine Ended.bind (x := get) hw fun _ u hget _ => ?_
  cases hget
  refine (Ended.lift (x := w.own.sigil.placeholders _) hw fun _ hfault =>
    hF.placeholders hfault).bind fun arguments u harguments _ => ?_
  obtain ⟨_, rfl⟩ := lift_eq_ok.mp harguments
  refine (ended_serving (fun other => h.active other) (hcall _)).bind fun result u hresult hu => ?_
  obtain ⟨v, hresult, _⟩ := serving_eq_ok hresult
  split
  · refine (Ended.lift (x := u.forest.boundaryOf _) hu fun _ hfault => hF.boundary hfault).bind
      fun core v hcore _ => ?_
    obtain ⟨hboundary, rfl⟩ := lift_eq_ok.mp hcore
    refine ended_wrap hF hu fun g i hadd => ?_
    exact h.claim.hooked hF (w := { u with forest := g.addHooks i core.1.hooks })
      (h.around (w := u) hresult rfl hu hboundary hadd)
  · exact ended_wrap hF hu fun g i hadd =>
      h.claim.hooked hF (w := { u with forest := g }) (h.wrap (w := u) hresult rfl hu hadd)
  · exact ⟨hu, hF.notANode _ _⟩

end Build

end Pageloom
