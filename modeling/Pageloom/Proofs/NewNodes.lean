import Pageloom.Proofs.Sides
import Pageloom.Proofs.Construction

/-!
# Factories work on nodes of their own

The variables of a list of instructions stand for nodes that its own steps made or that the
factories it called gave. So whatever the instructions are, and whether they succeed or not,
every cell that was there before is as it was, and new cells are linked to new cells only.
What is given is one of them.

There are three things that instructions do to a page: they make a node, they change what a node
of theirs says of itself, and they put one of their nodes below another one. A relation of pages
that allows these is kept by whole factories. The steps are gone through once, for any such
relation.

## Main definitions

* `Pageloom.Live.Steady` -- relations of pages that allow what instructions do
* `Pageloom.Live.EndsBy` -- how an operation ends that keeps such a relation
* `Pageloom.Live.Ends` -- how an operation ends that keeps to the cells from a number on
* `Pageloom.Live.MakesNew` -- operations that keep to new cells and give one
* `Pageloom.Registry.callWithin_endsBy` -- factories keep every such relation
* `Pageloom.Registry.call_makesNew` -- every factory keeps to new cells
-/

namespace Pageloom

namespace Live

variable {α β : Type} {T : Document → Document → Prop} {base : Nat} {s : Stage}

/-! ## What instructions do -/

/-- A relation of pages that allows what instructions do whose nodes are the cells from `base`
on. -/
structure Steady (base : Nat) (T : Document → Document → Prop) : Prop where
  refl : ∀ d, T d d
  trans : ∀ {d e f}, T d e → T e f → T d f
  size_le : ∀ {d e}, T d e → d.cells.size ≤ e.cells.size
  add : ∀ d face, base ≤ d.cells.size → T d (d.add face).1
  modifyFace : ∀ d change {i}, base ≤ i → T d (d.modifyFace i change)
  append : ∀ d {p i}, base ≤ p → base ≤ i → p < d.cells.size → i < d.cells.size →
    T d (d.append p i)

/-- The page is related to what it was at `s`, and `R` holds where the operation succeeded. -/
def EndsBy (T : Document → Document → Prop) (s : Stage) (R : α → Stage → Prop) :
    EStateM.Result Fault Stage α → Prop
  | .ok a t => T s.document t.document ∧ R a t
  | .error _ t => T s.document t.document

/-- A cell from `base` on. -/
def Within (base : Nat) (i : Nat) (s : Stage) : Prop := base ≤ i ∧ i < s.document.cells.size

/-- The variables stand for cells from `base` on. -/
def Bounded (base : Nat) (vars : Entries Nat) (s : Stage) : Prop :=
  ∀ name i, vars.get? name = some i → Within base i s

theorem Within.mono {i : Nat} {t : Stage} (h : Within base i s)
    (hle : s.document.cells.size ≤ t.document.cells.size) : Within base i t :=
  ⟨h.1, Nat.lt_of_lt_of_le h.2 hle⟩

theorem Bounded.mono {vars : Entries Nat} {t : Stage} (h : Bounded base vars s)
    (hle : s.document.cells.size ≤ t.document.cells.size) : Bounded base vars t :=
  fun name i hi => (h name i hi).mono hle

theorem Bounded.set {vars : Entries Nat} (h : Bounded base vars s) (var : String) {i : Nat}
    (hi : Within base i s) : Bounded base (vars.set var i) s := by
  intro name j hj
  rw [Entries.get?_set] at hj
  split at hj
  · cases hj
    exact hi
  · exact h name j hj

namespace Steady

variable (hT : Steady base T)

include hT

theorem bind {x : Live α} {f : α → Live β} {R : α → Stage → Prop} {Q : β → Stage → Prop}
    (hx : EndsBy T s R (x s))
    (hf : ∀ a t, s.document.cells.size ≤ t.document.cells.size → R a t → EndsBy T t Q (f a t)) :
    EndsBy T s Q ((x >>= f) s) := by
  cases hxs : x s with
  | error e t =>
    rw [bind_of_error hxs]
    rwa [hxs] at hx
  | ok a t =>
    rw [bind_of_ok hxs]
    rw [hxs] at hx
    have hfa := hf a t (hT.size_le hx.1) hx.2
    cases hft : f a t with
    | error e u =>
      rw [hft] at hfa
      exact hT.trans hx.1 hfa
    | ok b u =>
      rw [hft] at hfa
      exact ⟨hT.trans hx.1 hfa.1, hfa.2⟩

theorem pure {R : α → Stage → Prop} {a : α} (h : R a s) :
    EndsBy T s R ((Pure.pure a : Live α) s) := ⟨hT.refl _, h⟩

theorem lift (x : Except Fault α) : EndsBy T s (fun _ _ => True) (Live.lift x s) := by
  cases x with
  | ok a => exact ⟨hT.refl _, trivial⟩
  | error e => exact hT.refl _

theorem lookup {vars : Entries Nat} (h : Bounded base vars s) (name : String) :
    EndsBy T s (Within base) (Live.lookup vars name s) := by
  unfold Live.lookup
  cases hi : vars.get? name with
  | none => exact hT.refl _
  | some i => exact ⟨hT.refl _, h name i hi⟩

/-- A new node. -/
theorem makeNode (face : Face) (hbase : base ≤ s.document.cells.size) :
    EndsBy T s (Within base) (make (fun d => d.add face) s) := by
  refine ⟨hT.add _ face hbase, hbase, ?_⟩
  change s.document.cells.size < (s.document.add face).1.cells.size
  simp

/-- Recording a call first changes no cell. -/
theorem recording {make : Live Nat} (hmake : ∀ s : Stage, base ≤ s.document.cells.size →
      EndsBy T s (Within base) (make s)) (isRecorded : Bool) (call : String × List Value)
    (hbase : base ≤ s.document.cells.size) :
    EndsBy T s (Within base) ((do
      if isRecorded then
        modify fun s => { s with calls := s.calls ++ [call] }
      make : Live Nat) s) := by
  dsimp only
  split
  · exact hT.bind (R := fun _ _ => True) ⟨hT.refl _, trivial⟩ fun _ t hle _ =>
      hmake t (Nat.le_trans hbase hle)
  · exact hmake s hbase

variable {invoke : String → Except Fault (List Value) → Live Nat} {bindings : Bindings}
  (hinvoke : ∀ key arguments (s : Stage), base ≤ s.document.cells.size →
    EndsBy T s (Within base) (invoke key arguments s))

include hinvoke

/-- Every step keeps to the cells that the variables stand for. -/
theorem step {vars : Entries Nat} (hvars : Bounded base vars s)
    (hbase : base ≤ s.document.cells.size) (i : Instruction) :
    EndsBy T s (Bounded base) (Live.step invoke bindings vars i s) := by
  have hchange : ∀ {t : Stage} {change : Document → Document}, T t.document (change t.document) →
      EndsBy T t (fun _ _ => True) (modifyDocument change t) := fun h => ⟨h, trivial⟩
  have hface : ∀ {var : String} {t : Stage} (change : Face → Face), Bounded base vars t →
      EndsBy T t (Bounded base) ((Live.lookup vars var >>= fun i => do
        modifyDocument fun d => d.modifyFace i change
        return vars) t) := by
    intro var t change hvars
    refine hT.bind (hT.lookup hvars var) fun i u hle hi => ?_
    refine hT.bind (hchange (hT.modifyFace _ change hi.1)) fun _ v hle' _ => ?_
    exact hT.pure (hvars.mono (Nat.le_trans hle hle'))
  cases i with
  | createElement var tag =>
    refine hT.bind (hT.makeNode { tag } hbase) fun i t hle hi => ?_
    exact hT.pure ((hvars.mono hle).set var hi)
  | assignClass var value => exact hface _ hvars
  | setAttribute var name value =>
    refine hT.bind (hT.lookup hvars var) fun i t hle hi => ?_
    refine hT.bind (hT.lift _) fun text u hle' _ => ?_
    refine hT.bind (hchange (hT.modifyFace _ _ hi.1)) fun _ v hle'' _ => ?_
    exact hT.pure (hvars.mono (Nat.le_trans hle (Nat.le_trans hle' hle'')))
  | assignStyle var value =>
    exact hT.bind (hT.lift _) fun text t hle _ => hface _ (hvars.mono hle)
  | setText var value =>
    exact hT.bind (hT.lift _) fun text t hle _ => hface _ (hvars.mono hle)
  | assignClick var expression => exact hface _ hvars
  | invokeFactory var key arguments =>
    refine hT.bind (hinvoke key _ s hbase) fun i t hle hi => ?_
    exact hT.pure ((hvars.mono hle).set var hi)
  | appendChild parent child =>
    refine hT.bind (hT.lookup hvars parent) fun p t hle hp => ?_
    refine hT.bind (hT.lookup (hvars.mono hle) child) fun c u hle' hc => ?_
    refine hT.bind (hchange (hT.append _ hp.1 hc.1 (hp.mono hle').2 hc.2)) fun _ v hle'' _ => ?_
    exact hT.pure (hvars.mono (Nat.le_trans hle (Nat.le_trans hle' hle'')))
  | giveNode var => exact hT.pure hvars

/-- Steps keep to the cells that the variables stand for, and give one of them. -/
theorem run : ∀ (steps : List Instruction) {vars : Entries Nat} {s : Stage},
    Bounded base vars s → base ≤ s.document.cells.size →
      EndsBy T s (Within base) (Live.run invoke bindings vars steps s)
  | [], _, _, _, _ => hT.refl _
  | i :: rest, vars, s, hvars, hbase => by
    cases i with
    | giveNode var => exact hT.lookup hvars var
    | _ =>
      refine hT.bind (hT.step hinvoke hvars hbase _) fun vars' t hle hvars' => ?_
      exact run rest hvars' (Nat.le_trans hbase hle)

end Steady

/-! ## New cells -/

/-- Work on the cells from `base` on was done since `s`, and `R` holds where it succeeded. -/
def Ends (base : Nat) (s : Stage) (R : α → Stage → Prop) :
    EStateM.Result Fault Stage α → Prop
  | .ok a t => Document.Works (base ≤ ·) s.document t.document ∧ R a t
  | .error _ t => Document.Works (base ≤ ·) s.document t.document

/-- An operation that keeps to new cells, and gives one of them. -/
def MakesNew (x : Live Nat) : Prop :=
  ∀ s : Stage, Ends s.document.cells.size s (Within s.document.cells.size) (x s)

theorem steady_works (base : Nat) : Steady base (Document.Works (base ≤ ·)) where
  refl := .refl _
  trans := .trans
  size_le := Document.Works.size_le
  add _ face hbase := .add hbase face
  modifyFace _ change _ hi := .modifyFace hi change
  append _ _ _ hp hi hpd hid := .append hp hi hpd hid

theorem EndsBy.ends {R : α → Stage → Prop} {result : EStateM.Result Fault Stage α}
    (h : EndsBy (Document.Works (base ≤ ·)) s R result) : Ends base s R result := by
  cases result <;> exact h

end Live

namespace Registry

open Live

variable {T : Document → Document → Prop} {base : Nat} (hT : Steady base T) (r : Registry)

include hT

theorem invokeWith_endsBy {call : String → Registration → List Value → Live Nat}
    (hcall : ∀ key registration arguments (s : Stage), base ≤ s.document.cells.size →
      EndsBy T s (Within base) (call key registration arguments s))
    (key : String) (arguments : Except Fault (List Value)) (s : Stage)
    (hbase : base ≤ s.document.cells.size) :
    EndsBy T s (Within base) (r.invokeWith call key arguments s) := by
  unfold invokeWith
  cases Entries.get? r key with
  | none => exact hT.refl _
  | some registration =>
    refine hT.bind (hT.lift arguments) fun values t hle _ => ?_
    exact hcall key registration values t (Nat.le_trans hbase hle)

/-- **Whatever allows what instructions do allows what factories do.** -/
theorem callWithin_endsBy : ∀ (depth : Nat) (key : String) (registration : Registration)
    (arguments : List Value) (s : Stage), base ≤ s.document.cells.size →
      EndsBy T s (Within base) (r.callWithin depth key registration arguments s)
  | 0, _, _, _, _, _ => hT.refl _
  | depth + 1, key, registration, arguments, s, hbase => by
    have hinvoke := r.invokeWith_endsBy hT (callWithin_endsBy depth)
    rw [callWithin]
    refine hT.recording (fun t ht => ?_) registration.isRecorded (key, arguments) hbase
    cases registration.factory with
    | fixed tag text attributes => exact hT.makeNode { tag, text, attributes } ht
    | steps parameters instructions => exact hT.run hinvoke instructions nofun ht

theorem instantiate_endsBy (bindings : Bindings) (steps : List Instruction) (s : Stage)
    (hbase : base ≤ s.document.cells.size) :
    EndsBy T s (Within base) (r.instantiate bindings steps s) :=
  hT.run (r.invokeWith_endsBy hT (r.callWithin_endsBy hT (r.length + 1))) steps nofun hbase

omit hT

/-- **A factory keeps to new cells, whatever its instructions are.** -/
theorem call_makesNew (key : String) (registration : Registration) (arguments : List Value) :
    MakesNew (r.call key registration arguments) :=
  fun s => (r.callWithin_endsBy (steady_works _) (r.length + 1) key registration arguments s
    (Nat.le_refl _)).ends

theorem instantiate_makesNew (bindings : Bindings) (steps : List Instruction) :
    MakesNew (r.instantiate bindings steps) :=
  fun s => (r.instantiate_endsBy (steady_works _) bindings steps s (Nat.le_refl _)).ends

end Registry

end Pageloom
