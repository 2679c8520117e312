import Pageloom.Proofs.Conduct

/-!
# What callables gave in the course of an evaluation

A workshop shows what evaluation left, not how it came about. Statements about each time that a
callable gave something need the calls themselves. Evaluation is therefore repeated here with a
record: whenever a callable that stands for a node has given its value, the callable, the value
and the workshop of that moment are written down, and the builder goes on with the value. An
evaluation that fails keeps its record, as it keeps its workshop. Without the record this is
evaluation as it is.

## Main definitions

* `Pageloom.Return` -- a callable has given a value
* `Pageloom.Program.recordWithin` -- calls with a record of what callables gave
* `Pageloom.Program.erases_recordWithin` -- the record changes nothing
* `Pageloom.Recorded.Maintains` -- what holds before and after, with a record
* `Pageloom.Program.Attending` -- what is asked of each step that touches workshop or record
* `Pageloom.Program.Attending.recordWithin` -- what follows for calls
-/

namespace Pageloom

/-- A callable has given a value, in a workshop. -/
structure Return where
  callable : Callable
  result : Value
  workshop : Workshop

/-- An operation on a workshop and on a record of what callables gave. -/
abbrev Recorded := EStateM Fault (Workshop × List Return)

namespace Recorded

/-- An operation that writes nothing down. -/
def ofBuild {α : Type} (x : Build α) : Recorded α := fun s =>
  match x s.1 with
  | .ok a v => .ok a (v, s.2)
  | .error fault v => .error fault (v, s.2)

instance : MonadLift Build Recorded := ⟨ofBuild⟩

/-- Write down what a callable gave. -/
def note (c : Callable) (result : Value) : Recorded Unit :=
  fun s => .ok () (s.1, s.2 ++ [⟨c, result, s.1⟩])

end Recorded

namespace Program

/-- Make a node, with a record. -/
def recordNode (p : Program) (call : Callable → List Value → Recorded Value) (seat : Seat)
    (type props : Value) (children : List Value) : Recorded Value :=
  match type with
  | .scalar (.text tag) => Build.element seat tag props children
  | .brokenText pieces => Build.element seat (Text.filled pieces) props children
  | .callable c => do
    let merged ← (Build.lift (mergeChildren props children) : Build Value)
    if Build.isFragment seat c then Build.fragment seat merged
    else
      let result ← call c [merged]
      Recorded.note c result
      Build.finish seat c.name (p.hooks c) result
  | v => (throw (v.faultShowing .notBuildable) : Build Value)

mutual

/-- Evaluate an expression within a call, with a record. -/
def recordIn (p : Program) (call : Callable → List Value → Recorded Value) (frame : Frame) :
    Expr → Recorded Value
  | .value v => pure v
  | .list items => return .list (← recordAll p call frame items)
  | .tuple items => return .tuple (← recordAll p call frame items)
  | .table entries => return .table (Entries.ofPairs (← recordEntries p call frame entries))
  | .view entries => return .view (Entries.ofPairs (← recordEntries p call frame entries))
  | .handler kind fields => do
    let fields ← recordEntries p call frame fields
    match Handler.ofFields? kind (Entries.ofPairs fields) with
    | some h => return .handler h
    | none => (throw .invalidHandler : Build Value)
  | .build type given children => do
    let type ← recordIn p call frame type
    let given ← recordIn p call frame given
    let children ← recordAll p call frame children
    let w ← (get : Build Workshop)
    p.recordNode call w.active type given children
  | .component ref => p.component ref
  | .callFragment given => do
    let given ← recordIn p call frame given
    let w ← (get : Build Workshop)
    Build.fragment w.active given
  | .prop name fallback =>
    match frame.prop? name with
    | some v => pure v
    | none => recordIn p call frame fallback
  | .props => pure frame.first
  | .param name => pure (frame.param name)
  | .bind name expr => do
    let v ← recordIn p call frame expr
    (modify fun w => { w with names := w.names.set name v } : Build Unit)
    return v
  | .ref name => do
    let w ← (get : Build Workshop)
    return (w.names.get? name).getD .none
  | .seq items => return ((← recordAll p call frame items).getLast?).getD .none

/-- Evaluate expressions in order, with a record. -/
def recordAll (p : Program) (call : Callable → List Value → Recorded Value) (frame : Frame) :
    List Expr → Recorded (List Value)
  | [] => pure []
  | e :: es => do
    let v ← recordIn p call frame e
    return v :: (← recordAll p call frame es)

/-- Evaluate named expressions in order, with a record. -/
def recordEntries (p : Program) (call : Callable → List Value → Recorded Value) (frame : Frame) :
    List (String × Expr) → Recorded (List (String × Value))
  | [] => pure []
  | (k, e) :: es => do
    let v ← recordIn p call frame e
    return (k, v) :: (← recordEntries p call frame es)

end

/-- Call a callable, with a record. Only components call others. -/
def recordWithin (p : Program) : (depth : Nat) → Callable → List Value → Recorded Value
  | depth + 1, .component ref name isObject, arguments =>
    match Entries.get? p ref with
    | some d => recordIn p (p.recordWithin depth) ⟨arguments, d.parameters⟩ d.body
    | none => p.callWithin (depth + 1) (.component ref name isObject) arguments
  | depth, c, arguments => p.callWithin depth c arguments

/-- Evaluate an expression outside of any component, with a record. -/
def recordEval (p : Program) (e : Expr) : Recorded Value :=
  recordIn p (p.recordWithin callDepth) {} e

end Program

/-! ## Without the record -/

namespace Recorded

variable {α β : Type} {x : Recorded α} {y : Build α} {w v : Workshop} {returns : List Return}

/-- An outcome without the record. -/
def forget : EStateM.Result Fault (Workshop × List Return) α → EStateM.Result Fault Workshop α
  | .ok a s => .ok a s.1
  | .error fault s => .error fault s.1

/-- Without its record, an operation is another one. -/
def Erases (x : Recorded α) (y : Build α) : Prop := ∀ s, forget (x s) = y s.1

theorem erases_lift (y : Build α) : Erases (liftM y) y := by
  intro s
  change forget (ofBuild y s) = y s.1
  unfold ofBuild
  cases y s.1 <;> rfl

theorem erases_pure (a : α) : Erases (pure a) (pure a) := fun _ => rfl

theorem erases_note (c : Callable) (result : Value) : Erases (note c result) (pure ()) :=
  fun _ => rfl

theorem Erases.bind {f : α → Recorded β} {g : α → Build β} (hx : Erases x y)
    (hf : ∀ a, Erases (f a) (g a)) : Erases (x >>= f) (y >>= g) := by
  intro s
  have hxs := hx s
  cases hrun : x s with
  | ok a u =>
    rw [hrun] at hxs
    rw [bind_of_ok hrun, bind_of_ok hxs.symm]
    exact hf a u
  | error fault u =>
    rw [hrun] at hxs
    rw [bind_of_error hrun, bind_of_error hxs.symm]
    rfl

theorem Erases.of_ok (h : Erases x y) {a : α} {s : Workshop × List Return}
    (hx : x (w, returns) = .ok a s) : y w = .ok a s.1 := by
  have hxs := h (w, returns)
  rw [hx] at hxs
  exact hxs.symm

theorem Erases.of_error (h : Erases x y) {fault : Fault} {s : Workshop × List Return}
    (hx : x (w, returns) = .error fault s) : y w = .error fault s.1 := by
  have hxs := h (w, returns)
  rw [hx] at hxs
  exact hxs.symm

/-- An operation that succeeds has a record. -/
theorem Erases.exists_ok (h : Erases x y) {a : α} (hy : y w = .ok a v) (returns : List Return) :
    ∃ returns', x (w, returns) = .ok a (v, returns') := by
  have hxs := (h (w, returns)).trans hy
  cases hx : x (w, returns) with
  | ok b s =>
    rw [hx] at hxs
    cases hxs
    exact ⟨s.2, rfl⟩
  | error fault s =>
    rw [hx] at hxs
    cases hxs

/-- So does one that fails. -/
theorem Erases.exists_error (h : Erases x y) {fault : Fault} (hy : y w = .error fault v)
    (returns : List Return) : ∃ returns', x (w, returns) = .error fault (v, returns') := by
  have hxs := (h (w, returns)).trans hy
  cases hx : x (w, returns) with
  | ok b s =>
    rw [hx] at hxs
    cases hxs
  | error fault s =>
    rw [hx] at hxs
    cases hxs
    exact ⟨s.2, rfl⟩

end Recorded

namespace Program

open Recorded

variable {p : Program} {call : Callable → List Value → Build Value}
  {record : Callable → List Value → Recorded Value} {frame : Frame}

theorem erases_recordNode (h : ∀ c arguments, Erases (record c arguments) (call c arguments))
    (seat : Seat) (type props : Value) (children : List Value) :
    Erases (p.recordNode record seat type props children)
      (Build.node (p.author call) seat type props children) := by
  cases type with
  | scalar s => cases s <;> exact erases_lift _
  | callable c =>
    refine (erases_lift _).bind fun merged => ?_
    split
    · exact erases_lift _
    · exact (h c [merged]).bind fun result => (erases_note c result).bind fun _ => erases_lift _
  | _ => exact erases_lift _

mutual

theorem erases_recordIn (h : ∀ c arguments, Erases (record c arguments) (call c arguments)) :
    ∀ e : Expr, Erases (recordIn p record frame e) (evalIn p call frame e)
  | .value v => erases_pure v
  | .list items => (erases_recordAll h items).bind fun _ => erases_pure _
  | .tuple items => (erases_recordAll h items).bind fun _ => erases_pure _
  | .table entries => (erases_recordEntries h entries).bind fun _ => erases_pure _
  | .view entries => (erases_recordEntries h entries).bind fun _ => erases_pure _
  | .handler kind fields => by
    refine (erases_recordEntries h fields).bind fun xs => ?_
    cases Handler.ofFields? kind (Entries.ofPairs xs) with
    | some handler => exact erases_pure _
    | none => exact erases_lift _
  | .build type given children =>
    (erases_recordIn h type).bind fun t => (erases_recordIn h given).bind fun g =>
      (erases_recordAll h children).bind fun cs => (erases_lift get).bind fun w =>
        erases_recordNode h w.active t g cs
  | .component _ => erases_lift _
  | .callFragment given =>
    (erases_recordIn h given).bind fun _ => (erases_lift get).bind fun _ => erases_lift _
  | .prop name fallback => by
    simp only [recordIn, evalIn]
    cases frame.prop? name with
    | some v => exact erases_pure v
    | none => exact erases_recordIn h fallback
  | .props => erases_pure _
  | .param name => erases_pure _
  | .bind name e =>
    (erases_recordIn h e).bind fun _ => (erases_lift _).bind fun _ => erases_pure _
  | .ref name => (erases_lift get).bind fun _ => erases_pure _
  | .seq items => (erases_recordAll h items).bind fun _ => erases_pure _

theorem erases_recordAll (h : ∀ c arguments, Erases (record c arguments) (call c arguments)) :
    ∀ es : List Expr, Erases (recordAll p record frame es) (evalAll p call frame es)
  | [] => erases_pure []
  | e :: es => (erases_recordIn h e).bind fun _ => (erases_recordAll h es).bind fun _ =>
      erases_pure _

theorem erases_recordEntries (h : ∀ c arguments, Erases (record c arguments) (call c arguments)) :
    ∀ es : List (String × Expr),
      Erases (recordEntries p record frame es) (evalEntries p call frame es)
  | [] => erases_pure []
  | (_, e) :: es => (erases_recordIn h e).bind fun _ => (erases_recordEntries h es).bind fun _ =>
      erases_pure _

end

/-- **The record changes nothing**: without it, a recorded call is a call. -/
theorem erases_recordWithin (p : Program) : ∀ (depth : Nat) (c : Callable)
    (arguments : List Value), Erases (p.recordWithin depth c arguments)
      (p.callWithin depth c arguments)
  | 0, c, arguments => by cases c <;> exact erases_lift _
  | depth + 1, c, arguments => by
    cases c with
    | component ref name isObject =>
      rw [recordWithin]
      cases hd : Entries.get? p ref with
      | some d =>
        have hcall : p.callWithin (depth + 1) (.component ref name isObject) arguments =
            evalIn p (p.callWithin depth) ⟨arguments, d.parameters⟩ d.body := by
          simp only [callWithin, hd]
        rw [hcall]
        exact erases_recordIn (p.erases_recordWithin depth) d.body
      | none => exact erases_lift _
    | _ => exact erases_lift _

theorem erases_recordEval (p : Program) (e : Expr) : Erases (p.recordEval e) (p.eval e) :=
  erases_recordIn (p.erases_recordWithin callDepth) e

end Program

/-! ## Invariants of recorded evaluation -/

namespace Recorded

variable {α β : Type} {I J : Workshop → List Return → Prop} {w : Workshop} {returns : List Return}

/-- What an operation leaves: `I` where it succeeds, and `J` where it fails. -/
def Leaves (I J : Workshop → List Return → Prop) :
    EStateM.Result Fault (Workshop × List Return) α → Prop
  | .ok _ s => I s.1 s.2
  | .error _ s => J s.1 s.2

/-- An operation that finds `I` leaves `I` where it succeeds, and `J` where it fails. -/
def Maintains (I J : Workshop → List Return → Prop) (x : Recorded α) : Prop :=
  ∀ w returns, I w returns → Leaves I J (x (w, returns))

theorem leaves_ofBuild {y : Build α} (hok : ∀ a v, y w = .ok a v → I v returns)
    (herror : ∀ fault v, y w = .error fault v → J v returns) :
    Leaves I J (ofBuild y (w, returns)) := by
  unfold ofBuild
  cases hrun : y w with
  | ok a v => exact hok a v hrun
  | error fault v => exact herror fault v hrun

theorem maintains_pure (a : α) : Maintains I J (pure a) := fun _ _ hw => hw

theorem Maintains.bind {x : Recorded α} {f : α → Recorded β} (hx : Maintains I J x)
    (hf : ∀ a, Maintains I J (f a)) : Maintains I J (x >>= f) := by
  intro w returns hw
  have hxs := hx w returns hw
  cases hrun : x (w, returns) with
  | ok a s =>
    rw [hrun] at hxs
    rw [bind_of_ok hrun]
    exact hf a s.1 s.2 hxs
  | error fault s =>
    rw [hrun] at hxs
    rw [bind_of_error hrun]
    exact hxs

end Recorded

namespace Program

open Recorded

/-- A property of a workshop and a record of what callables gave, while builders of certain seats
serve: whatever evaluation does to either keeps it, and a failure leaves something weaker. -/
structure Attending (p : Program) (Serves : Seat → Prop) (I J : Workshop → List Return → Prop) :
    Prop where
  active : ∀ {w returns}, I w returns → Serves w.active
  weaken : ∀ {w returns}, I w returns → J w returns
  names : ∀ {w returns} names, I w returns → I { w with names } returns
  raise : ∀ {w returns} seat, I w returns →
    ∃ S, Build.Filling seat w S ∧ ∀ v, S v → I v returns
  spend : ∀ {w returns} seat counter, I w returns →
    J (w.setBuilder seat { w.builder seat with counter }) returns
  finish : ∀ {w returns seat} c result, Serves seat → I w returns →
    Leaves I J (ofBuild (Build.finish seat c.name (p.hooks c) result)
      (w, returns ++ [⟨c, result, w⟩]))

namespace Attending

variable {p : Program} {Serves : Seat → Prop} {I J : Workshop → List Return → Prop}
  {record : Callable → List Value → Recorded Value} {frame : Frame} {α : Type} {w : Workshop}
  {returns : List Return}

/-- An outcome of a builder that made an element, or could not mint. -/
theorem raised (h : p.Attending Serves I J) (seat : Seat) {y : Build α}
    (hy : ∀ {S}, Build.Filling seat w S →
      Ended S (fun _ => True) (y w) ∨ Build.Spent seat w (y w)) (hw : I w returns) :
    Leaves I J (ofBuild y (w, returns)) := by
  obtain ⟨S, hS, hI⟩ := h.raise seat hw
  rcases hy hS with hended | ⟨counter, hspent⟩
  · refine leaves_ofBuild (fun a v hrun => ?_) (fun fault v hrun => ?_) <;> rw [hrun] at hended
    · exact hI v hended
    · exact h.weaken (hI v hended.1)
  · refine leaves_ofBuild (fun a v hrun => ?_) (fun fault v hrun => ?_) <;> rw [hspent] at hrun
    · cases hrun
    · cases hrun
      exact h.spend seat counter hw

theorem element (h : p.Attending Serves I J) (seat : Seat) (tag : String) (props : Value)
    (children : List Value) :
    Maintains I J (liftM (Build.element seat tag props children) : Recorded Value) :=
  fun _ _ hw => h.raised seat (fun hS => hS.element buildFaults_any tag props children) hw

theorem fragment (h : p.Attending Serves I J) (seat : Seat) (props : Value) :
    Maintains I J (liftM (Build.fragment seat props) : Recorded Value) :=
  fun _ _ hw => h.raised seat (fun hS => hS.fragment buildFaults_any props) hw

/-- An operation that cannot change a workshop keeps everything. -/
theorem reading (h : p.Attending Serves I J) {y : Build α}
    (hy : ∀ w, Ended (· = w) (fun _ => True) (y w)) : Maintains I J (liftM y : Recorded α) := by
  intro w returns hw
  have hended := hy w
  change Leaves I J (ofBuild y (w, returns))
  refine leaves_ofBuild (fun a v hrun => ?_) (fun fault v hrun => ?_) <;> rw [hrun] at hended
  · exact hended.symm ▸ hw
  · exact hended.1.symm ▸ h.weaken hw

/-- What depends on the active builder depends on one that serves. -/
theorem serving (h : p.Attending Serves I J) {f : Seat → Recorded α}
    (hf : ∀ seat, Serves seat → Maintains I J (f seat)) :
    Maintains I J (liftM (get : Build Workshop) >>= fun w => f w.active) :=
  fun w returns hw => hf w.active (h.active hw) w returns hw

theorem recordNode (h : p.Attending Serves I J)
    (hcall : ∀ c arguments, Maintains I J (record c arguments)) {seat : Seat} (hseat : Serves seat)
    (type props : Value) (children : List Value) :
    Maintains I J (p.recordNode record seat type props children) := by
  unfold Program.recordNode
  split
  · exact h.element _ _ _ _
  · exact h.element _ _ _ _
  · next c =>
    refine (h.reading fun w => Ended.lift rfl fun _ _ => trivial).bind fun merged => ?_
    split
    · exact h.fragment _ _
    · refine (hcall c [merged]).bind fun result => ?_
      exact fun w returns hw => h.finish c result hseat hw
  · exact h.reading fun _ => ⟨rfl, trivial⟩

theorem component (h : p.Attending Serves I J) (ref : String) :
    Maintains I J (liftM (p.component ref) : Recorded Value) := by
  refine h.reading fun w => ?_
  unfold Program.component
  cases Entries.get? p ref with
  | some d => rfl
  | none => exact ⟨rfl, trivial⟩

mutual

theorem recordIn (h : p.Attending Serves I J)
    (hcall : ∀ c arguments, Maintains I J (record c arguments)) :
    ∀ e : Expr, Maintains I J (Program.recordIn p record frame e)
  | .value v => maintains_pure v
  | .list items => (recordAll h hcall items).bind fun _ => maintains_pure _
  | .tuple items => (recordAll h hcall items).bind fun _ => maintains_pure _
  | .table entries => (recordEntries h hcall entries).bind fun _ => maintains_pure _
  | .view entries => (recordEntries h hcall entries).bind fun _ => maintains_pure _
  | .handler kind fields => by
    refine (recordEntries h hcall fields).bind fun xs => ?_
    cases Handler.ofFields? kind (Entries.ofPairs xs) with
    | some handler => exact maintains_pure _
    | none => exact h.reading fun _ => ⟨rfl, trivial⟩
  | .build type given children =>
    (recordIn h hcall type).bind fun t => (recordIn h hcall given).bind fun g =>
      (recordAll h hcall children).bind fun cs =>
        h.serving (f := fun seat => p.recordNode record seat t g cs) fun _ hseat =>
          h.recordNode hcall hseat t g cs
  | .component ref => h.component ref
  | .callFragment given =>
    (recordIn h hcall given).bind fun g =>
      h.serving (f := fun seat => liftM (Build.fragment seat g)) fun seat _ => h.fragment seat g
  | .prop name fallback => by
    rw [Program.recordIn]
    cases frame.prop? name with
    | some v => exact maintains_pure v
    | none => exact recordIn h hcall fallback
  | .props => maintains_pure _
  | .param name => maintains_pure _
  | .bind name e =>
    (recordIn h hcall e).bind fun v =>
      Maintains.bind (fun w _ hw => h.names (w.names.set name v) hw) fun _ => maintains_pure v
  | .ref name => (h.reading (y := get) fun _ => rfl).bind fun _ => maintains_pure _
  | .seq items => (recordAll h hcall items).bind fun _ => maintains_pure _

theorem recordAll (h : p.Attending Serves I J)
    (hcall : ∀ c arguments, Maintains I J (record c arguments)) :
    ∀ es : List Expr, Maintains I J (Program.recordAll p record frame es)
  | [] => maintains_pure []
  | e :: es => (recordIn h hcall e).bind fun _ => (recordAll h hcall es).bind fun _ =>
      maintains_pure _

theorem recordEntries (h : p.Attending Serves I J)
    (hcall : ∀ c arguments, Maintains I J (record c arguments)) :
    ∀ es : List (String × Expr), Maintains I J (Program.recordEntries p record frame es)
  | [] => maintains_pure []
  | (_, e) :: es => (recordIn h hcall e).bind fun _ => (recordEntries h hcall es).bind fun _ =>
      maintains_pure _

end

/-- **Calls attend to an invariant**, to whatever depth they may nest. -/
theorem recordWithin (h : p.Attending Serves I J) : ∀ (depth : Nat) (c : Callable)
    (arguments : List Value), Maintains I J (p.recordWithin depth c arguments)
  | 0, c, arguments => by cases c <;> exact h.reading fun _ => ⟨rfl, trivial⟩
  | depth + 1, c, arguments => by
    cases c with
    | idle => exact h.reading fun _ => rfl
    | fragment => exact fun w returns hw => h.fragment w.active _ w returns hw
    | fragmentOf seat => exact h.fragment seat _
    | component ref name isObject =>
      rw [Program.recordWithin]
      cases hd : Entries.get? p ref with
      | some d => exact recordIn h (recordWithin h depth) d.body
      | none =>
        refine h.reading fun w => ?_
        simp only [callWithin, hd]
        exact ⟨rfl, trivial⟩
    | inherent name =>
      refine h.reading fun w => ?_
      rw [callWithin]
      cases Inherent.ofName? name with
      | some i => exact Ended.lift rfl fun _ _ => trivial
      | none => exact ⟨rfl, trivial⟩

/-- **Expressions attend to an invariant.** -/
theorem recordEval (h : p.Attending Serves I J) (e : Expr) : Maintains I J (p.recordEval e) :=
  recordIn h (h.recordWithin callDepth) e

end Attending

end Program

end Pageloom
