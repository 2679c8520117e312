import Pageloom.Factory
import Pageloom.Instruction.Compile
import Pageloom.Proofs.Holding
import Pageloom.Proofs.Outcome

/-!
# Direct construction of a body

A body can be put on a live page without any instructions: make the node of an
element with its whole face, construct its children one by one, and call a
factory for every nested component. Running the compiled instructions comes to
the same outcome. The instructions address nodes by variables; since a variable
is a fixed text followed by a number that is used once, no later step overwrites
what an earlier one still needs.

## Main definitions

* `Pageloom.liveText`, `Pageloom.Element.face` -- an element on a live page
* `Pageloom.Body.construct` -- the direct construction
* `Pageloom.Body.run_compile` -- the instructions come to the same outcome
* `Pageloom.Body.construct_error` -- why a construction fails
* `Pageloom.Body.resolves_of_construct` -- what it needs to succeed
-/

namespace Pageloom

theorem Live.resolve_of_hasText {bindings : Bindings} {name : String} {v : Value}
    (h : bindings name = .ok v) (htext : v.hasText = true) :
    Live.resolve bindings name = .ok v.plain := by
  rw [resolve, h]
  exact Value.plainText_of_hasText htext

/-- A name has no text if it stands for nothing, or for a value that has none. -/
theorem Live.resolve_eq_error {bindings : Bindings} {name : String} {fault : Fault}
    (h : Live.resolve bindings name = .error fault) :
    bindings name = .error fault ∨
      ∃ v, bindings name = .ok v ∧ v.hasText = false ∧ fault = .wrongValue := by
  unfold resolve at h
  cases hvalue : bindings name with
  | error e =>
    rw [hvalue] at h
    cases h
    exact .inl rfl
  | ok v =>
    rw [hvalue] at h
    cases htext : v.hasText with
    | true => cases (Value.plainText_of_hasText htext).symm.trans h
    | false =>
      cases (Value.plainText_of_not_hasText htext).symm.trans h
      exact .inr ⟨v, rfl, htext, rfl⟩

/-- The text of a value on a live page: a reference stands for the text of what
its name is bound to, any other value for itself. -/
def liveText (cue : Cue) (bindings : Bindings) (value : String) : Except Fault String :=
  match referenceName? cue value with
  | some name => Live.resolve bindings name
  | none => .ok value

/-- Write an attribute other than the class to a face. The style has a place of
its own. -/
def Face.write (cue : Cue) (bindings : Bindings) (f : Face) (a : String × String) :
    Except Fault Face := do
  let text ← liveText cue bindings a.2
  return if a.1 = "style" then { f with style := .text text }
    else { f with attributes := f.attributes.set a.1 (.text text) }

/-- The text that a live node says of itself, or none. -/
def optionalText (cue : Cue) (bindings : Bindings) : Option String → Except Fault Value
  | some t => (liveText cue bindings t).map Value.text
  | none => .ok .none

/-- What an element says of itself on a live page: its tag and class, its other
attributes in order, its text if nothing stands below it, and its click
expression. -/
def Element.face (cue : Cue) (bindings : Bindings) (childless : Bool) (e : Element) :
    Except Fault Face := do
  let f ← e.plainAttributes.foldlM (Face.write cue bindings)
    { tag := e.tag, className := .text e.classValue }
  let text ← optionalText cue bindings (if childless then e.text else none)
  return { f with text, onClick := (e.onClick.map fun h => Value.text h.expression).getD .none }

/-- The arguments of a call: the text of each name's value. -/
def callArguments (bindings : Bindings) (names : List String) : Except Fault (List Value) :=
  names.mapM fun name => (Live.resolve bindings name).map Value.text

namespace Body

mutual

/-- Construct a body, given what calling a factory does. -/
def construct (invoke : String → Except Fault (List Value) → Live Nat) (bindings : Bindings)
    (cue : Cue) : Body → Live Nat
  | .element e cs => do
    let face ← Live.lift (e.face cue bindings cs.isEmpty)
    let i ← Live.make fun d => d.add face
    constructAll invoke bindings cue i cs
    return i
  | .call key names => invoke key (callArguments bindings names)

/-- Construct bodies as the last children of a node, one by one. -/
def constructAll (invoke : String → Except Fault (List Value) → Live Nat) (bindings : Bindings)
    (cue : Cue) (parent : Nat) : List Body → Live Unit
  | [] => pure ()
  | c :: cs => do
    let j ← construct invoke bindings cue c
    Live.modifyDocument fun d => d.append parent j
    constructAll invoke bindings cue parent cs

end

end Body

/-! ## Variables -/

theorem variableName_inj {lead : String} {m n : Nat} :
    variableName lead m = variableName lead n ↔ m = n := by
  refine ⟨fun h => ?_, fun h => h ▸ rfl⟩
  have hdigits := congrArg String.toList ((String.append_right_inj lead).mp h)
  rw [Nat.toList_repr, Nat.toList_repr] at hdigits
  have hvalue := congrArg (Nat.ofDigitChars 10 · 0) hdigits
  simpa [Nat.ofDigitChars_toDigits] using hvalue

/-- Variables with numbers below `n` stand for the same nodes. -/
def AgreeBelow (lead : String) (n : Nat) (vars vars' : Entries Nat) : Prop :=
  ∀ m < n, vars'.get? (variableName lead m) = vars.get? (variableName lead m)

theorem AgreeBelow.refl (lead : String) (n : Nat) (vars : Entries Nat) :
    AgreeBelow lead n vars vars := fun _ _ => rfl

theorem AgreeBelow.trans {lead : String} {m n : Nat} {vars vars' vars'' : Entries Nat}
    (h : AgreeBelow lead n vars vars') (h' : AgreeBelow lead m vars' vars'') (hle : n ≤ m) :
    AgreeBelow lead n vars vars'' :=
  fun k hk => (h' k (by omega)).trans (h k hk)

theorem agreeBelow_set (lead : String) (n : Nat) (vars : Entries Nat) (i : Nat) :
    AgreeBelow lead n vars (vars.set (variableName lead n) i) := by
  intro m hm
  rw [Entries.get?_set, if_neg (by rw [variableName_inj]; omega)]

/-! ## The steps of one element

While an element is made, its node is the last one of the document. Filling it in
step by step is the same as making it with a face that was filled in before. -/

/-- The page with one more node, which has no place yet. -/
def Stage.withNode (s : Stage) (face : Face) : Stage :=
  { s with document := (s.document.add face).1 }

namespace Live

variable {invoke : String → Except Fault (List Value) → Live Nat} {bindings : Bindings}
  {vars vars' : Entries Nat} {s t : Stage}

theorem run_cons_of_ok {step : Instruction} {rest : List Instruction}
    (hstep : Live.step invoke bindings vars step s = .ok vars' t)
    (hgive : ∀ var, step ≠ .giveNode var) :
    run invoke bindings vars (step :: rest) s = run invoke bindings vars' rest t := by
  cases step with
  | giveNode var => exact absurd rfl (hgive var)
  | _ => exact bind_of_ok hstep

theorem run_cons_of_error {step : Instruction} {rest : List Instruction} {e : Fault}
    (hstep : Live.step invoke bindings vars step s = .error e t)
    (hgive : ∀ var, step ≠ .giveNode var) :
    run invoke bindings vars (step :: rest) s = .error e t := by
  cases step with
  | giveNode var => exact absurd rfl (hgive var)
  | _ => exact bind_of_error hstep

theorem evaluate_operandOf (cue : Cue) (value : String) :
    evaluate bindings (operandOf cue value) = liveText cue bindings value := by
  unfold operandOf liveText
  cases referenceName? cue value <;> rfl

variable {var : String} {face : Face} {cue : Cue}

theorem modify_withNode (change : Face → Face) (rest : Live (Entries Nat)) :
    (do modifyDocument fun d => d.modifyFace s.document.cells.size change
        rest : Live (Entries Nat)) (s.withNode face) = rest (s.withNode (change face)) := by
  refine bind_of_ok (a := ()) (modifyDocument_eq_ok.mpr ?_)
  simp only [Stage.withNode, Document.modifyFace_add]

theorem lookup_of_get? {i : Nat} (h : vars.get? var = some i) : lookup vars var s = .ok i s := by
  simp only [lookup, h]
  rfl

theorem step_attributeStep (hvar : vars.get? var = some s.document.cells.size)
    (a : String × String) :
    Live.step invoke bindings vars (Element.attributeStep cue var a) (s.withNode face) =
      match face.write cue bindings a with
      | .ok g => .ok vars (s.withNode g)
      | .error e => .error e (s.withNode face) := by
  unfold Element.attributeStep Face.write
  by_cases hstyle : a.1 = "style"
  · simp only [hstyle, if_true, Live.step, evaluate_operandOf]
    cases liveText cue bindings a.2 with
    | error e => rfl
    | ok text =>
      rw [bind_of_ok (lift_ok text _), bind_of_ok (lookup_of_get? hvar), modify_withNode]
      rfl
  · simp only [hstyle, if_false, Live.step, evaluate_operandOf]
    rw [bind_of_ok (lookup_of_get? hvar)]
    cases liveText cue bindings a.2 with
    | error e => rfl
    | ok text =>
      rw [bind_of_ok (lift_ok text _)]
      exact modify_withNode _ _

theorem attributeStep_ne_giveNode (a : String × String) (other : String) :
    Element.attributeStep cue var a ≠ .giveNode other := by
  unfold Element.attributeStep
  split <;> simp

/-- A run goes on as `next` says with what was computed, or fails as the
computation did and without further calls. -/
def Follows {α : Type} (calls : List (String × List Value))
    (result : EStateM.Result Fault Stage Nat)
    (computed : Except Fault α) (next : α → EStateM.Result Fault Stage Nat) : Prop :=
  match computed with
  | .ok a => result = next a
  | .error e => ∃ u, result = .error e u ∧ u.calls = calls

theorem Follows.bind {α β : Type} {calls : List (String × List Value)}
    {result : EStateM.Result Fault Stage Nat} {x : Except Fault α} {k : α → Except Fault β}
    {middle : α → EStateM.Result Fault Stage Nat} {next : β → EStateM.Result Fault Stage Nat}
    (h : Follows calls result x middle)
    (h' : ∀ a, x = .ok a → Follows calls (middle a) (k a) next) :
    Follows calls result (x >>= k) next := by
  cases x with
  | error e => exact h
  | ok a =>
    change Follows calls result (k a) next
    rw [show result = middle a from h]
    exact h' a rfl

theorem run_attributeSteps (hvar : vars.get? var = some s.document.cells.size)
    (rest : List Instruction) (attributes : List (String × String)) (face : Face) :
    Follows s.calls
      (run invoke bindings vars (attributes.map (Element.attributeStep cue var) ++ rest)
        (s.withNode face))
      (attributes.foldlM (Face.write cue bindings) face)
      (fun g => run invoke bindings vars rest (s.withNode g)) := by
  induction attributes generalizing face with
  | nil => rfl
  | cons a attributes ih =>
    have hstep : Live.step invoke bindings vars (Element.attributeStep cue var a)
        (s.withNode face) = _ := step_attributeStep hvar a
    rw [List.foldlM_cons, List.map_cons, List.cons_append]
    cases hwrite : face.write cue bindings a with
    | error e =>
      rw [hwrite] at hstep
      exact ⟨_, run_cons_of_error hstep (attributeStep_ne_giveNode a), rfl⟩
    | ok g =>
      rw [hwrite] at hstep
      rw [run_cons_of_ok hstep (attributeStep_ne_giveNode a)]
      exact ih g

theorem run_textSteps (hvar : vars.get? var = some s.document.cells.size)
    (rest : List Instruction) (text : Option String) (face : Face) (hface : face.text = .none) :
    Follows s.calls
      (run invoke bindings vars ((text.toList.map fun t => .setText var (operandOf cue t)) ++ rest)
        (s.withNode face))
      (optionalText cue bindings text)
      (fun v => run invoke bindings vars rest (s.withNode { face with text := v })) := by
  cases text with
  | none =>
    change run invoke bindings vars rest _ = run invoke bindings vars rest _
    rw [← hface]
  | some t =>
    have hstep : Live.step invoke bindings vars (.setText var (operandOf cue t)) (s.withNode face) =
        match liveText cue bindings t with
        | .ok text => .ok vars (s.withNode { face with text := .text text })
        | .error e => .error e (s.withNode face) := by
      simp only [Live.step, evaluate_operandOf]
      cases liveText cue bindings t with
      | error e => rfl
      | ok text =>
        rw [bind_of_ok (lift_ok text _), bind_of_ok (lookup_of_get? hvar), modify_withNode]
        rfl
    change Follows s.calls (run invoke bindings vars (.setText var (operandOf cue t) :: rest) _)
      ((liveText cue bindings t).map Value.text) _
    cases htext : liveText cue bindings t with
    | error e =>
      rw [htext] at hstep
      exact ⟨_, run_cons_of_error hstep (by simp), rfl⟩
    | ok text =>
      rw [htext] at hstep
      exact run_cons_of_ok hstep (by simp)

theorem run_clickSteps (hvar : vars.get? var = some s.document.cells.size)
    (rest : List Instruction) (click : Option Handler) (face : Face)
    (hface : face.onClick = .none) :
    run invoke bindings vars ((click.toList.map fun h => .assignClick var h.expression) ++ rest)
        (s.withNode face) =
      run invoke bindings vars rest
        (s.withNode { face with
          onClick := (click.map fun h => Value.text h.expression).getD .none }) := by
  cases click with
  | none =>
    change run invoke bindings vars rest _ = run invoke bindings vars rest _
    simp [← hface]
  | some h =>
    refine run_cons_of_ok ?_ (by simp)
    simp only [Live.step]
    rw [bind_of_ok (lookup_of_get? hvar), modify_withNode]
    rfl

/-- No attribute is written to the text or to the click expression. -/
theorem foldlM_write_keeps {attributes : List (String × String)} {face g : Face}
    (h : attributes.foldlM (Face.write cue bindings) face = .ok g) :
    g.text = face.text ∧ g.onClick = face.onClick := by
  induction attributes generalizing face with
  | nil =>
    cases h
    exact ⟨rfl, rfl⟩
  | cons a attributes ih =>
    rw [List.foldlM_cons] at h
    unfold Face.write at h
    cases htext : liveText cue bindings a.2 with
    | error e =>
      rw [htext] at h
      cases h
    | ok text =>
      rw [htext] at h
      have hrest := ih h
      by_cases hstyle : a.1 = "style"
      · simpa [hstyle] using hrest
      · simpa [hstyle] using hrest

/-- **The steps of an element make its node with the face of the element.** -/
theorem run_elementSteps (e : Element) (childless : Bool) (rest : List Instruction) (s : Stage)
    (vars : Entries Nat) (var : String) :
    Follows s.calls (run invoke bindings vars (e.steps cue var childless ++ rest) s)
      (e.face cue bindings childless)
      (fun face => run invoke bindings (vars.set var s.document.cells.size) rest
        (s.withNode face)) := by
  have hvar : (vars.set var s.document.cells.size).get? var = some s.document.cells.size :=
    Entries.get?_set_self vars var _
  have hmade : ∀ more, run invoke bindings vars
      ([.createElement var e.tag, .assignClass var e.classValue] ++ more) s =
      run invoke bindings (vars.set var s.document.cells.size) more
        (s.withNode { tag := e.tag, className := .text e.classValue }) := by
    intro more
    have hcreate : Live.step invoke bindings vars (.createElement var e.tag) s =
        .ok (vars.set var s.document.cells.size) (s.withNode { tag := e.tag }) := rfl
    refine (run_cons_of_ok hcreate (by simp)).trans (run_cons_of_ok ?_ (by simp))
    simp only [Live.step]
    rw [bind_of_ok (lookup_of_get? hvar), modify_withNode]
    rfl
  have htextSteps : (if childless then
      e.text.toList.map fun t => Instruction.setText var (operandOf cue t) else []) =
      (if childless then e.text else none).toList.map
        fun t => Instruction.setText var (operandOf cue t) := by
    cases childless <;> rfl
  unfold Element.steps Element.face
  rw [List.append_assoc, List.append_assoc, List.append_assoc, hmade, htextSteps]
  refine (run_attributeSteps hvar _ _ _).bind fun face hwritten => ?_
  obtain ⟨htext, hclick⟩ := foldlM_write_keeps hwritten
  refine (run_textSteps hvar _ _ face htext).bind fun v _ => ?_
  exact run_clickSteps hvar rest e.onClick _ hclick

end Live

/-! ## The steps of a body -/

/-- A run goes on after a construction that succeeded, and fails as one that
failed. -/
def Carries {α : Type} (result : EStateM.Result Fault Stage Nat)
    (outcome : EStateM.Result Fault Stage α) (continues : α → Stage → Prop) : Prop :=
  match outcome with
  | .ok a t => continues a t
  | .error e t => ∃ u, result = .error e u ∧ u.calls = t.calls

theorem Carries.bind {α β : Type} {result : EStateM.Result Fault Stage Nat} {x : Live α}
    {f : α → Live β} {continues : β → Stage → Prop} {s : Stage}
    (h : Carries result (x s) fun a t => Carries result (f a t) continues) :
    Carries result ((x >>= f) s) continues := by
  cases hx : x s with
  | error e t =>
    rw [hx] at h
    rw [bind_of_error hx]
    exact h
  | ok a t =>
    rw [hx] at h
    rw [bind_of_ok hx]
    exact h

theorem Carries.imp {α : Type} {result : EStateM.Result Fault Stage Nat}
    {outcome : EStateM.Result Fault Stage α} {p q : α → Stage → Prop}
    (h : Carries result outcome p) (hpq : ∀ a t, p a t → q a t) : Carries result outcome q := by
  cases outcome with
  | error e t => exact h
  | ok a t => exact hpq a t h

namespace Body

variable {invoke : String → Except Fault (List Value) → Live Nat} {bindings : Bindings}
  {lead : String} {cue : Cue}

mutual

theorem lt_emit_snd : ∀ (b : Body) (n : Nat), n < (b.emit lead cue n).2
  | .element _ cs, n => le_emitAll_snd cs (n + 1)
  | .call _ _, n => Nat.lt_succ_self n

theorem le_emitAll_snd {parent : String} :
    ∀ (cs : List Body) (n : Nat), n ≤ (emitAll lead cue parent cs n).2
  | [], n => Nat.le_refl n
  | c :: cs, n => Nat.le_trans (Nat.le_of_lt (lt_emit_snd c n)) (le_emitAll_snd cs _)

end

mutual

/-- The steps of a body leave its node in the variable of the body's number, and
variables with lower numbers alone. -/
theorem run_emit : ∀ (b : Body) (n : Nat) (vars : Entries Nat) (rest : List Instruction)
    (s : Stage),
    Carries (Live.run invoke bindings vars ((b.emit lead cue n).1 ++ rest) s)
      (b.construct invoke bindings cue s)
      (fun i t => ∃ vars', vars'.get? (variableName lead n) = some i ∧
        AgreeBelow lead n vars vars' ∧
        Live.run invoke bindings vars ((b.emit lead cue n).1 ++ rest) s =
          Live.run invoke bindings vars' rest t)
  | .element e cs, n, vars, rest, s => by
    have hsteps : Live.Follows s.calls (Live.run invoke bindings vars
          (e.steps cue (variableName lead n) cs.isEmpty ++
            ((emitAll lead cue (variableName lead n) cs (n + 1)).1 ++ rest)) s)
        (e.face cue bindings cs.isEmpty) _ := Live.run_elementSteps e cs.isEmpty _ s vars _
    rw [← List.append_assoc] at hsteps
    cases hface : e.face cue bindings cs.isEmpty with
    | error fault =>
      rw [hface] at hsteps
      simp only [construct, hface]
      exact hsteps
    | ok face =>
      rw [hface] at hsteps
      have hbelow := run_emitAll cs (n + 1) n (Nat.lt_succ_self n) s.document.cells.size
        (vars.set (variableName lead n) s.document.cells.size) rest (s.withNode face)
        (Entries.get?_set_self _ _ _)
      simp only [construct, hface]
      refine Carries.bind (x := Live.lift (.ok face)) ?_
      refine Carries.bind (x := Live.make fun d => d.add face) ?_
      refine Carries.bind (x := constructAll invoke bindings cue _ cs) ?_
      change Carries _ (constructAll invoke bindings cue s.document.cells.size cs
        (s.withNode face)) _
      change Live.run invoke bindings vars ((emit lead cue (.element e cs) n).1 ++ rest) s = _
        at hsteps
      rw [hsteps]
      refine hbelow.imp fun _ t => ?_
      rintro ⟨vars', hagree, hrun⟩
      refine ⟨vars', ?_, (agreeBelow_set lead n vars _).trans hagree (by omega), hrun⟩
      rw [hagree n (by omega), Entries.get?_set_self]
  | .call key names, n, vars, rest, s => by
    have hstep : ∀ result, invoke key (callArguments bindings names) s = result →
        Live.step invoke bindings vars (.invokeFactory (variableName lead n) key names) s =
          match result with
          | .ok i t => .ok (vars.set (variableName lead n) i) t
          | .error e t => .error e t := by
      rintro (⟨i, t⟩ | ⟨e, t⟩) hresult
      · exact bind_of_ok hresult
      · exact bind_of_error hresult
    simp only [construct]
    cases hinvoke : invoke key (callArguments bindings names) s with
    | error e t => exact ⟨t, Live.run_cons_of_error (hstep _ hinvoke) (by simp), rfl⟩
    | ok i t =>
      exact ⟨vars.set (variableName lead n) i, Entries.get?_set_self _ _ _,
        agreeBelow_set lead n vars i, Live.run_cons_of_ok (hstep _ hinvoke) (by simp)⟩

/-- The steps of children append them to the node of a variable with a lower
number. -/
theorem run_emitAll : ∀ (cs : List Body) (n m : Nat) (_ : m < n) (i : Nat) (vars : Entries Nat)
    (rest : List Instruction) (s : Stage), vars.get? (variableName lead m) = some i →
    Carries
      (Live.run invoke bindings vars ((emitAll lead cue (variableName lead m) cs n).1 ++ rest) s)
      (constructAll invoke bindings cue i cs s)
      (fun _ t => ∃ vars', AgreeBelow lead n vars vars' ∧
        Live.run invoke bindings vars ((emitAll lead cue (variableName lead m) cs n).1 ++ rest) s =
          Live.run invoke bindings vars' rest t)
  | [], n, _, _, _, vars, _, _, _ => ⟨vars, AgreeBelow.refl lead n vars, rfl⟩
  | c :: cs, n, m, hm, i, vars, rest, s, hparent => by
    have hchild := run_emit c n vars (.appendChild (variableName lead m) (variableName lead n) ::
      (emitAll lead cue (variableName lead m) cs (c.emit lead cue n).2).1 ++ rest) s
    have hsplit : (emitAll lead cue (variableName lead m) (c :: cs) n).1 ++ rest =
        (c.emit lead cue n).1 ++ (.appendChild (variableName lead m) (variableName lead n) ::
          (emitAll lead cue (variableName lead m) cs (c.emit lead cue n).2).1 ++ rest) := by
      simp [emitAll]
    rw [hsplit]
    refine Carries.bind (x := construct invoke bindings cue c) (hchild.imp ?_)
    rintro j t ⟨vars', hj, hagree, hrun⟩
    have happend : Live.step invoke bindings vars'
        (.appendChild (variableName lead m) (variableName lead n)) t =
        .ok vars' { t with document := t.document.append i j } := by
      simp only [Live.step]
      rw [bind_of_ok (Live.lookup_of_get? ((hagree m hm).trans hparent)),
        bind_of_ok (Live.lookup_of_get? hj)]
      rfl
    have hrest := run_emitAll cs (c.emit lead cue n).2 m (Nat.lt_trans hm (lt_emit_snd c n)) i vars'
      rest { t with document := t.document.append i j } ((hagree m hm).trans hparent)
    rw [hrun, List.cons_append, Live.run_cons_of_ok happend (by simp)]
    refine hrest.imp fun _ u => ?_
    rintro ⟨vars'', hagree', hrun'⟩
    exact ⟨vars'', hagree.trans hagree' (Nat.le_of_lt (lt_emit_snd c n)), hrun'⟩

end

/-- **Running the steps of a body comes to the outcome of its construction.** -/
theorem run_compile (invoke : String → Except Fault (List Value) → Live Nat) (bindings : Bindings)
    (lead : String) (cue : Cue) (b : Body) (s : Stage) :
    SameOutcome (Live.run invoke bindings [] (b.compile lead cue) s)
      (b.construct invoke bindings cue s) := by
  have hrun : Carries (Live.run invoke bindings [] (b.compile lead cue) s)
      (b.construct invoke bindings cue s) _ :=
    run_emit b 1 [] [.giveNode (variableName lead 1)] s
  cases hbuilt : b.construct invoke bindings cue s with
  | error e t =>
    rw [hbuilt] at hrun
    obtain ⟨u, hu, hcalls⟩ := hrun
    rw [hu]
    exact ⟨rfl, hcalls⟩
  | ok i t =>
    rw [hbuilt] at hrun
    obtain ⟨vars', hvar, -, hrest⟩ := hrun
    have hgive : Live.run invoke bindings vars' [.giveNode (variableName lead 1)] t = .ok i t :=
      Live.lookup_of_get? hvar
    rw [show Live.run invoke bindings [] (b.compile lead cue) s = .ok i t from hrest.trans hgive]
    exact ⟨rfl, rfl⟩

mutual

/-- The calls of a body, in order: a key, and the names whose values are passed. -/
def calls : Body → List (String × List String)
  | .element _ cs => callsAll cs
  | .call key names => [(key, names)]

/-- The calls of bodies, in order. -/
def callsAll : List Body → List (String × List String)
  | [] => []
  | c :: cs => calls c ++ callsAll cs

end

mutual

/-- The names that a body uses as they are, in order: those that its values refer to, and
those that it passes on. -/
def names (cue : Cue) : Body → List String
  | .element e cs => (e.values cs.isEmpty).filterMap (referenceName? cue) ++ namesAll cue cs
  | .call _ arguments => arguments

/-- The names that bodies use as they are, in order. -/
def namesAll (cue : Cue) : List Body → List String
  | [] => []
  | c :: cs => names cue c ++ namesAll cue cs

end

mutual

/-- The names of a body are those that its values refer to and those that its calls pass on. -/
theorem mem_names {cue : Cue} {name : String} : ∀ {b : Body}, name ∈ b.names cue ↔
    (∃ value ∈ b.values, referenceName? cue value = some name) ∨ ∃ call ∈ b.calls, name ∈ call.2
  | .element e cs => by
    rw [names, values, calls, List.mem_append, List.mem_filterMap, mem_namesAll]
    simp only [List.mem_append, or_and_right, exists_or, or_assoc]
  | .call key arguments => by simp [names, values, calls]

theorem mem_namesAll {cue : Cue} {name : String} : ∀ {cs : List Body}, name ∈ namesAll cue cs ↔
    (∃ value ∈ valuesAll cs, referenceName? cue value = some name) ∨
      ∃ call ∈ callsAll cs, name ∈ call.2
  | [] => by simp [namesAll, valuesAll, callsAll]
  | c :: cs => by
    rw [namesAll, valuesAll, callsAll, List.mem_append, mem_names, mem_namesAll]
    simp only [List.mem_append, or_and_right, exists_or, or_assoc, or_left_comm]

end

end Body

/-! ## Why a construction fails -/

section

variable {invoke : String → Except Fault (List Value) → Live Nat} {bindings : Bindings} {cue : Cue}

theorem foldlM_write_error {attributes : List (String × String)} {face : Face} {fault : Fault}
    (h : attributes.foldlM (Face.write cue bindings) face = .error fault) :
    ∃ a ∈ attributes, liveText cue bindings a.2 = .error fault := by
  induction attributes generalizing face with
  | nil => cases h
  | cons a attributes ih =>
    rw [List.foldlM_cons] at h
    unfold Face.write at h
    cases htext : liveText cue bindings a.2 with
    | error e =>
      rw [htext] at h
      cases h
      exact ⟨a, List.mem_cons_self, htext⟩
    | ok text =>
      rw [htext] at h
      obtain ⟨b, hb, hfault⟩ := ih h
      exact ⟨b, List.mem_cons_of_mem a hb, hfault⟩

theorem Element.face_error {childless : Bool} {e : Element} {fault : Fault}
    (h : e.face cue bindings childless = .error fault) :
    ∃ value ∈ e.values childless, liveText cue bindings value = .error fault := by
  unfold Element.face at h
  cases hwritten : e.plainAttributes.foldlM (Face.write cue bindings)
      { tag := e.tag, className := .text e.classValue } with
  | error other =>
    rw [hwritten] at h
    cases h
    obtain ⟨a, ha, hfault⟩ := foldlM_write_error hwritten
    exact ⟨a.2, List.mem_append_left _ (List.mem_map_of_mem ha), hfault⟩
  | ok face =>
    rw [hwritten] at h
    cases htext : (if childless then e.text else none) with
    | none =>
      rw [htext] at h
      cases h
    | some t =>
      rw [htext] at h
      refine ⟨t, ?_, ?_⟩
      · cases childless with
        | false => cases htext
        | true =>
          rw [if_pos rfl] at htext
          simp [Element.values, htext]
      · cases hlive : liveText cue bindings t with
        | error other =>
          simp only [optionalText, hlive] at h
          cases h
          rfl
        | ok text =>
          simp only [optionalText, hlive] at h
          cases h

theorem exists_liveText_of_foldlM {attributes : List (String × String)} {face made : Face}
    (h : attributes.foldlM (Face.write cue bindings) face = .ok made) :
    ∀ a ∈ attributes, ∃ text, liveText cue bindings a.2 = .ok text := by
  induction attributes generalizing face with
  | nil => simp
  | cons a attributes ih =>
    rw [List.foldlM_cons] at h
    obtain ⟨first, hfirst, h⟩ := except_bind_eq_ok.mp h
    obtain ⟨text, htext, _⟩ := except_bind_eq_ok.mp hfirst
    exact List.forall_mem_cons.mpr ⟨⟨text, htext⟩, ih h⟩

/-- An element that has a face on a live page has texts for all its values. -/
theorem Element.exists_liveText_of_face {childless : Bool} {e : Element} {face : Face}
    (h : e.face cue bindings childless = .ok face) :
    ∀ value ∈ e.values childless, ∃ text, liveText cue bindings value = .ok text := by
  obtain ⟨written, hwritten, h⟩ := except_bind_eq_ok.mp h
  obtain ⟨own, hown, _⟩ := except_bind_eq_ok.mp h
  intro value hvalue
  rcases List.mem_append.mp hvalue with hattribute | htext
  · obtain ⟨a, ha, rfl⟩ := List.mem_map.mp hattribute
    exact exists_liveText_of_foldlM hwritten a ha
  · cases childless with
    | false => simp at htext
    | true =>
      rw [if_pos rfl, Option.mem_toList] at htext
      rw [if_pos rfl, htext] at hown
      cases hlive : liveText cue bindings value with
      | ok text => exact ⟨text, rfl⟩
      | error fault =>
        rw [optionalText, hlive] at hown
        cases hown

mutual

/-- A construction fails because a value has no text, or because a call fails. -/
theorem Body.construct_error : ∀ {b : Body} {s t : Stage} {fault : Fault},
    b.construct invoke bindings cue s = .error fault t →
      (∃ value ∈ b.values, liveText cue bindings value = .error fault) ∨
      ∃ call ∈ b.calls, ∃ u, invoke call.1 (callArguments bindings call.2) u = .error fault t
  | .element e cs, s, t, fault, h => by
    simp only [construct] at h
    rcases bind_eq_error.mp h with h | ⟨face, u, hface, h⟩
    · obtain ⟨value, hvalue, hfault⟩ := Element.face_error (Live.lift_eq_error.mp h).1
      exact .inl ⟨value, List.mem_append_left _ hvalue, hfault⟩
    · rcases bind_eq_error.mp h with h | ⟨i, u', hi, h⟩
      · cases h
      · rcases bind_eq_error.mp h with h | ⟨_, _, _, h⟩
        · rcases constructAll_error h with ⟨value, hvalue, hfault⟩ | hcall
          · exact .inl ⟨value, List.mem_append_right _ hvalue, hfault⟩
          · exact .inr hcall
        · cases h
  | .call key names, s, t, fault, h => .inr ⟨(key, names), List.mem_singleton_self _, s, h⟩

theorem Body.constructAll_error : ∀ {cs : List Body} {parent : Nat} {s t : Stage} {fault : Fault},
    constructAll invoke bindings cue parent cs s = .error fault t →
      (∃ value ∈ valuesAll cs, liveText cue bindings value = .error fault) ∨
      ∃ call ∈ callsAll cs, ∃ u, invoke call.1 (callArguments bindings call.2) u = .error fault t
  | [], _, _, _, _, h => by cases h
  | c :: cs, parent, s, t, fault, h => by
    simp only [constructAll] at h
    rcases bind_eq_error.mp h with h | ⟨j, u, _, h⟩
    · rcases construct_error h with ⟨value, hvalue, hfault⟩ | ⟨call, hcall, hfails⟩
      · exact .inl ⟨value, List.mem_append_left _ hvalue, hfault⟩
      · exact .inr ⟨call, List.mem_append_left _ hcall, hfails⟩
    · rcases bind_eq_error.mp h with h | ⟨_, u', _, h⟩
      · cases h
      · rcases constructAll_error h with ⟨value, hvalue, hfault⟩ | ⟨call, hcall, hfails⟩
        · exact .inl ⟨value, List.mem_append_right _ hvalue, hfault⟩
        · exact .inr ⟨call, List.mem_append_right _ hcall, hfails⟩

end

mutual

/-- A construction that succeeds has found a text for every name of the body. -/
theorem Body.resolves_of_construct
    (hinvoke : ∀ key fault s i t, invoke key (.error fault) s ≠ .ok i t) :
    ∀ {b : Body} {s t : Stage} {i : Nat},
    b.construct invoke bindings cue s = .ok i t →
      ∀ name ∈ b.names cue, ∃ text, Live.resolve bindings name = .ok text
  | .element e cs, s, t, i, h => by
    simp only [construct] at h
    obtain ⟨face, _, hlift, h⟩ := bind_eq_ok.mp h
    obtain ⟨_, _, _, h⟩ := bind_eq_ok.mp h
    obtain ⟨_, _, hall, _⟩ := bind_eq_ok.mp h
    intro name hname
    rcases List.mem_append.mp hname with hown | hbelow
    · obtain ⟨value, hvalue, href⟩ := List.mem_filterMap.mp hown
      obtain ⟨text, htext⟩ :=
        Element.exists_liveText_of_face (Live.lift_eq_ok.mp hlift).1 value hvalue
      rw [liveText, href] at htext
      exact ⟨text, htext⟩
    · exact resolves_of_constructAll hinvoke hall name hbelow
  | .call key names, s, t, i, h => by
    intro name hname
    have harguments : ∃ values, callArguments bindings names = .ok values := by
      cases hfails : callArguments bindings names with
      | ok values => exact ⟨values, rfl⟩
      | error fault =>
        rw [construct, hfails] at h
        exact absurd h (hinvoke _ _ _ _ _)
    obtain ⟨values, hvalues⟩ := harguments
    obtain ⟨v, _, hv⟩ := mapM_mem hvalues hname
    cases hresolve : Live.resolve bindings name with
    | ok text => exact ⟨text, rfl⟩
    | error fault =>
      rw [hresolve] at hv
      cases hv

theorem Body.resolves_of_constructAll
    (hinvoke : ∀ key fault s i t, invoke key (.error fault) s ≠ .ok i t) :
    ∀ {cs : List Body} {parent : Nat} {s t : Stage},
    constructAll invoke bindings cue parent cs s = .ok () t →
      ∀ name ∈ namesAll cue cs, ∃ text, Live.resolve bindings name = .ok text
  | [], _, _, _, _ => by simp [namesAll]
  | c :: cs, parent, s, t, h => by
    simp only [constructAll] at h
    obtain ⟨_, _, hfirst, h⟩ := bind_eq_ok.mp h
    obtain ⟨_, _, _, hrest⟩ := bind_eq_ok.mp h
    intro name hname
    rcases List.mem_append.mp hname with hown | hbelow
    · exact resolves_of_construct hinvoke hfirst name hown
    · exact resolves_of_constructAll hinvoke hrest name hbelow

end

end

end Pageloom
