import Pageloom.Proofs.Calling
import Pageloom.Proofs.ScriptLines

/-!
# Lines of a factory

A factory is written by cutting the script of its steps into lines and putting two blanks before
each of them. A line ends at ten different characters, and authored texts may hold any of them. In
a script they stand in literals, where none of these characters is written as it is. What stands in
a script as it is are variables, the names of references and arguments, and the functions that
handlers call. If these hold no line boundary, the lines of a script are its steps.

## Main definitions

* `Pageloom.Text.IsLine` -- texts without line boundaries
* `Pageloom.Text.splitLines_join` -- lines that are joined are cut where they were joined
* `Pageloom.Body.functions` -- the functions that the handlers of a body call
* `Pageloom.Boundary.header` -- the first line of a factory
-/

namespace Pageloom

namespace Text

/-! ## Lines -/

/-- A text without line boundaries. -/
def IsLine (s : String) : Prop := ∀ c ∈ s.toList, isLineBoundary c = false

instance (s : String) : Decidable (IsLine s) := List.decidableBAll _ s.toList

@[simp] theorem isLine_append {s t : String} : IsLine (s ++ t) ↔ IsLine s ∧ IsLine t := by
  simp only [IsLine, String.toList_append, List.forall_mem_append]

@[simp] theorem isLine_ofList {cs : List Char} :
    IsLine (String.ofList cs) ↔ ∀ c ∈ cs, isLineBoundary c = false := by
  rw [IsLine, String.toList_ofList]

theorem isLine_join {separator : String} (h : IsLine separator) {parts : List String} :
    IsLine (join separator parts) ↔ ∀ part ∈ parts, IsLine part := by
  induction parts with
  | nil => simp [join, IsLine]
  | cons part parts ih =>
    rw [List.forall_mem_cons]
    cases parts with
    | nil => simp [join]
    | cons next parts =>
      rw [← ih, join, String.intercalate_cons_cons, isLine_append, isLine_append, ← join]
      simp [h]

theorem isLine_literal (s : String) : IsLine (literal s) :=
  fun _ hc => isLineBoundary_of_printable (literal_printable hc)

/-! ## Cutting lines -/

/-- Characters that end no line are read as part of the line. -/
theorem splitLinesFrom_append (line : List Char) {cs : List Char}
    (h : ∀ c ∈ cs, isLineBoundary c = false) (rest : List Char) :
    splitLinesFrom line (cs ++ rest) = splitLinesFrom (line ++ cs) rest := by
  induction cs generalizing line with
  | nil => simp
  | cons c cs ih =>
    rw [List.forall_mem_cons] at h
    have hreturn : c ≠ '\r' := by
      rintro rfl
      exact absurd h.1 (by decide)
    rw [List.cons_append, splitLinesFrom.eq_4 _ _ _ fun _ heq => absurd heq hreturn,
      if_neg (by simp [h.1]), ih _ h.2, List.append_assoc, List.singleton_append]

theorem splitLinesFrom_newline (line rest : List Char) :
    splitLinesFrom line ('\n' :: rest) = line :: splitLinesFrom [] rest := by
  rw [splitLinesFrom.eq_4 _ _ _ fun _ heq => absurd heq (by decide)]
  rfl

theorem splitLinesFrom_nil {line : List Char} (h : line ≠ []) :
    splitLinesFrom line [] = [line] := by
  cases line with
  | nil => exact absurd rfl h
  | cons c line => rfl

/-- **Lines that are joined are cut where they were joined.** The last one must not be empty, since
no line follows the last line end. -/
theorem splitLines_join {lines : List String} (hlines : ∀ line ∈ lines, IsLine line)
    (hne : ∀ line ∈ lines, line ≠ "") : splitLines (join "\n" lines) = lines := by
  have hchars : splitLinesFrom [] (join "\n" lines).toList = lines.map String.toList := by
    induction lines with
    | nil => rfl
    | cons line lines ih =>
      rw [List.forall_mem_cons] at hlines hne
      cases lines with
      | nil =>
        have hjoin : (join "\n" [line]).toList = line.toList ++ [] := by simp [join]
        rw [hjoin, splitLinesFrom_append [] hlines.1]
        exact splitLinesFrom_nil fun hnil => hne.1 (String.toList_eq_nil_iff.mp hnil)
      | cons next lines =>
        have hjoin : (join "\n" (line :: next :: lines)).toList =
            line.toList ++ '\n' :: (join "\n" (next :: lines)).toList := by
          simp [join, String.intercalate_cons_cons]
        rw [hjoin, splitLinesFrom_append [] hlines.1, splitLinesFrom_newline, ih hlines.2 hne.2]
        rfl
  rw [splitLines, hchars, List.map_map]
  simp

theorem not_isLineBoundary_of_mem {line cs : List Char}
    (hline : ∀ c ∈ line, isLineBoundary c = false) :
    ∀ l ∈ splitLinesFrom line cs, ∀ c ∈ l, isLineBoundary c = false := by
  fun_induction splitLinesFrom line cs with
  | case1 => simp
  | case2 c line => simpa using hline
  | case3 line rest ih =>
    rw [List.forall_mem_cons]
    exact ⟨hline, ih (by simp)⟩
  | case4 line c rest _ _ ih =>
    rw [List.forall_mem_cons]
    exact ⟨hline, ih (by simp)⟩
  | case5 line c rest _ hc ih =>
    refine ih ?_
    rw [List.forall_mem_append]
    exact ⟨hline, by simpa using hc⟩

/-- What a text is cut into are lines. -/
theorem isLine_of_mem_splitLines {s line : String} (h : line ∈ splitLines s) : IsLine line := by
  obtain ⟨cs, hcs, rfl⟩ := List.mem_map.mp h
  rw [isLine_ofList]
  exact not_isLineBoundary_of_mem (by simp) cs hcs

/-! ## Numbers -/

/-- No digit ends a line. -/
theorem isLineBoundary_of_mem_toDigits {n : Nat} {c : Char} (h : c ∈ Nat.toDigits 10 n) :
    isLineBoundary c = false := by
  have hdigit : c.isDigit = true := Nat.isDigit_of_mem_toDigits (by decide) (by decide) h
  obtain ⟨hlow, hhigh⟩ : 48 ≤ c.toNat ∧ c.toNat ≤ 57 := Char.isDigit_iff_toNat.mp hdigit
  exact isLineBoundary_of_printable (by omega)

theorem isLine_repr (n : Nat) : IsLine n.repr := by
  intro c hc
  rw [Nat.toList_repr] at hc
  exact isLineBoundary_of_mem_toDigits hc

theorem isLine_intRepr (n : Int) : IsLine (Int.repr n) := by
  cases n with
  | ofNat m => exact isLine_repr m
  | negSucc m =>
    rw [Int.repr, isLine_append]
    exact ⟨by decide, isLine_repr _⟩

end Text

open Text

namespace Double

theorem isLine_exponentText (e : Int) : IsLine (exponentText e) := by
  have hdigits := isLine_repr e.natAbs
  simp only [exponentText, isLine_append]
  constructor
  · split <;> decide
  · split
    · exact isLine_append.mpr ⟨by decide, hdigits⟩
    · exact hdigits

theorem isLine_decimalText (digits : Nat) (k : Int) : IsLine (decimalText digits k) := by
  have hdigits : ∀ c ∈ Nat.toDigits 10 digits, isLineBoundary c = false :=
    fun c hc => isLineBoundary_of_mem_toDigits hc
  have hzeros : ∀ n, ∀ c ∈ List.replicate n '0', isLineBoundary c = false := by
    intro n c hc
    rw [List.eq_of_mem_replicate hc]
    decide
  simp only [decimalText]
  split
  · split
    · simp only [isLine_append, isLine_ofList, List.forall_mem_append]
      exact ⟨by decide, hzeros _, hdigits⟩
    · split
      · simp only [isLine_append, isLine_ofList, List.forall_mem_append]
        exact ⟨⟨hdigits, hzeros _⟩, by decide⟩
      · simp only [isLine_ofList, List.forall_mem_append, List.forall_mem_cons]
        exact ⟨fun c hc => hdigits c (List.mem_of_mem_take hc), by decide,
          fun c hc => hdigits c (List.mem_of_mem_drop hc)⟩
  · rw [isLine_append, isLine_ofList]
    refine ⟨?_, isLine_exponentText _⟩
    -- Before the exponent, a point stands behind the first digit if there are others.
    revert hdigits
    cases Nat.toDigits 10 digits with
    | nil => simp
    | cons d ds =>
      cases ds with
      | nil => exact id
      | cons d' ds =>
        intro hdigits
        rw [List.forall_mem_cons] at hdigits ⊢
        exact ⟨hdigits.1, List.forall_mem_cons.mpr ⟨by decide, hdigits.2⟩⟩

theorem isLine_literal (x : Double) : IsLine x.literal := by
  cases x with
  | nan => decide
  | infinite negative => cases negative <;> decide
  | finite negative mantissa exponent =>
    have hsign : IsLine (if negative then "-" else "") := by split <;> decide
    change IsLine (text (.finite negative mantissa exponent))
    simp only [text]
    split
    · exact isLine_append.mpr ⟨hsign, by decide⟩
    · exact isLine_append.mpr ⟨hsign, isLine_decimalText _ _⟩

end Double

/-! ## Handlers -/

/-- The function that a handler calls, if authored code named it. -/
def Handler.function? : Handler → Option String
  | .render _ _ => none
  | .call name _ => some name

theorem Scalar.isLine_literal (s : Scalar) : IsLine s.literal := by
  cases s with
  | text s => exact Text.isLine_literal s
  | int n => exact isLine_intRepr n
  | real x => exact x.isLine_literal
  | bool b => cases b <;> decide

/-- The call of a handler is a line if the name of its function is: arguments are literals. -/
theorem Handler.isLine_expression (h : Handler) :
    IsLine h.expression ↔ ∀ name ∈ h.function?.toList, IsLine name := by
  have hopen : IsLine "(" := by decide
  have hcomma : IsLine ", " := by decide
  have hclose : IsLine ")" := by decide
  cases h with
  | render component target =>
    have hrender : IsLine renderFunction := by decide
    simp [expression, function?, Text.isLine_literal, hopen, hcomma, hclose, hrender]
  | call name arguments =>
    have harguments : IsLine (join ", " (arguments.map fun a => a.2.literal)) := by
      rw [isLine_join hcomma]
      intro part hpart
      obtain ⟨a, _, rfl⟩ := List.mem_map.mp hpart
      exact a.2.isLine_literal
    simp [expression, function?, hopen, hclose, harguments]

/-! ## Steps -/

namespace Instruction

/-- A step is a line exactly if its bare parts are: everything else of it is a literal. -/
theorem isLine_script (step : Instruction) :
    IsLine step.script ↔ ∀ part ∈ step.bare, IsLine part := by
  refine ⟨fun h => ?_, forall_mem_script fun _ => isLineBoundary_of_printable⟩
  have hoperand {v : Operand} (hv : IsLine v.script) : ∀ part ∈ v.bare, IsLine part := by
    cases v with
    | literal text => simp [Operand.bare]
    | broken pieces => simp [Operand.bare]
    | reference name => simpa [Operand.bare, Operand.script] using hv
    | stray shown => simpa [Operand.bare, Operand.script] using hv
  cases step <;> simp only [script, isLine_append, and_assoc] at h <;>
    simp only [bare, List.forall_mem_cons]
  case createElement var tag => simp [h]
  case assignClass var value => simp [h]
  case setAttribute var name value => exact ⟨h.1, hoperand h.2.2.2.2.1⟩
  case assignStyle var value => exact ⟨h.1, hoperand h.2.2.1⟩
  case setText var value => exact ⟨h.1, hoperand h.2.2.1⟩
  case assignClick var expression => simp [h]
  case invokeFactory var key arguments =>
    exact ⟨h.2.1, (isLine_join (by decide)).mp h.2.2.2.2.2.2.2.1⟩
  case appendChild parent child => simp [h]
  case giveNode var => simp [h]

/-- No step is lost at the end of a script, where an empty line would be. -/
theorem script_ne_empty (step : Instruction) : step.script ≠ "" := by
  cases step <;> simp [script]

/-- **The lines of a script are its steps** exactly if every step is a line. -/
theorem splitLines_scriptAll_iff (steps : List Instruction) :
    splitLines (scriptAll steps) = steps.map script ↔ ∀ step ∈ steps, IsLine step.script := by
  constructor
  · intro h step hstep
    exact isLine_of_mem_splitLines (h ▸ List.mem_map_of_mem hstep)
  · intro h
    refine splitLines_join ?_ ?_
    · simpa using h
    · simp [script_ne_empty]

end Instruction

/-! ## Bodies -/

/-- The functions that the click handler of an element calls. -/
def Element.functions (e : Element) : List String :=
  e.onClick.toList.flatMap fun h => h.function?.toList

namespace Body

mutual

/-- The functions that the handlers of a body call, in order. -/
def functions : Body → List String
  | .element e cs => e.functions ++ functionsAll cs
  | .call _ _ => []

/-- The functions that the handlers of bodies call, in order. -/
def functionsAll : List Body → List String
  | [] => []
  | c :: cs => functions c ++ functionsAll cs

end

end Body

theorem isLine_variableName {lead : String} {n : Nat} :
    IsLine (variableName lead n) ↔ IsLine lead := by
  simp [variableName, isLine_repr]

theorem bare_operandOf (cue : Cue) (value : String) :
    (operandOf cue value).bare = (referenceName? cue value).toList := by
  unfold operandOf
  split <;> simp_all [Operand.bare]

theorem Element.bare_attributeStep (cue : Cue) (var : String) (a : String × String) :
    (attributeStep cue var a).bare = var :: (referenceName? cue a.2).toList := by
  unfold attributeStep
  split <;> simp [Instruction.bare, bare_operandOf]

/-- The steps of an element are lines exactly if its names and its functions are. -/
theorem Element.isLine_steps {cue : Cue} {var : String} (hvar : IsLine var) (e : Element)
    (childless : Bool) : (∀ step ∈ e.steps cue var childless, IsLine step.script) ↔
      (∀ name ∈ (e.values childless).filterMap (referenceName? cue), IsLine name) ∧
        ∀ name ∈ e.functions, IsLine name := by
  have hmade : ∀ step ∈ [Instruction.createElement var e.tag, .assignClass var e.classValue],
      IsLine step.script := by
    simp [Instruction.isLine_script, Instruction.bare, hvar]
  have hattributes : (∀ step ∈ e.plainAttributes.map (attributeStep cue var), IsLine step.script) ↔
      ∀ name ∈ (e.plainAttributes.map Prod.snd).filterMap (referenceName? cue), IsLine name := by
    rw [List.forall_mem_map]
    simp only [Instruction.isLine_script, bare_attributeStep, List.forall_mem_cons, hvar, true_and,
      List.mem_filterMap, List.mem_map, Option.mem_toList]
    constructor
    · rintro h name ⟨value, ⟨a, ha, rfl⟩, hname⟩
      exact h a ha name hname
    · intro h a ha name hname
      exact h name ⟨a.2, ⟨a, ha, rfl⟩, hname⟩
  have htext : (∀ step ∈ (if childless then
      e.text.toList.map fun t => Instruction.setText var (operandOf cue t) else []),
        IsLine step.script) ↔
      ∀ name ∈ (if childless then e.text.toList else []).filterMap (referenceName? cue),
        IsLine name := by
    cases childless <;> cases e.text <;>
      simp [Instruction.isLine_script, Instruction.bare, bare_operandOf, hvar]
  have hclick : (∀ step ∈ e.onClick.toList.map fun h => Instruction.assignClick var h.expression,
      IsLine step.script) ↔ ∀ name ∈ e.functions, IsLine name := by
    cases h : e.onClick <;>
      simp [functions, h, Instruction.isLine_script, Instruction.bare, Handler.isLine_expression,
        hvar]
  simp only [steps, values, List.filterMap_append, List.forall_mem_append, hattributes, htext,
    hclick]
  exact and_congr_left' (and_congr_left' (and_iff_right hmade))

namespace Body

mutual

/-- Where the lead of the variables is a line, only the names and the functions of a body matter. -/
theorem isLine_emit {lead : String} (hlead : IsLine lead) (cue : Cue) : ∀ (b : Body) (n : Nat),
    (∀ step ∈ (b.emit lead cue n).1, IsLine step.script) ↔
      (∀ name ∈ b.names cue, IsLine name) ∧ ∀ name ∈ b.functions, IsLine name
  | .element e cs, n => by
    have hvar : IsLine (variableName lead n) := isLine_variableName.mpr hlead
    simp only [emit, names, functions, List.forall_mem_append, Element.isLine_steps hvar,
      isLine_emitAll hlead cue hvar cs]
    exact and_and_and_comm
  | .call key arguments, n => by
    simp [emit, names, functions, Instruction.isLine_script, Instruction.bare, isLine_variableName,
      hlead]

theorem isLine_emitAll {lead : String} (hlead : IsLine lead) (cue : Cue) {parent : String}
    (hparent : IsLine parent) : ∀ (cs : List Body) (n : Nat),
    (∀ step ∈ (emitAll lead cue parent cs n).1, IsLine step.script) ↔
      (∀ name ∈ namesAll cue cs, IsLine name) ∧ ∀ name ∈ functionsAll cs, IsLine name
  | [], n => by simp [emitAll, namesAll, functionsAll]
  | c :: cs, n => by
    -- The step that appends a child names two variables and nothing else.
    have happend : IsLine (Instruction.appendChild parent (variableName lead n)).script := by
      simp [Instruction.isLine_script, Instruction.bare, isLine_variableName, hlead, hparent]
    simp only [emitAll, namesAll, functionsAll, List.forall_mem_append, List.forall_mem_cons,
      isLine_emit hlead cue c, isLine_emitAll hlead cue hparent cs, happend, true_and]
    exact and_and_and_comm

end

/-- The steps of a body are lines exactly if the lead of its variables, the names that it uses and
the functions that it calls are. -/
theorem isLine_compile (lead : String) (cue : Cue) (b : Body) :
    (∀ step ∈ b.compile lead cue, IsLine step.script) ↔
      ∀ name ∈ lead :: (b.names cue ++ b.functions), IsLine name := by
  have hreturn : IsLine (Instruction.giveNode (variableName lead 1)).script ↔ IsLine lead := by
    simp [Instruction.isLine_script, Instruction.bare, isLine_variableName]
  -- The last step names a variable, so that the lead is a line if all steps are.
  rw [compile, List.forall_mem_append, List.forall_mem_singleton, hreturn, List.forall_mem_cons,
    List.forall_mem_append, and_comm]
  exact and_congr_right fun hlead => isLine_emit hlead cue b 1

end Body

/-! ## Factories -/

namespace Boundary

/-- The first line of a factory. -/
def header (b : Boundary) : String :=
  Instruction.registry ++ "[" ++ literal b.key ++ "] = function(" ++ join ", " b.parameters ++
    ") \x7b"

theorem isLine_header (b : Boundary) : IsLine b.header ↔ ∀ name ∈ b.parameters, IsLine name := by
  have hregistry : IsLine Instruction.registry := by decide
  have hopen : IsLine "[" := by decide
  have hfunction : IsLine "] = function(" := by decide
  have hclose : IsLine ") \x7b" := by decide
  simp [header, isLine_join (show IsLine ", " by decide), Text.isLine_literal, hregistry, hopen,
    hfunction, hclose]

/-- The lines of a factory: its header, its steps behind two blanks, and the end of the
function. -/
def factoryLines (b : Boundary) (steps : List Instruction) : List String :=
  b.header :: steps.map (fun step => "  " ++ step.script) ++ ["\x7d;"]

theorem isLine_factoryLines (b : Boundary) (steps : List Instruction) :
    (∀ line ∈ b.factoryLines steps, IsLine line) ↔
      (∀ name ∈ b.parameters, IsLine name) ∧ ∀ step ∈ steps, IsLine step.script := by
  have hindent : IsLine "  " := by decide
  have hend : IsLine "\x7d;" := by decide
  rw [factoryLines, List.forall_mem_append, List.forall_mem_cons, List.forall_mem_map,
    List.forall_mem_singleton, isLine_header]
  simp only [isLine_append, hindent, hend, true_and, and_true]

theorem factoryLines_ne_empty (b : Boundary) (steps : List Instruction) :
    ∀ line ∈ b.factoryLines steps, line ≠ "" := by
  rw [factoryLines, List.forall_mem_append, List.forall_mem_cons, List.forall_mem_map,
    List.forall_mem_singleton]
  simp [header]

/-- Where the lines of a script are its steps, the factory is made of its lines. -/
theorem factoryText_eq {b : Boundary} {steps : List Instruction} (hne : steps ≠ [])
    (h : splitLines (Instruction.scriptAll steps) = steps.map Instruction.script) :
    factoryText b.key b.parameters steps = join "\n" (b.factoryLines steps) := by
  have hsteps : steps.map (fun step => "  " ++ step.script) ≠ [] := by simpa using hne
  have hopen : ") \x7b\n" = ") \x7b" ++ "\n" := by decide
  have hend : "\n\x7d;" = "\n" ++ "\x7d;" := by decide
  rw [factoryLines, join, String.intercalate_append_of_ne_nil (by simp) (by simp),
    String.intercalate_cons_of_ne_nil hsteps, factoryText, h, hopen, hend]
  simp [header, join, String.append_assoc, Function.comp_def]

/-- **A factory has one line for each of its steps.** The lead of the variables, the names that the
body refers to or passes on, and the functions that its handlers call stand in a script as they
are. If none of them holds a line boundary, the factory is its header, the steps in order behind
two blanks, and the end of the function; tags, attribute names, values, texts, classes, keys and
the arguments of handlers may be anything. Steps are kept as they are exactly then, and these are
the lines of the factory exactly if the parameters in its header are lines as well. -/
theorem factory_layout (b : Boundary) (body : Body) (lead : String) (cue : Cue) :
    let steps := body.compile lead cue
    let names := lead :: (body.names cue ++ body.functions)
    let factory := factoryText b.key b.parameters steps
    ((∀ name ∈ names, IsLine name) → factory = join "\n" (b.factoryLines steps)) ∧
    (splitLines (Instruction.scriptAll steps) = steps.map Instruction.script ↔
      ∀ name ∈ names, IsLine name) ∧
    (splitLines factory = b.factoryLines steps ↔ ∀ name ∈ b.parameters ++ names, IsLine name) := by
  intro steps names factory
  have hcompile : (∀ step ∈ steps, IsLine step.script) ↔ ∀ name ∈ names, IsLine name :=
    Body.isLine_compile lead cue body
  have hsplit := (Instruction.splitLines_scriptAll_iff steps).trans hcompile
  have hjoin (h : ∀ name ∈ names, IsLine name) : factory = join "\n" (b.factoryLines steps) :=
    factoryText_eq (by simp [steps, Body.compile]) (hsplit.mpr h)
  refine ⟨hjoin, hsplit, ?_⟩
  have hlines := b.isLine_factoryLines steps
  rw [List.forall_mem_append, ← hcompile, ← hlines]
  constructor
  · intro h line hline
    exact isLine_of_mem_splitLines (h ▸ hline)
  · -- The lines of the text are told from the text, which is known once the steps are lines.
    intro h
    rw [hjoin (hcompile.mp (hlines.mp h).2)]
    exact splitLines_join h (b.factoryLines_ne_empty steps)

/-- A card with line boundaries in its key, its tag, the name and the value of an attribute, the
argument of its handler and the key of the badge in it. -/
theorem factory_layout_card :
    let card : Boundary := { key := "Card\n", parameters := ["who"] }
    let body : Body := .element
      { tag := "p\r\n", token := "df-el-1"
        attributes := [("data-\u0085", "\u2028"), ("id", "$who")]
        onClick := some (.call "greet" [("name", .text "\x0b\x1c")]) }
      [.call "Badge\x0c" ["who"]]
    let steps := body.compile "el" (.ofText "$")
    let factory := factoryText card.key card.parameters steps
    steps.length = 8 ∧ factory = join "\n" (card.factoryLines steps) ∧
      splitLines factory = card.factoryLines steps := by
  intro card body steps factory
  have hlayout := factory_layout card body "el" (.ofText "$")
  exact ⟨rfl, hlayout.1 (by decide), hlayout.2.2.mpr (by decide)⟩

end Boundary

end Pageloom
