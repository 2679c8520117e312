import Pageloom.Instruction
import Pageloom.Proofs.Entries
import Pageloom.Proofs.Literals

/-!
# Scripts tell steps apart

A script holds the steps of a factory, one to a line, and the steps can be read off it. A line
has one of nine forms. Two of them begin with the keyword of a declaration and one with that of a
return; the others begin with a variable and a point. After the variable a fixed text tells which
form it is, and none of these texts begins another one. A name ends at the first mark after it,
and a literal at its closing quote, whatever stands in it. Neither holds a line feed, so that the
lines of a script are its steps.

One thing cannot be told from a literal: whether it was written for a character beyond the basic
plane or for the two halves of its pair, each standing alone. Broken literals in which a first half
stands right before a second one are therefore left out.

## Main definitions

* `Pageloom.IsScriptName` -- names that may stand in a script
* `Pageloom.Instruction.IsNamed` -- steps whose names are such names
* `Pageloom.Instruction.ofLine?`, `Pageloom.Instruction.ofScript?` -- lines and scripts as steps
* `Pageloom.Instruction.ofLine?_script` -- a line is read as the step that it was written for
* `Pageloom.Instruction.scriptAll_determines` -- steps with the same script
* `Pageloom.Instruction.scriptAll_halves` -- a pair of halves that looks like a character
-/

namespace Pageloom

/-! ## Names -/

/-- The characters at which a name in a script ends. -/
def scriptMarks : List Char := [' ', '.', ',', ';', '(', ')', '"', '\n']

/-- A name that may stand in a script: it is not empty, and holds no blank, point, comma,
semicolon, parenthesis, quote or line feed. Identifiers are such names. -/
def IsScriptName (name : String) : Prop := name ≠ "" ∧ ∀ c ∈ name.toList, c ∉ scriptMarks

-- By the characters of the name, not by all that there are.
instance (name : String) : Decidable (IsScriptName name) :=
  @instDecidableAnd _ _ inferInstance (List.decidableBAll _ name.toList)

/-- An operand that is a literal or refers to a name. A broken literal holds a half, and no two of
its halves would make a character. -/
def Operand.IsNamed : Operand → Prop
  | literal _ => True
  | broken pieces => Text.whole? pieces = none ∧ Text.isUnpaired pieces = true
  | reference name => IsScriptName name
  | stray _ => False

instance : ∀ v : Operand, Decidable v.IsNamed
  | .literal _ => .isTrue trivial
  | .broken pieces =>
    inferInstanceAs (Decidable (Text.whole? pieces = none ∧ Text.isUnpaired pieces = true))
  | .reference name => inferInstanceAs (Decidable (IsScriptName name))
  | .stray _ => .isFalse id

namespace Instruction

/-- A step whose variables, references and arguments are names, and whose click expression stands
on one line. Tags, attribute names, classes, literals and keys may be anything. -/
def IsNamed : Instruction → Prop
  | createElement var _ => IsScriptName var
  | assignClass var _ => IsScriptName var
  | setAttribute var _ value => IsScriptName var ∧ value.IsNamed
  | assignStyle var value => IsScriptName var ∧ value.IsNamed
  | setText var value => IsScriptName var ∧ value.IsNamed
  | assignClick var expression => IsScriptName var ∧ '\n' ∉ expression.toList
  | invokeFactory var _ arguments => IsScriptName var ∧ ∀ name ∈ arguments, IsScriptName name
  | appendChild parent child => IsScriptName parent ∧ IsScriptName child
  | giveNode var => IsScriptName var

instance : ∀ step : Instruction, Decidable step.IsNamed
  | createElement var _ => inferInstanceAs (Decidable (IsScriptName var))
  | assignClass var _ => inferInstanceAs (Decidable (IsScriptName var))
  | setAttribute var _ value => inferInstanceAs (Decidable (IsScriptName var ∧ value.IsNamed))
  | assignStyle var value => inferInstanceAs (Decidable (IsScriptName var ∧ value.IsNamed))
  | setText var value => inferInstanceAs (Decidable (IsScriptName var ∧ value.IsNamed))
  | assignClick var expression =>
    inferInstanceAs (Decidable (IsScriptName var ∧ '\n' ∉ expression.toList))
  | invokeFactory var _ arguments =>
    inferInstanceAs (Decidable (IsScriptName var ∧ ∀ name ∈ arguments, IsScriptName name))
  | appendChild parent child =>
    inferInstanceAs (Decidable (IsScriptName parent ∧ IsScriptName child))
  | giveNode var => inferInstanceAs (Decidable (IsScriptName var))

/-! ## Parts of a line -/

/-- The name that a text begins with. -/
def leadName (cs : List Char) : String := String.ofList (cs.takeWhile (· ∉ scriptMarks))

/-- What follows the name that a text begins with. -/
def afterName (cs : List Char) : List Char := cs.dropWhile (· ∉ scriptMarks)

/-- The pieces of the literal that a text begins with, and what follows it. -/
def takePieces : List Char → Option (List Text.Piece × List Char)
  | '"' :: cs => Json.pieces 0 cs
  | _ => none

/-- The literal that a text begins with, and what follows it. -/
def takeLiteral (cs : List Char) : Option (String × List Char) :=
  (takePieces cs).bind fun t => (Text.whole? t.1).map fun s => (s, t.2)

/-- The operand that a text begins with. -/
def leadOperand (cs : List Char) : Operand :=
  match takePieces cs with
  | some t => ((Text.whole? t.1).map .literal).getD (.broken t.1)
  | none => .reference (leadName cs)

/-- The arguments up to a closing parenthesis, given what was read of the first one. -/
def leadArguments : (name : List Char) → List Char → List String
  | name, ',' :: ' ' :: rest => String.ofList name :: leadArguments [] rest
  | name, ')' :: _ => if name = [] then [] else [String.ofList name]
  | name, c :: rest => leadArguments (name ++ [c]) rest
  | _, [] => []

section

variable {name : String} {c : Char}

theorem leadName_append (h : IsScriptName name) (hc : c ∈ scriptMarks) (rest : List Char) :
    leadName (name.toList ++ c :: rest) = name := by
  have hname : ∀ d ∈ name.toList, decide (d ∉ scriptMarks) = true := by simpa using h.2
  rw [leadName, List.takeWhile_append_of_pos hname]
  simp [hc]

theorem afterName_append (h : IsScriptName name) (hc : c ∈ scriptMarks) (rest : List Char) :
    afterName (name.toList ++ c :: rest) = c :: rest := by
  have hname : ∀ d ∈ name.toList, decide (d ∉ scriptMarks) = true := by simpa using h.2
  rw [afterName, List.dropWhile_append_of_pos hname]
  simp [hc]

theorem takePieces_append {pieces : List Text.Piece} (h : Text.isUnpaired pieces = true)
    (rest : List Char) :
    takePieces ((Text.literalPieces pieces).toList ++ rest) = some (pieces, rest) := by
  simp [Text.literalPieces, takePieces, Json.pieces_literalPieces h]

theorem takePieces_literal (s : String) (rest : List Char) :
    takePieces ((Text.literal s).toList ++ rest) = some (s.toList.map .char, rest) := by
  rw [← Text.literalPieces_map_char]
  exact takePieces_append (Json.isUnpaired_map_char s.toList) rest

theorem takeLiteral_append (s : String) (rest : List Char) :
    takeLiteral ((Text.literal s).toList ++ rest) = some (s, rest) := by
  simp [takeLiteral, takePieces_literal, Json.whole?_map_char]

/-- No name begins with a quote. -/
theorem takePieces_name (h : IsScriptName name) (rest : List Char) :
    takePieces (name.toList ++ rest) = none := by
  cases hchars : name.toList with
  | nil => exact absurd (String.toList_eq_nil_iff.mp hchars) h.1
  | cons c cs =>
    have hquote : c ≠ '"' := by
      rintro rfl
      exact h.2 '"' (by simp [hchars]) (by decide)
    simp [takePieces, hquote]

theorem leadOperand_append {v : Operand} (h : v.IsNamed) (hc : c ∈ scriptMarks)
    (rest : List Char) : leadOperand (v.script.toList ++ c :: rest) = v := by
  cases v with
  | literal text => simp [leadOperand, Operand.script, takePieces_literal, Json.whole?_map_char]
  | broken pieces => simp [leadOperand, Operand.script, takePieces_append h.2, h.1]
  | reference name => simp [leadOperand, Operand.script, takePieces_name h, leadName_append h hc]
  | stray shown => exact h.elim

theorem leadArguments_append (lead : List Char) {cs : List Char} (h : ∀ c ∈ cs, c ∉ scriptMarks)
    (rest : List Char) : leadArguments lead (cs ++ rest) = leadArguments (lead ++ cs) rest := by
  induction cs generalizing lead with
  | nil => simp
  | cons c cs ih =>
    rw [List.forall_mem_cons] at h
    have hcomma : c ≠ ',' := fun heq => h.1 (heq ▸ by decide)
    have hclose : c ≠ ')' := fun heq => h.1 (heq ▸ by decide)
    rw [List.cons_append, leadArguments, ih _ h.2, List.append_assoc, List.singleton_append]
    · exact fun _ heq => absurd heq hcomma
    · exact hclose

/-- Arguments can be read off: each ends at a comma or at the parenthesis. -/
theorem leadArguments_join {arguments : List String} (h : ∀ name ∈ arguments, IsScriptName name)
    (rest : List Char) :
    leadArguments [] ((Text.join ", " arguments).toList ++ ')' :: rest) = arguments := by
  induction arguments with
  | nil => rfl
  | cons name arguments ih =>
    rw [List.forall_mem_cons] at h
    cases arguments with
    | nil =>
      have hjoin : (Text.join ", " [name]).toList = name.toList := by simp [Text.join]
      rw [hjoin, leadArguments_append [] h.1.2]
      simp [leadArguments, h.1.1]
    | cons next arguments =>
      have hjoin : (Text.join ", " (name :: next :: arguments)).toList =
          name.toList ++ ',' :: ' ' :: (Text.join ", " (next :: arguments)).toList := by
        simp [Text.join, String.toList_intercalate]
      rw [hjoin, List.append_assoc, leadArguments_append [] h.1.2]
      simp [leadArguments, ih h.2]

end

/-! ## Lines -/

/-- Read a text by the first form whose fixed text it begins with. -/
def readForm (forms : Entries (List Char → Option Instruction)) (cs : List Char) :
    Option Instruction :=
  forms.findSome? fun form => (Text.dropLead? form.1.toList cs).bind form.2

/-- What may follow the variable of a declaration. -/
def declarations (var : String) : Entries (List Char → Option Instruction) :=
  [(" = document.createElement(", fun cs =>
      (takeLiteral cs).map fun t => createElement var t.1),
    (" = window.components[", fun cs =>
      (takeLiteral cs).bind fun t => (Text.dropLead? "](".toList t.2).map fun rest =>
        invokeFactory var t.1 (leadArguments [] rest))]

/-- What may follow the variable that a line begins with. -/
def changes (var : String) : Entries (List Char → Option Instruction) :=
  [(".className = ", fun cs => (takeLiteral cs).map fun t => assignClass var t.1),
    (".setAttribute(", fun cs =>
      (takeLiteral cs).bind fun t => (Text.dropLead? ", ".toList t.2).map fun rest =>
        setAttribute var t.1 (leadOperand rest)),
    (".style.cssText = ", fun cs => some (assignStyle var (leadOperand cs))),
    (".textContent = ", fun cs => some (setText var (leadOperand cs))),
    (".appendChild(", fun cs => some (appendChild var (leadName cs))),
    -- An expression may hold anything, so that its end is found from the end of the line.
    (".onclick = function() \x7b ", fun cs =>
      (Text.dropLead? "; \x7d;".toList.reverse cs.reverse).map fun expression =>
        assignClick var (String.ofList expression.reverse))]

/-- The step that a line is, if it has one of the nine forms. -/
def ofLine? (cs : List Char) : Option Instruction :=
  match Text.dropLead? "const ".toList cs, Text.dropLead? "return ".toList cs with
  | some rest, _ => readForm (declarations (leadName rest)) (afterName rest)
  | none, some rest => some (giveNode (leadName rest))
  | none, none => readForm (changes (leadName cs)) (afterName cs)

theorem dropLead?_append (lead rest : List Char) :
    Text.dropLead? lead (lead ++ rest) = some rest := by
  induction lead with
  | nil => rfl
  | cons c lead ih => simp [Text.dropLead?, ih]

theorem eq_of_dropLead? {lead cs rest : List Char} (h : Text.dropLead? lead cs = some rest) :
    cs = lead ++ rest := by
  induction lead generalizing cs with
  | nil => exact Option.some.inj h
  | cons a lead ih =>
    cases cs with
    | nil => cases h
    | cons c cs =>
      by_cases hac : a = c
      · rw [Text.dropLead?, if_pos hac] at h
        rw [hac, List.cons_append, ← ih h]
      · rw [Text.dropLead?, if_neg hac] at h
        cases h

/-- Whether two texts differ at a place that both have. -/
def diverge : List Char → List Char → Bool
  | a :: as, b :: bs => a ≠ b || diverge as bs
  | _, _ => false

theorem dropLead?_of_diverge {lead other : List Char} (h : diverge lead other = true)
    (rest : List Char) : Text.dropLead? lead (other ++ rest) = none := by
  fun_induction diverge lead other with
  | case1 a lead b other ih =>
    rw [List.cons_append, Text.dropLead?]
    by_cases hab : a = b
    · rw [if_pos hab]
      exact ih (by simpa [hab] using h)
    · rw [if_neg hab]
  | case2 => cases h

/-- A text that begins as a form is read by this form, if the fixed texts of the forms diverge. -/
theorem readForm_of_mem {forms : Entries (List Char → Option Instruction)} {lead : String}
    {read : List Char → Option Instruction} {rest : List Char} {step : Instruction}
    (hapart : forms.keys.Pairwise fun a b => diverge a.toList b.toList = true)
    (hmem : (lead, read) ∈ forms) (hread : read rest = some step) :
    readForm forms (lead.toList ++ rest) = some step := by
  unfold readForm
  induction forms with
  | nil => cases hmem
  | cons form forms ih =>
    rw [Entries.keys_cons, List.pairwise_cons] at hapart
    rcases List.mem_cons.mp hmem with rfl | hlater
    · simp only [List.findSome?_cons, dropLead?_append, Option.bind_some, hread]
    · have hother := dropLead?_of_diverge (hapart.1 lead (List.mem_map_of_mem hlater)) rest
      simp only [List.findSome?_cons, hother, Option.bind_none]
      exact ih hapart.2 hlater

theorem declarations_diverge (var : String) :
    (declarations var).keys.Pairwise fun a b => diverge a.toList b.toList = true :=
  show [" = document.createElement(", " = window.components["].Pairwise
    fun a b => diverge a.toList b.toList = true by decide

theorem changes_diverge (var : String) :
    (changes var).keys.Pairwise fun a b => diverge a.toList b.toList = true :=
  show [".className = ", ".setAttribute(", ".style.cssText = ", ".textContent = ", ".appendChild(",
      ".onclick = function() \x7b "].Pairwise
    fun a b => diverge a.toList b.toList = true by decide

/-- A variable with a point after it is not taken for a keyword with a blank after it. -/
theorem dropLead?_keyword (word : String) (hword : IsScriptName word) {var : String}
    (hvar : IsScriptName var) (rest : List Char) :
    Text.dropLead? (word.toList ++ [' ']) (var.toList ++ '.' :: rest) = none := by
  cases hdrop : Text.dropLead? (word.toList ++ [' ']) (var.toList ++ '.' :: rest) with
  | none => rfl
  | some tail =>
    have hline := eq_of_dropLead? hdrop
    have hafter := congrArg afterName hline
    rw [afterName_append hvar (by decide), List.append_assoc, List.singleton_append,
      afterName_append hword (by decide)] at hafter
    exact absurd (List.cons.inj hafter).1 (by decide)

theorem ofLine?_variable {var : String} (h : IsScriptName var) (rest : List Char) :
    ofLine? (var.toList ++ '.' :: rest) = readForm (changes var) ('.' :: rest) := by
  have hconst : Text.dropLead? "const ".toList (var.toList ++ '.' :: rest) = none :=
    dropLead?_keyword "const" (by decide) h rest
  have hreturn : Text.dropLead? "return ".toList (var.toList ++ '.' :: rest) = none :=
    dropLead?_keyword "return" (by decide) h rest
  rw [ofLine?, hconst, hreturn]
  simp only [leadName_append h (show '.' ∈ scriptMarks by decide),
    afterName_append h (show '.' ∈ scriptMarks by decide)]

theorem ofLine?_declaration {var : String} (h : IsScriptName var) (rest : List Char) :
    ofLine? ("const ".toList ++ (var.toList ++ ' ' :: rest)) =
      readForm (declarations var) (' ' :: rest) := by
  rw [ofLine?, dropLead?_append]
  simp only [leadName_append h (show ' ' ∈ scriptMarks by decide),
    afterName_append h (show ' ' ∈ scriptMarks by decide)]

/-- A line that changes its variable is read by the form that it was written by. -/
theorem ofLine?_of_change {var lead : String} {read : List Char → Option Instruction}
    {rest tail : List Char} {step : Instruction} (h : IsScriptName var)
    (hmem : (lead, read) ∈ changes var) (hpoint : lead.toList = '.' :: tail)
    (hread : read rest = some step) :
    ofLine? (var.toList ++ (lead.toList ++ rest)) = some step := by
  have hline := readForm_of_mem (changes_diverge var) hmem hread
  rw [hpoint, List.cons_append] at hline ⊢
  rw [ofLine?_variable h, hline]

/-- A line that declares its variable is read by the form that it was written by. -/
theorem ofLine?_of_declaration {var lead : String} {read : List Char → Option Instruction}
    {rest tail : List Char} {step : Instruction} (h : IsScriptName var)
    (hmem : (lead, read) ∈ declarations var) (hblank : lead.toList = ' ' :: tail)
    (hread : read rest = some step) :
    ofLine? ("const ".toList ++ (var.toList ++ (lead.toList ++ rest))) = some step := by
  have hline := readForm_of_mem (declarations_diverge var) hmem hread
  rw [hblank, List.cons_append] at hline ⊢
  rw [ofLine?_declaration h, hline]

/-- **A line is read as the step that it was written for.** -/
theorem ofLine?_script {step : Instruction} (h : step.IsNamed) :
    ofLine? step.script.toList = some step := by
  cases step with
  | createElement var tag =>
    have hline : (createElement var tag).script.toList =
        "const ".toList ++ (var.toList ++ (" = document.createElement(".toList ++
          ((Text.literal tag).toList ++ ");".toList))) := by
      simp only [script, String.toList_append, List.append_assoc]
    rw [hline]
    refine ofLine?_of_declaration h (.head _) rfl ?_
    rw [takeLiteral_append, Option.map_some]
  | invokeFactory var key arguments =>
    have hline : (invokeFactory var key arguments).script.toList =
        "const ".toList ++ (var.toList ++ (" = window.components[".toList ++
          ((Text.literal key).toList ++ ("](".toList ++ ((Text.join ", " arguments).toList ++
            ')' :: [';']))))) := by
      simp only [script, String.toList_append, List.append_assoc]
      rfl
    rw [hline]
    refine ofLine?_of_declaration h.1 (.tail _ (.head _)) rfl ?_
    simp only [takeLiteral_append, Option.bind_some, dropLead?_append, Option.map_some,
      leadArguments_join h.2]
  | assignClass var value =>
    have hline : (assignClass var value).script.toList =
        var.toList ++ (".className = ".toList ++ ((Text.literal value).toList ++ ";".toList)) := by
      simp only [script, String.toList_append, List.append_assoc]
    rw [hline]
    refine ofLine?_of_change h (.head _) rfl ?_
    rw [takeLiteral_append, Option.map_some]
  | setAttribute var name value =>
    have hline : (setAttribute var name value).script.toList =
        var.toList ++ (".setAttribute(".toList ++ ((Text.literal name).toList ++
          (", ".toList ++ (value.script.toList ++ ')' :: [';'])))) := by
      simp only [script, String.toList_append, List.append_assoc]
      rfl
    rw [hline]
    refine ofLine?_of_change h.1 (.tail _ (.head _)) rfl ?_
    simp only [takeLiteral_append, Option.bind_some, dropLead?_append, Option.map_some,
      leadOperand_append h.2 (show ')' ∈ scriptMarks by decide)]
  | assignStyle var value =>
    have hline : (assignStyle var value).script.toList =
        var.toList ++ (".style.cssText = ".toList ++ (value.script.toList ++ ';' :: [])) := by
      simp only [script, String.toList_append, List.append_assoc]
      rfl
    rw [hline]
    refine ofLine?_of_change h.1 (.tail _ (.tail _ (.head _))) rfl ?_
    rw [leadOperand_append h.2 (show ';' ∈ scriptMarks by decide)]
  | setText var value =>
    have hline : (setText var value).script.toList =
        var.toList ++ (".textContent = ".toList ++ (value.script.toList ++ ';' :: [])) := by
      simp only [script, String.toList_append, List.append_assoc]
      rfl
    rw [hline]
    refine ofLine?_of_change h.1 (.tail _ (.tail _ (.tail _ (.head _)))) rfl ?_
    rw [leadOperand_append h.2 (show ';' ∈ scriptMarks by decide)]
  | assignClick var expression =>
    have hline : (assignClick var expression).script.toList =
        var.toList ++ (".onclick = function() \x7b ".toList ++
          (expression.toList ++ "; \x7d;".toList)) := by
      simp only [script, String.toList_append, List.append_assoc]
    rw [hline]
    refine ofLine?_of_change h.1 (.tail _ (.tail _ (.tail _ (.tail _ (.tail _ (.head _)))))) rfl ?_
    rw [List.reverse_append, dropLead?_append, Option.map_some, List.reverse_reverse,
      String.ofList_toList]
  | appendChild parent child =>
    have hline : (appendChild parent child).script.toList =
        parent.toList ++ (".appendChild(".toList ++ (child.toList ++ ')' :: [';'])) := by
      simp only [script, String.toList_append, List.append_assoc]
      rfl
    rw [hline]
    refine ofLine?_of_change h.1 (.tail _ (.tail _ (.tail _ (.tail _ (.head _))))) rfl ?_
    rw [leadName_append h.2 (show ')' ∈ scriptMarks by decide)]
  | giveNode var =>
    have hline : (giveNode var).script.toList = "return ".toList ++ (var.toList ++ ';' :: []) := by
      simp only [script, String.toList_append, List.append_assoc]
      rfl
    have hconst : Text.dropLead? "const ".toList ("return ".toList ++ (var.toList ++ [';'])) =
        none := dropLead?_of_diverge (by decide) _
    rw [hline, ofLine?, hconst, dropLead?_append]
    simp only [leadName_append h (show ';' ∈ scriptMarks by decide)]

end Instruction

/-! ## Characters of a script -/

/-- The part of an operand that stands in a line as it is. -/
def Operand.bare : Operand → List String
  | literal _ => []
  | broken _ => []
  | reference name => [name]
  | stray shown => [shown]

namespace Instruction

/-- The parts of a step that stand in its line as they are. Everything else of a step is written as
a literal. -/
def bare : Instruction → List String
  | createElement var _ => [var]
  | assignClass var _ => [var]
  | setAttribute var _ value => var :: value.bare
  | assignStyle var value => var :: value.bare
  | setText var value => var :: value.bare
  | assignClick var expression => [var, expression]
  | invokeFactory var _ arguments => var :: arguments
  | appendChild parent child => [parent, child]
  | giveNode var => [var]

section

variable {P : Char → Prop}

theorem forall_mem_join {separator : String} (hseparator : ∀ c ∈ separator.toList, P c)
    {parts : List String} (h : ∀ part ∈ parts, ∀ c ∈ part.toList, P c) :
    ∀ c ∈ (Text.join separator parts).toList, P c := by
  induction parts with
  | nil => simp [Text.join]
  | cons part parts ih =>
    rw [List.forall_mem_cons] at h
    cases parts with
    | nil => simpa [Text.join] using h.1
    | cons next parts =>
      rw [Text.join, String.intercalate_cons_cons, String.toList_append, String.toList_append,
        List.forall_mem_append, List.forall_mem_append]
      exact ⟨⟨h.1, hseparator⟩, ih h.2⟩

/-- A line is made of printable ASCII characters and of the bare parts of its step. -/
theorem forall_mem_script (hprintable : ∀ c : Char, 0x20 ≤ c.toNat ∧ c.toNat < 0x7F → P c)
    {step : Instruction} (hbare : ∀ part ∈ step.bare, ∀ c ∈ part.toList, P c) :
    ∀ c ∈ step.script.toList, P c := by
  have hfixed : ∀ s : String, (s.toList.all fun c => 0x20 ≤ c.toNat ∧ c.toNat < 0x7F) = true →
      ∀ c ∈ s.toList, P c :=
    fun s hs c hc => hprintable c (of_decide_eq_true (List.all_eq_true.mp hs c hc))
  have hliteral : ∀ s : String, ∀ c ∈ (Text.literal s).toList, P c :=
    fun s c hc => hprintable c (Text.literal_printable hc)
  have hoperand : ∀ v : Operand, (∀ part ∈ v.bare, ∀ c ∈ part.toList, P c) →
      ∀ c ∈ v.script.toList, P c := by
    intro v hv
    cases v with
    | literal text => exact hliteral text
    | broken pieces => exact fun c hc => hprintable c (Text.literalPieces_printable hc)
    | reference name => exact hv name List.mem_cons_self
    | stray shown => exact hv shown List.mem_cons_self
  cases step <;> simp only [bare, List.forall_mem_cons] at hbare <;>
    simp only [script, String.toList_append, List.forall_mem_append, and_assoc]
  case createElement var tag =>
    exact ⟨hfixed _ (by decide), hbare.1, hfixed _ (by decide), hliteral tag, hfixed _ (by decide)⟩
  case assignClass var value =>
    exact ⟨hbare.1, hfixed _ (by decide), hliteral value, hfixed _ (by decide)⟩
  case setAttribute var name value =>
    exact ⟨hbare.1, hfixed _ (by decide), hliteral name, hfixed _ (by decide),
      hoperand value hbare.2, hfixed _ (by decide)⟩
  case assignStyle var value =>
    exact ⟨hbare.1, hfixed _ (by decide), hoperand value hbare.2, hfixed _ (by decide)⟩
  case setText var value =>
    exact ⟨hbare.1, hfixed _ (by decide), hoperand value hbare.2, hfixed _ (by decide)⟩
  case assignClick var expression =>
    exact ⟨hbare.1, hfixed _ (by decide), hbare.2.1, hfixed _ (by decide)⟩
  case invokeFactory var key arguments =>
    exact ⟨hfixed _ (by decide), hbare.1, hfixed _ (by decide), hfixed _ (by decide),
      hfixed _ (by decide), hliteral key, hfixed _ (by decide),
      forall_mem_join (hfixed _ (by decide)) hbare.2, hfixed _ (by decide)⟩
  case appendChild parent child =>
    exact ⟨hbare.1, hfixed _ (by decide), hbare.2.1, hfixed _ (by decide)⟩
  case giveNode var =>
    exact ⟨hfixed _ (by decide), hbare.1, hfixed _ (by decide)⟩

end

theorem IsNamed.bare_ne_newline {step : Instruction} (h : step.IsNamed) :
    ∀ part ∈ step.bare, ∀ c ∈ part.toList, c ≠ '\n' := by
  have hname : ∀ {name : String}, IsScriptName name → ∀ c ∈ name.toList, c ≠ '\n' := by
    rintro name hname c hc rfl
    exact hname.2 '\n' hc (by decide)
  have hoperand : ∀ {v : Operand}, v.IsNamed → ∀ part ∈ v.bare, ∀ c ∈ part.toList, c ≠ '\n' := by
    intro v hv
    cases v with
    | literal text => simp [Operand.bare]
    | broken pieces => simp [Operand.bare]
    | reference name => simpa [Operand.bare] using hname hv
    | stray shown => exact hv.elim
  cases step <;> simp only [bare, List.forall_mem_cons]
  case createElement var tag => exact ⟨hname h, nofun⟩
  case assignClass var value => exact ⟨hname h, nofun⟩
  case setAttribute var name value => exact ⟨hname h.1, hoperand h.2⟩
  case assignStyle var value => exact ⟨hname h.1, hoperand h.2⟩
  case setText var value => exact ⟨hname h.1, hoperand h.2⟩
  case assignClick var expression => exact ⟨hname h.1, fun c hc heq => h.2 (heq ▸ hc), nofun⟩
  case invokeFactory var key arguments => exact ⟨hname h.1, fun name hmem => hname (h.2 name hmem)⟩
  case appendChild parent child => exact ⟨hname h.1, hname h.2, nofun⟩
  case giveNode var => exact ⟨hname h, nofun⟩

/-! ## Scripts -/

/-- The steps that a script is, line by line. -/
def ofScript? (text : String) : Option (List Instruction) :=
  if text = "" then some [] else (text.toList.splitOn '\n').mapM ofLine?

theorem IsNamed.newline_notMem {step : Instruction} (h : step.IsNamed) :
    '\n' ∉ step.script.toList := by
  intro hmem
  refine forall_mem_script (P := (· ≠ '\n')) ?_ h.bare_ne_newline '\n' hmem rfl
  rintro c hc rfl
  exact absurd hc (by decide)

theorem mapM_ofLine? {steps : List Instruction} (h : ∀ step ∈ steps, step.IsNamed) :
    (steps.map fun step => step.script.toList).mapM ofLine? = some steps := by
  induction steps with
  | nil => rfl
  | cons step steps ih =>
    rw [List.forall_mem_cons] at h
    simp [ofLine?_script h.1, ih h.2]

/-- **A script is read as the steps that it was written for.** -/
theorem ofScript?_scriptAll {steps : List Instruction} (h : ∀ step ∈ steps, step.IsNamed) :
    ofScript? (scriptAll steps) = some steps := by
  have htext : (scriptAll steps).toList =
      ['\n'].intercalate (steps.map fun step => step.script.toList) := by
    simp [scriptAll, Text.join, String.toList_intercalate, Function.comp_def]
  cases steps with
  | nil => rfl
  | cons step steps =>
    have hlines : (scriptAll (step :: steps)).toList.splitOn '\n' =
        (step :: steps).map fun step => step.script.toList := by
      rw [htext]
      refine List.splitOn_intercalate '\n' ?_ (by simp)
      simpa using ⟨(h step List.mem_cons_self).newline_notMem,
        fun s hs => (h s (List.mem_cons_of_mem _ hs)).newline_notMem⟩
    have hne : scriptAll (step :: steps) ≠ "" := by
      intro hempty
      rw [hempty] at hlines
      have hnil : [] = step.script.toList := (List.cons.inj hlines).1
      have hline := ofLine?_script (h step List.mem_cons_self)
      rw [← hnil] at hline
      cases hline
    rw [ofScript?, if_neg hne, hlines, mapM_ofLine? h]

theorem scriptAll?_of_named {steps : List Instruction} (h : ∀ step ∈ steps, step.IsNamed) :
    scriptAll? steps = .ok (scriptAll steps) := by
  have hoperand : ∀ {v : Operand}, v.IsNamed → v.isSound = true := by
    intro v hv
    cases v with
    | literal text => rfl
    | broken pieces => rfl
    | reference name => rfl
    | stray shown => exact hv.elim
  have hsound : ∀ step ∈ steps, step.isSound = true := by
    intro step hstep
    have hnamed := h step hstep
    cases step with
    | setAttribute var name value => exact hoperand hnamed.2
    | assignStyle var value => exact hoperand hnamed.2
    | setText var value => exact hoperand hnamed.2
    | _ => rfl
  rw [scriptAll?, if_pos (List.all_eq_true.mpr hsound)]

/-- **A script determines its steps.** Steps whose variables, references and arguments are names,
and whose click expressions stand on one line, have scripts, and different steps have different
scripts. Tags, attribute names, classes, literals and keys may be any texts, and a literal may be a
broken one in which no two halves would make a character. -/
theorem scriptAll_determines {p q : List Instruction} (hp : ∀ step ∈ p, step.IsNamed)
    (hq : ∀ step ∈ q, step.IsNamed) :
    ∃ a b, scriptAll? p = .ok a ∧ scriptAll? q = .ok b ∧ (a = b → p = q) := by
  refine ⟨_, _, scriptAll?_of_named hp, scriptAll?_of_named hq, fun hsame => ?_⟩
  have hread := ofScript?_scriptAll hp
  rw [hsame, ofScript?_scriptAll hq] at hread
  exact (Option.some.inj hread).symm

/-- A name and a value that look like each other's quotes, a click that looks like the end of a
function and a return, and halves in the other order are told apart from what they look like. -/
theorem scriptAll_ne_of_forged :
    let p : List Instruction := [.setAttribute "el1" "a\", \"b" (.literal "c"),
      .setText "el1" (.broken [.half 0xDE00, .half 0xD83D]),
      .assignClick "el1" "go(); \x7d; return el1", .giveNode "el1"]
    let q : List Instruction := [.setAttribute "el1" "a" (.literal "b\", \"c"),
      .setText "el1" (.literal "\\ude00\\ud83d"),
      .assignClick "el1" "go()", .giveNode "el1"]
    scriptAll? p ≠ scriptAll? q := by
  intro p q
  obtain ⟨a, b, hp, hq, hdetermines⟩ :=
    scriptAll_determines (p := p) (q := q) (by decide) (by decide)
  rw [hp, hq]
  exact fun heq => absurd (hdetermines (Except.ok.inj heq)) (by decide)

/-- **Two halves look like their character.** The two halves of a pair, each standing alone, are
another text than the character that they would make, and the steps that set them have one
script. -/
theorem scriptAll_halves :
    let halves : List Instruction := [.setText "el1" (.broken [.half 0xD83D, .half 0xDE00])]
    let character : List Instruction := [.setText "el1" (.literal "😀")]
    halves ≠ character ∧ IsScriptName "el1" ∧
      scriptAll? halves = .ok "el1.textContent = \"\\ud83d\\ude00\";" ∧
      scriptAll? character = .ok "el1.textContent = \"\\ud83d\\ude00\";" := by
  exact ⟨by decide, by decide, rfl, rfl⟩

end Instruction

end Pageloom
