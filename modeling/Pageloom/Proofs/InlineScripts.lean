import Pageloom.Page
import Pageloom.Proofs.Literals

/-!
# Scripts that stand in a page

A script in a page ends at the first closing tag, wherever that stands, also within a literal.
So a backslash is put into every `</` of the script. The backslash makes no new `</`, and it
changes no literal: it never stands within an escape, since what it follows is a bracket and no
escape has one, and before a slash it is an escape of its own, which stands for the slash.

A literal begins and ends with a quotation mark, so that no `</` is partly inside it. What
becomes of a literal does not depend on the script around it.

## Main definitions

* `Pageloom.Text.guardClosingOf_eq_replaceFrom` -- guarding is replacing
* `Pageloom.Text.not_infix_guardClosingOf` -- a guarded text closes nothing
* `Pageloom.Json.read_guardClosing_literal` -- a guarded literal is read as before
* `Pageloom.inlineScript_intact` -- scripts are kept intact
-/

namespace Pageloom

namespace Text

/-! ## Guarded texts -/

/-- A character stays as it is, unless it is the bracket of a `</`. -/
theorem guardClosingOf_cons {c : Char} {rest : List Char}
    (h : c = '<' → ∀ r, rest ≠ '/' :: r) :
    guardClosingOf (c :: rest) = c :: guardClosingOf rest :=
  guardClosingOf.eq_2 c rest fun r hc hrest => h hc r hrest

theorem guardClosingOf_eq_replaceFrom (cs : List Char) :
    guardClosingOf cs = replaceFrom ['<', '/'] ['<', '\\', '/'] 0 cs := by
  fun_induction guardClosingOf cs with
  | case1 rest ih => simp [replaceFrom, dropLead?, ih]
  | case2 c rest h ih =>
    have hlead : dropLead? ['<', '/'] (c :: rest) = none := by
      cases rest with
      | nil => by_cases hc : '<' = c <;> simp [dropLead?, hc]
      | cons d rest =>
        by_cases hc : '<' = c
        · have hd : '/' ≠ d := fun hd => h rest hc.symm (hd ▸ rfl)
          simp [dropLead?, hd]
        · simp [dropLead?, hc]
    simp [replaceFrom, hlead, ih]
  | case3 => rfl

/-- Guarding brings no slash to the front. -/
theorem exists_of_guardClosingOf_eq {cs r : List Char} (h : guardClosingOf cs = '/' :: r) :
    ∃ r', cs = '/' :: r' := by
  fun_cases guardClosingOf cs with
  | case1 rest => simp [guardClosingOf] at h
  | case2 c rest hne =>
    rw [guardClosingOf.eq_2 c rest hne] at h
    exact ⟨rest, by rw [(List.cons.inj h).1]⟩
  | case3 => cases h

/-- **A guarded text has no `</` in it.** -/
theorem not_infix_guardClosingOf (cs : List Char) : ¬ ['<', '/'] <:+: guardClosingOf cs := by
  fun_induction guardClosingOf cs with
  | case1 rest ih => simp [List.infix_cons_iff, ih]
  | case2 c rest h ih =>
    rw [List.infix_cons_iff, List.cons_prefix_cons, not_or]
    refine ⟨?_, ih⟩
    rintro ⟨hc, t, ht⟩
    obtain ⟨r, hr⟩ := exists_of_guardClosingOf_eq ht.symm
    exact h r hc.symm hr
  | case3 => simp

/-- A character that is neither bracket nor slash divides what is guarded. -/
theorem guardClosingOf_append_cons {c : Char} (hbracket : c ≠ '<') (hslash : c ≠ '/')
    (x y : List Char) :
    guardClosingOf (x ++ c :: y) = guardClosingOf x ++ c :: guardClosingOf y := by
  fun_induction guardClosingOf x with
  | case1 rest ih => simp [guardClosingOf, ih]
  | case2 d rest h ih =>
    rw [List.cons_append, guardClosingOf_cons, ih, List.cons_append]
    intro hd r hr
    cases rest with
    | nil => exact hslash (List.cons.inj hr).1
    | cons e rest => exact h rest hd (by rw [(List.cons.inj hr).1])
  | case3 => exact guardClosingOf_cons fun hc => absurd hc hbracket

theorem guardClosingOf_append_of_notMem {x : List Char} (hx : '<' ∉ x) (y : List Char) :
    guardClosingOf (x ++ y) = x ++ guardClosingOf y := by
  induction x with
  | nil => rfl
  | cons c x ih =>
    simp only [List.mem_cons, not_or] at hx
    rw [List.cons_append, guardClosingOf_cons fun hc => absurd hc.symm hx.1, ih hx.2,
      List.cons_append]

/-- Quotation marks stay as they are. -/
theorem guardClosingOf_quoted (x : List Char) :
    guardClosingOf ('"' :: x ++ ['"']) = '"' :: guardClosingOf x ++ ['"'] := by
  rw [List.cons_append, guardClosingOf_cons (by simp),
    guardClosingOf_append_cons (by decide) (by decide)]
  rfl

/-- Text between quotation marks is guarded by itself. -/
theorem guardClosingOf_around_quoted (x y z : List Char) :
    guardClosingOf (x ++ ('"' :: y ++ ['"']) ++ z) =
      guardClosingOf x ++ guardClosingOf ('"' :: y ++ ['"']) ++ guardClosingOf z := by
  have hsplit := guardClosingOf_append_cons (c := '"') (by decide) (by decide)
  have hparts : x ++ ('"' :: y ++ ['"']) ++ z = x ++ '"' :: (y ++ '"' :: z) := by simp
  rw [hparts, hsplit, hsplit, guardClosingOf_quoted]
  simp

theorem toList_guardClosing (s : String) : (guardClosing s).toList = guardClosingOf s.toList :=
  String.toList_ofList

theorem guardClosing_eq_replaceAll (s : String) :
    guardClosing s = replaceAll s "</" "<\\/" := by
  rw [guardClosing, guardClosingOf_eq_replaceFrom]
  rfl

theorem guardClosing_literal (s : String) : guardClosing (literal s) =
    String.ofList ('"' :: (guardClosingOf (s.toList.flatMap literalChar) ++ ['"'])) := by
  rw [guardClosing, literal, String.toList_ofList, guardClosingOf_quoted, List.cons_append]

/-- A backslash is all that guarding adds. -/
theorem mem_of_mem_guardClosingOf {c : Char} {cs : List Char} (h : c ∈ guardClosingOf cs) :
    c ∈ cs ∨ c = '\\' := by
  fun_induction guardClosingOf cs with
  | case1 rest ih => grind
  | case2 d rest hne ih => grind
  | case3 => cases h

end Text

namespace Json

open Text

/-- The characters of a literal are read back also where it is guarded. -/
theorem pieces_guarded (cs rest : List Char) :
    pieces 0 (guardClosingOf (cs.flatMap literalChar) ++ '"' :: rest) =
      some (cs.map Piece.char, rest) := by
  fun_induction guardClosingOf cs with
  | case1 cs ih =>
    have hguard : guardClosingOf (('<' :: '/' :: cs).flatMap literalChar) =
        ['<'] ++ (['\\', '/'] ++ guardClosingOf (cs.flatMap literalChar)) := rfl
    have hbracket : Reads ['<'] '<' := reads_plain (by decide) (by decide) (by decide)
    rw [hguard, List.append_assoc, hbracket, List.append_assoc, reads_slash, ih]
    rfl
  | case2 c cs h ih =>
    have hguard : guardClosingOf ((c :: cs).flatMap literalChar) =
        literalChar c ++ guardClosingOf (cs.flatMap literalChar) := by
      rw [List.flatMap_cons]
      by_cases hbracket : '<' ∈ literalChar c
      · obtain rfl := eq_bracket_of_mem_literalChar hbracket
        refine guardClosingOf_cons fun _ r hr => ?_
        obtain ⟨cs', hcs'⟩ := exists_of_flatMap_literalChar_eq hr
        exact h cs' rfl hcs'
      · exact guardClosingOf_append_of_notMem hbracket _
    rw [hguard, List.append_assoc, reads_literalChar, ih]
    rfl
  | case3 => simp [guardClosingOf, pieces]

/-- **A guarded literal is read as the text that the literal was written for.** -/
theorem read_guardClosing_literal (s : String) :
    read (guardClosing (literal s)) = .ok (.text s) := by
  rw [guardClosing_literal]
  exact read_of_pieces (pieces_guarded s.toList [])

end Json

/-! ## Inline scripts -/

/-- After a text without any `</`, the first one is the one of the closing tag, and there is no
other. -/
theorem append_closeTag_eq {body x y : List Char} (hbody : ¬ ['<', '/'] <:+: body)
    (h : body ++ "\n</script>".toList = x ++ ('<' :: '/' :: y)) :
    x = body ++ ['\n'] ∧ y = "script>".toList := by
  have htag : "\n</script>".toList = '\n' :: '<' :: '/' :: "script>".toList := rfl
  rw [htag] at h
  rcases List.append_eq_append_iff.mp h with ⟨z, rfl, hz⟩ | ⟨z, rfl, hz⟩
  · cases z with
    | nil => simp at hz
    | cons c z =>
      cases z with
      | nil =>
        simp only [List.cons_append, List.nil_append, List.cons.injEq, true_and] at hz
        exact ⟨by rw [hz.1], hz.2.symm⟩
      | cons d z =>
        -- The closing tag has no second bracket.
        simp only [List.cons_append, List.cons.injEq] at hz
        have hmem : '<' ∈ '/' :: "script>".toList := hz.2.2 ▸ by simp
        exact absurd hmem (by decide)
  · cases z with
    | nil => simp at hz
    | cons c z =>
      cases z with
      | nil => simp at hz
      | cons d z =>
        simp only [List.cons_append, List.cons.injEq] at hz
        exact absurd ⟨x, z, by simp [← hz.1, ← hz.2.1]⟩ hbody

/-- **A script that stands in a page is kept intact.** It stands there with a backslash in every
`</`, and the first `</` after the opening tag is the one of the closing tag. A literal is written
in printable characters, no line ends in it, and it is read as its text both as it is and as it
stands in the page, whatever is before and after it in the script. -/
theorem inlineScript_intact (source s before after : String) :
    let guarded (text : String) := Text.replaceAll text "</" "<\\/"
    let js := (Operand.literal s).script
    (inlineScript source = "<script>\n" ++ guarded source ++ "\n</script>" ∧
      ¬ "</".toList <:+: (guarded source).toList ∧
      ∀ x y, inlineScript source = "<script>\n" ++ x ++ "</" ++ y →
        x = guarded source ++ "\n" ∧ y = "script>") ∧
    ((Scalar.text s).literal = js ∧ (Value.text s).scriptLiteral = .ok js) ∧
    (∀ c ∈ js.toList ++ (guarded js).toList,
      (0x20 ≤ c.toNat ∧ c.toNat < 0x7F) ∧ Text.isLineBoundary c = false) ∧
    Json.read js = .ok (.text s) ∧ Json.read (guarded js) = .ok (.text s) ∧
    inlineScript (before ++ js ++ after) =
      "<script>\n" ++ guarded before ++ guarded js ++ guarded after ++ "\n</script>" := by
  intro guarded js
  have hguarded : ∀ text, guarded text = Text.guardClosing text := fun text =>
    (Text.guardClosing_eq_replaceAll text).symm
  simp only [hguarded]
  have hclosed : ¬ ['<', '/'] <:+: (Text.guardClosing source).toList := by
    rw [Text.toList_guardClosing]
    exact Text.not_infix_guardClosingOf _
  have hprintable : ∀ c ∈ js.toList ++ (Text.guardClosing js).toList,
      0x20 ≤ c.toNat ∧ c.toNat < 0x7F := by
    intro c hc
    rcases List.mem_append.mp hc with hc | hc
    · exact Text.literal_printable hc
    · rw [Text.toList_guardClosing] at hc
      rcases Text.mem_of_mem_guardClosingOf hc with hc | rfl
      · exact Text.literal_printable hc
      · decide
  refine ⟨⟨rfl, hclosed, fun x y h => ?_⟩, ⟨rfl, rfl⟩, fun c hc => ?_, Json.read_literal s,
    Json.read_guardClosing_literal s, ?_⟩
  · have hlist : (Text.guardClosing source).toList ++ "\n</script>".toList =
        x.toList ++ ('<' :: '/' :: y.toList) := by
      have htext := congrArg String.toList h
      simp only [inlineScript, String.append_assoc, String.toList_append] at htext
      simpa using htext
    obtain ⟨hx, hy⟩ := append_closeTag_eq hclosed hlist
    exact ⟨String.toList_inj.mp (by simpa using hx), String.toList_inj.mp hy⟩
  · exact ⟨hprintable c hc, Text.isLineBoundary_of_printable (hprintable c hc)⟩
  · have hparts : Text.guardClosing (before ++ js ++ after) =
        Text.guardClosing before ++ Text.guardClosing js ++ Text.guardClosing after := by
      have hlist := Text.guardClosingOf_around_quoted before.toList
        (s.toList.flatMap Text.literalChar) after.toList
      refine String.toList_inj.mp ?_
      simp only [String.toList_append, Text.toList_guardClosing]
      simpa [js, Operand.script, Text.literal] using hlist
    rw [inlineScript, hparts]
    simp only [String.append_assoc]

-- A backslash before the bracket, and a text that ends in one.
example : inlineScript (Text.literal "\\</b><") = "<script>\n\"\\\\<\\/b><\"\n</script>" := by
  decide +kernel

end Pageloom
