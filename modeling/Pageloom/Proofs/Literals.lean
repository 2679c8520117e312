import Mathlib.Algebra.Group.Nat.Defs
import Pageloom.Json
import Pageloom.Text.Lines
import Pageloom.Text.Literal

/-!
# Literals can be read back

The literals of the generated scripts are written in the format of style sheets, so the reader
of that format is the measure for them. It reads a text piece by piece: an escape, or a pair of
escapes for a character beyond the basic plane, is one piece. Every character is written as
something that is read as this character alone, whatever follows, so a text comes back as it
was. What is written is printable ASCII, and no line ends in it. Half of a pair that stands alone is
read back too, unless it is a first half and a second one stands right after it.

## Main definitions

* `Pageloom.Text.isUnpaired` -- pieces none of which would make a character with the next one
* `Pageloom.Json.Reads` -- characters that are read as one character
* `Pageloom.Json.reads_literalChar` -- each character of a literal is read back
* `Pageloom.Json.pieces_literalPieces` -- each piece of a literal is read back
* `Pageloom.Text.literalChar_printable` -- what literals are made of
-/

namespace Pageloom

namespace Text

/-! ## Hexadecimal digits -/

theorem hexDigitValue?_hexDigit : ∀ n < 16, Json.hexDigitValue? (hexDigit n) = some n := by decide

theorem hexDigit_printable :
    ∀ n < 16, 0x20 ≤ (hexDigit n).toNat ∧ (hexDigit n).toNat < 0x7F := by decide

theorem hexDigit_ne_bracket : ∀ n < 16, hexDigit n ≠ '<' := by decide

@[simp] theorem length_hex (width n : Nat) : (hex width n).length = width := by
  induction width generalizing n with
  | zero => rfl
  | succ width ih => simp [hex, ih]

theorem exists_of_mem_hex {width n : Nat} {c : Char} (h : c ∈ hex width n) :
    ∃ d < 16, c = hexDigit d := by
  induction width generalizing n with
  | zero => simp [hex] at h
  | succ width ih =>
    simp only [hex, List.mem_append, List.mem_singleton] at h
    rcases h with h | h
    · exact ih h
    · exact ⟨n % 16, Nat.mod_lt n (by decide), h⟩

/-- The digits of a number give the number, as far as the width goes. -/
theorem mapM_hex (width n : Nat) : ∃ ds, (hex width n).mapM Json.hexDigitValue? = some ds ∧
    ds.length = width ∧ ds.foldl (fun n d => n * 16 + d) 0 = n % 16 ^ width := by
  induction width generalizing n with
  | zero => exact ⟨[], rfl, rfl, (Nat.mod_one n).symm⟩
  | succ width ih =>
    obtain ⟨ds, hds, hlength, hvalue⟩ := ih (n / 16)
    have hlast := hexDigitValue?_hexDigit (n % 16) (Nat.mod_lt n (by decide))
    refine ⟨ds ++ [n % 16], ?_, by simp [hlength], ?_⟩
    · simp [hex, hds, hlast]
    · rw [List.foldl_append, hvalue, Nat.pow_succ, Nat.mul_comm (16 ^ width) 16, Nat.mod_mul]
      simp only [List.foldl_cons, List.foldl_nil]
      omega

/-! ## Characters of literals -/

/-- The letters of the short escapes, with what they stand for. -/
def shortEscapes : List (Char × Char) :=
  [('"', '"'), ('\\', '\\'), ('n', '\n'), ('r', '\r'), ('t', '\t'), ('b', '\x08'), ('f', '\x0c')]

/-- A character of a literal has a short escape, or stands for itself, or is one unit or two. -/
theorem literalChar_cases (c : Char) :
    (∃ d, (d, c) ∈ shortEscapes ∧ literalChar c = ['\\', d]) ∨
    (literalChar c = [c] ∧ c ≠ '"' ∧ c ≠ '\\' ∧ 0x20 ≤ c.toNat ∧ c.toNat < 0x7F) ∨
    (c.toNat < 0x10000 ∧ literalChar c = unitEscape c.toNat) ∨
    (0x10000 ≤ c.toNat ∧ literalChar c =
      unitEscape (0xD800 + (c.toNat - 0x10000) / 0x400) ++
        unitEscape (0xDC00 + (c.toNat - 0x10000) % 0x400)) := by
  by_cases hshort : ∃ d, (d, c) ∈ shortEscapes
  · obtain ⟨d, hd⟩ := hshort
    refine .inl ⟨d, hd, ?_⟩
    simp only [shortEscapes, List.mem_cons, Prod.mk.injEq, List.not_mem_nil, or_false] at hd
    rcases hd with ⟨rfl, rfl⟩ | ⟨rfl, rfl⟩ | ⟨rfl, rfl⟩ | ⟨rfl, rfl⟩ | ⟨rfl, rfl⟩ |
      ⟨rfl, rfl⟩ | ⟨rfl, rfl⟩ <;> rfl
  · simp only [shortEscapes, List.mem_cons, Prod.mk.injEq, List.not_mem_nil, or_false, exists_or,
      exists_eq_left, not_or] at hshort
    obtain ⟨h₁, h₂, h₃, h₄, h₅, h₆, h₇⟩ := hshort
    simp only [literalChar, h₁, h₂, h₃, h₄, h₅, h₆, h₇, if_false]
    by_cases hplain : 0x20 ≤ c.toNat ∧ c.toNat < 0x7F
    · exact .inr (.inl ⟨by simp [hplain], h₁, h₂, hplain⟩)
    · by_cases hc : c.toNat < 0x10000
      · exact .inr (.inr (.inl ⟨hc, by simp [hplain, hc]⟩))
      · exact .inr (.inr (.inr ⟨Nat.le_of_not_lt hc, by simp [hplain, hc]⟩))

/-- A unit is written with a backslash, the letter `u` and digits. -/
theorem of_mem_unitEscape {n : Nat} {c : Char} (h : c ∈ unitEscape n) :
    c = '\\' ∨ c = 'u' ∨ ∃ d < 16, c = hexDigit d := by
  simp only [unitEscape, List.mem_cons] at h
  exact h.imp_right (Or.imp_right exists_of_mem_hex)

theorem unitEscape_printable {n : Nat} {c : Char} (h : c ∈ unitEscape n) :
    0x20 ≤ c.toNat ∧ c.toNat < 0x7F := by
  rcases of_mem_unitEscape h with rfl | rfl | ⟨digit, hdigit, rfl⟩
  · decide
  · decide
  · exact hexDigit_printable digit hdigit

/-- Literals are made of printable ASCII characters. -/
theorem literalChar_printable {c d : Char} (h : d ∈ literalChar c) :
    0x20 ≤ d.toNat ∧ d.toNat < 0x7F := by
  rcases literalChar_cases c with
    ⟨e, hshort, heq⟩ | ⟨heq, -, -, hplain⟩ | ⟨-, heq⟩ | ⟨-, heq⟩ <;> rw [heq] at h
  · have hletters : ∀ p ∈ shortEscapes, ∀ d ∈ ['\\', p.1], 0x20 ≤ d.toNat ∧ d.toNat < 0x7F := by
      simp [shortEscapes]
    exact hletters _ hshort d h
  · cases List.mem_singleton.mp h
    exact hplain
  · exact unitEscape_printable h
  · exact (List.mem_append.mp h).elim unitEscape_printable unitEscape_printable

/-- A bracket in a literal stands for itself. -/
theorem eq_bracket_of_mem_literalChar {c : Char} (h : '<' ∈ literalChar c) : c = '<' := by
  have hunit : ∀ {n : Nat}, '<' ∉ unitEscape n := by
    intro n hn
    rcases of_mem_unitEscape hn with hn | hn | ⟨digit, hdigit, hn⟩
    · exact absurd hn (by decide)
    · exact absurd hn (by decide)
    · exact hexDigit_ne_bracket digit hdigit hn.symm
  rcases literalChar_cases c with
    ⟨e, hshort, heq⟩ | ⟨heq, -⟩ | ⟨-, heq⟩ | ⟨-, heq⟩ <;> rw [heq] at h
  · have hletters : ∀ p ∈ shortEscapes, '<' ∉ ['\\', p.1] := by simp [shortEscapes]
    exact absurd h (hletters _ hshort)
  · exact (List.mem_singleton.mp h).symm
  · exact absurd h hunit
  · exact absurd h (by simp [hunit])

/-- A slash at the beginning stands for itself. -/
theorem exists_of_flatMap_literalChar_eq {cs r : List Char}
    (h : cs.flatMap literalChar = '/' :: r) : ∃ cs', cs = '/' :: cs' := by
  cases cs with
  | nil => cases h
  | cons c cs =>
    rw [List.flatMap_cons] at h
    rcases literalChar_cases c with ⟨e, -, heq⟩ | ⟨heq, -⟩ | ⟨-, heq⟩ | ⟨-, heq⟩ <;>
      rw [heq] at h
    · exact absurd (List.cons.inj h).1 (by decide)
    · exact ⟨cs, by rw [(List.cons.inj h).1]⟩
    · exact absurd (List.cons.inj h).1 (by decide)
    · exact absurd (List.cons.inj h).1 (by decide)

theorem literalPiece_printable {p : Piece} {c : Char} (h : c ∈ literalPiece p) :
    0x20 ≤ c.toNat ∧ c.toNat < 0x7F := by
  cases p with
  | char d => exact literalChar_printable h
  | half n => exact unitEscape_printable h

theorem literalPieces_printable {ps : List Piece} {c : Char} (h : c ∈ (literalPieces ps).toList) :
    0x20 ≤ c.toNat ∧ c.toNat < 0x7F := by
  simp only [literalPieces, String.toList_ofList, List.cons_append, List.mem_cons,
    List.mem_append, List.mem_flatMap, List.not_mem_nil, or_false] at h
  rcases h with rfl | ⟨p, -, hp⟩ | rfl
  · decide
  · exact literalPiece_printable hp
  · decide

/-- A text is a broken one without halves, as far as its literal goes. -/
theorem literalPieces_map_char (s : String) :
    literalPieces (s.toList.map Piece.char) = literal s := by
  simp [literalPieces, literal, List.flatMap_map, literalPiece]

theorem literal_printable {s : String} {c : Char} (h : c ∈ (literal s).toList) :
    0x20 ≤ c.toNat ∧ c.toNat < 0x7F :=
  literalPieces_printable (literalPieces_map_char s ▸ h)

/-- No printable ASCII character ends a line. -/
theorem isLineBoundary_of_printable {c : Char} (h : 0x20 ≤ c.toNat ∧ c.toNat < 0x7F) :
    isLineBoundary c = false := by
  simp only [isLineBoundary, Bool.or_eq_false_iff, Bool.and_eq_false_iff, decide_eq_false_iff_not]
  omega

/-! ## Halves of pairs -/

/-- Whether a piece is a first half. -/
def Piece.isFirst : Piece → Bool
  | char _ => false
  | half n => 0xD800 ≤ n && n < 0xDC00

/-- Whether a piece is a second half. -/
def Piece.isSecond : Piece → Bool
  | char _ => false
  | half n => 0xDC00 ≤ n && n < 0xE000

/-- Whether all pieces are characters and halves of pairs, and no first half stands right before a
second one. -/
def isUnpaired : List Piece → Bool
  | [] => true
  | p :: ps => (p.char?.isSome || p.isFirst || p.isSecond) &&
      !(p.isFirst && ps.head?.any Piece.isSecond) && isUnpaired ps

end Text

namespace Json

open Text

theorem unit?_hex {n : Nat} (hn : n < 0x10000) (rest : List Char) :
    unit? (hex 4 n ++ rest) = some n := by
  obtain ⟨ds, hds, hlength, hvalue⟩ := mapM_hex 4 n
  have htake : (hex 4 n ++ rest).take 4 = hex 4 n := List.take_left' (length_hex 4 n)
  simp [unit?, htake, hds, hlength, hvalue, Nat.mod_eq_of_lt hn]

/-! ## Pieces -/

/-- Characters that are read as one character, whatever follows them. -/
def Reads (cs : List Char) (c : Char) : Prop :=
  ∀ rest, pieces 0 (cs ++ rest) = (pieces 0 rest).map fun t => (.char c :: t.1, t.2)

theorem pieces_skip (cs rest : List Char) : pieces cs.length (cs ++ rest) = pieces 0 rest := by
  induction cs with
  | nil => rfl
  | cons c cs ih => simpa [pieces] using ih

/-- A character that needs no escape. -/
theorem reads_plain {c : Char} (hquote : c ≠ '"') (hslash : c ≠ '\\') (hplain : 0x20 ≤ c.toNat) :
    Reads [c] c := by
  intro rest
  have hcontrol : ¬ c.toNat < 32 := by omega
  simp only [List.singleton_append, pieces, hquote, hslash, hcontrol, if_false]
  cases pieces 0 rest <;> rfl

/-- An escape is read as the piece that it stands for. -/
theorem pieces_escape {cs rest : List Char} {p : Piece}
    (h : escape (cs ++ rest) = some (p, cs.length)) :
    pieces 0 ('\\' :: cs ++ rest) = (pieces 0 rest).map fun t => (p :: t.1, t.2) := by
  have hquote : '\\' ≠ '"' := by decide
  simp only [List.cons_append, pieces, hquote, if_false, if_true, h, Option.bind_eq_bind,
    Option.bind_some, pieces_skip]
  cases pieces 0 rest <;> rfl

theorem reads_escape {cs : List Char} {c : Char}
    (h : ∀ rest, escape (cs ++ rest) = some (.char c, cs.length)) : Reads ('\\' :: cs) c :=
  fun rest => pieces_escape (h rest)

theorem reads_slash : Reads ['\\', '/'] '/' := reads_escape fun _ => rfl

theorem escape_unit {n : Nat} (hn : n < 0x10000) (rest : List Char) :
    escape ('u' :: hex 4 n ++ rest) =
      some ((unitPiece n rest).1, (unitPiece n rest).2 + 1) := by
  have hdrop : (hex 4 n ++ rest).drop 4 = rest := List.drop_left' (length_hex 4 n)
  simp [escape, unit?_hex hn, hdrop]

/-- A character of the basic plane is no half of a pair. -/
theorem reads_unit {c : Char} (hc : c.toNat < 0x10000) : Reads (unitEscape c.toNat) c := by
  refine reads_escape fun rest => ?_
  have hvalid : c.toNat < 0xD800 ∨ 0xDFFF < c.toNat ∧ c.toNat < 0x110000 := c.valid
  have hfirst : ¬ (0xD800 ≤ c.toNat ∧ c.toNat < 0xDC00) := by omega
  have hsecond : ¬ (0xDC00 ≤ c.toNat ∧ c.toNat < 0xE000) := by omega
  rw [escape_unit hc]
  simp [unitPiece, hfirst, hsecond]

theorem secondUnit?_unitEscape {n : Nat} (hn : n < 0x10000) (rest : List Char) :
    secondUnit? (unitEscape n ++ rest) =
      (some n).filter fun m => 0xDC00 ≤ m && m < 0xE000 := by
  simp only [secondUnit?, unitEscape, List.cons_append, unit?_hex hn]

/-- Two units that make one character. -/
theorem reads_units {c : Char} {first second : Nat} (hfirst : 0xD800 ≤ first ∧ first < 0xDC00)
    (hsecond : 0xDC00 ≤ second ∧ second < 0xE000)
    (hcode : 0x10000 + (first - 0xD800) * 0x400 + (second - 0xDC00) = c.toNat) :
    Reads (unitEscape first ++ unitEscape second) c := by
  change Reads ('\\' :: ('u' :: hex 4 first ++ unitEscape second)) c
  refine reads_escape fun rest => ?_
  have hnext : secondUnit? (unitEscape second ++ rest) = some second := by
    simp [secondUnit?_unitEscape (show second < 0x10000 by omega), hsecond]
  rw [List.append_assoc, escape_unit (by omega)]
  simp only [unitPiece, hnext, hcode]
  simp [hfirst, unitEscape]

/-- A character beyond the basic plane is a pair of units. -/
theorem reads_pair {c : Char} (hc : 0x10000 ≤ c.toNat) :
    Reads (unitEscape (0xD800 + (c.toNat - 0x10000) / 0x400) ++
      unitEscape (0xDC00 + (c.toNat - 0x10000) % 0x400)) c := by
  have hvalid : c.toNat < 0xD800 ∨ 0xDFFF < c.toNat ∧ c.toNat < 0x110000 := c.valid
  exact reads_units (by omega) (by omega) (by omega)

/-- **Each character of a literal is read back.** -/
theorem reads_literalChar (c : Char) : Reads (literalChar c) c := by
  rcases literalChar_cases c with
    ⟨d, hshort, heq⟩ | ⟨heq, hquote, hslash, hplain, -⟩ | ⟨hc, heq⟩ | ⟨hc, heq⟩ <;> rw [heq]
  · refine reads_escape fun rest => ?_
    simp only [shortEscapes, List.mem_cons, Prod.mk.injEq, List.not_mem_nil, or_false] at hshort
    rcases hshort with ⟨rfl, rfl⟩ | ⟨rfl, rfl⟩ | ⟨rfl, rfl⟩ | ⟨rfl, rfl⟩ | ⟨rfl, rfl⟩ |
      ⟨rfl, rfl⟩ | ⟨rfl, rfl⟩ <;> rfl
  · exact reads_plain hquote hslash hplain
  · exact reads_unit hc
  · exact reads_pair hc

theorem whole?_map_char (s : String) : whole? (s.toList.map Piece.char) = some s := by
  have hchars : ∀ cs : List Char, (cs.map Piece.char).mapM Piece.char? = some cs := by
    intro cs
    induction cs with
    | nil => rfl
    | cons c cs ih => simp [ih, Piece.char?]
  simp [whole?, hchars]

theorem ofPieces_map_char (s : String) : Value.ofPieces (s.toList.map Piece.char) = .text s := by
  simp [Value.ofPieces, whole?_map_char]

/-- A quoted text whose characters are read back is read as that text. -/
theorem read_of_pieces {cs : List Char} {s : String}
    (h : pieces 0 cs = some (s.toList.map Piece.char, [])) :
    read (String.ofList ('"' :: cs)) = .ok (.text s) := by
  have hblank : skipBlanks ('"' :: cs) = '"' :: cs := by simp [skipBlanks]
  have hvalue : ∀ fuel depth, value (fuel + 1) (depth + 1) ('"' :: cs) = .ok (.text s, []) := by
    intro fuel depth
    simp [value, text, h, ofPieces_map_char, Reading.ofOption]
  have hstart : value (2 * (String.ofList ('"' :: cs)).length + 2) Reading.depthLimit ('"' :: cs) =
      .ok (.text s, []) := hvalue _ 74999
  rw [read, String.toList_ofList, hblank, hstart]
  rfl

/-- A half is read as such, unless it is a first one and a second one follows. -/
theorem pieces_half {n : Nat} (hn : 0xD800 ≤ n ∧ n < 0xE000) {rest : List Char}
    (hnext : n < 0xDC00 → secondUnit? rest = none) :
    pieces 0 (unitEscape n ++ rest) = (pieces 0 rest).map fun t => (.half n :: t.1, t.2) := by
  change pieces 0 ('\\' :: ('u' :: hex 4 n) ++ rest) = _
  refine pieces_escape ?_
  rw [escape_unit (by omega)]
  by_cases hfirst : n < 0xDC00
  · simp [unitPiece, hn.1, hfirst, hnext hfirst]
  · have hsecond : 0xDC00 ≤ n := by omega
    simp [unitPiece, hfirst, hsecond, hn.2]

/-- Only a second half is written as a second unit. -/
theorem secondUnit?_literalPieces {ps : List Piece} (hps : isUnpaired ps = true)
    (hhead : ps.head?.any Piece.isSecond = false) (rest : List Char) :
    secondUnit? (ps.flatMap literalPiece ++ '"' :: rest) = none := by
  cases ps with
  | nil => rfl
  | cons p ps =>
    rw [List.flatMap_cons, List.append_assoc]
    cases p with
    | char c =>
      have hvalid : c.toNat < 0xD800 ∨ 0xDFFF < c.toNat ∧ c.toNat < 0x110000 := c.valid
      rw [literalPiece]
      rcases literalChar_cases c with ⟨d, hshort, heq⟩ | ⟨heq, -, hslash, -⟩ | ⟨hc, heq⟩ |
        ⟨hc, heq⟩ <;> rw [heq]
      · have hletters : ∀ e ∈ shortEscapes, e.1 ≠ 'u' := by simp [shortEscapes]
        have hletter : d ≠ 'u' := hletters _ hshort
        simp [secondUnit?, hletter]
      · simp [secondUnit?, hslash]
      · have hnot : ¬ (0xDC00 ≤ c.toNat ∧ c.toNat < 0xE000) := by omega
        simpa [secondUnit?_unitEscape hc] using hnot
      · have hnot : ¬ 0xDC00 ≤ 0xD800 + (c.toNat - 0x10000) / 0x400 := by omega
        rw [List.append_assoc, secondUnit?_unitEscape (by omega)]
        simp [hnot]
    | half n =>
      have hnot : ¬ (0xDC00 ≤ n ∧ n < 0xE000) := by
        simpa [Piece.isSecond] using hhead
      have hfirst : 0xD800 ≤ n ∧ n < 0xDC00 := by
        simp only [isUnpaired, Piece.char?, Piece.isFirst, Piece.isSecond, Bool.and_eq_true,
          Bool.or_eq_true, decide_eq_true_eq, hnot, Option.isSome_none] at hps
        simpa using hps.1.1
      rw [literalPiece, secondUnit?_unitEscape (by omega)]
      simpa using hnot

/-- **Each piece of a literal is read back.** -/
theorem pieces_literalPieces {ps : List Piece} (hps : isUnpaired ps = true) (rest : List Char) :
    pieces 0 (ps.flatMap literalPiece ++ '"' :: rest) = some (ps, rest) := by
  induction ps with
  | nil => simp [pieces]
  | cons p ps ih =>
    simp only [isUnpaired, Bool.and_eq_true] at hps
    obtain ⟨⟨hproper, hpair⟩, hlater⟩ := hps
    rw [List.flatMap_cons, List.append_assoc]
    cases p with
    | char c =>
      rw [literalPiece, reads_literalChar, ih hlater]
      rfl
    | half n =>
      have hn : 0xD800 ≤ n ∧ n < 0xE000 := by
        simp only [Piece.char?, Piece.isFirst, Piece.isSecond, Option.isSome_none, Bool.false_or,
          Bool.or_eq_true, Bool.and_eq_true, decide_eq_true_eq] at hproper
        omega
      have hnext : n < 0xDC00 →
          secondUnit? (ps.flatMap literalPiece ++ '"' :: rest) = none := by
        intro hfirst
        refine secondUnit?_literalPieces hlater ?_ rest
        simpa [Piece.isFirst, hn.1, hfirst] using hpair
      rw [literalPiece, pieces_half hn hnext, ih hlater]
      rfl

theorem isUnpaired_map_char (cs : List Char) : isUnpaired (cs.map Piece.char) = true := by
  induction cs with
  | nil => rfl
  | cons c cs ih => simp [isUnpaired, Piece.char?, Piece.isFirst, ih]

theorem pieces_literal (cs rest : List Char) :
    pieces 0 (cs.flatMap literalChar ++ '"' :: rest) = some (cs.map Piece.char, rest) := by
  have hpieces := pieces_literalPieces (isUnpaired_map_char cs) rest
  rwa [List.flatMap_map] at hpieces

/-- **A literal is read as the text that it was written for.** -/
theorem read_literal (s : String) : read (literal s) = .ok (.text s) :=
  read_of_pieces (pieces_literal s.toList [])

end Json

end Pageloom
