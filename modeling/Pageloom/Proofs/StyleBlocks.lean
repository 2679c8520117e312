import Pageloom.Proofs.Outcome
import Pageloom.Style

/-!
# Blocks of flattened styles

Rules hold tables within tables, and declarations may stand before, between and after them. A
place tells one of these tables by the positions of the entries that the way to it goes through,
so the lexicographic order of places has every table before those nested in it, and these in the
order of their entries. Flattening follows a walk over the tables that keeps to this order. Each
table with declarations of its own gives one block, and the others give none; what is nested in
them is still met.

Flattening fails for one reason only: an integer among the declared values is too long to be
written. A whole sheet is flattened selector by selector, and selectors without any block leave no
empty line behind.

## Main definitions

* `Pageloom.Style.tableAt?` -- the table at a place
* `Pageloom.Style.BlockAt` -- the block of the table at a place
* `Pageloom.Style.walk` -- the tables in order
* `Pageloom.Style.flatten_loses_nothing` -- blocks and tables correspond
* `Pageloom.Style.flatten_without_text` -- an integer that is too long to be written
-/

namespace Pageloom.Style

/-! ## Tables in rules -/

mutual

/-- Whether the tables among rules, on every level, have texts as names. -/
def hasTextNames : Value → Bool
  | .table es => haveTextNames es
  | .view es => haveTextNames es
  | .dictionary _ => false
  | _ => true

/-- Whether the tables among entries, on every level, have texts as names. -/
def haveTextNames : List (String × Value) → Bool
  | [] => true
  | (_, v) :: es => hasTextNames v && haveTextNames es

end

/-- The table at a place in rules, with the names on the way to it. -/
def tableAt? : (rules : Value) → (place : List Nat) → Option (List String × Entries Value)
  | rules, [] => rules.entries?.map fun es => ([], es)
  | rules, i :: place => do
    let es ← rules.entries?
    let e ← es[i]?
    let t ← tableAt? e.2 place
    return (e.1 :: t.1, t.2)

/-- Whether an entry of rules is a declaration: it is neither a table nor without a value. -/
def isDeclaration (e : String × Value) : Bool := !e.2.isTable && isDeclared e.2

/-- A declaration as it stands in a block. -/
def declaration (e : String × Value) : String := property e.1 ++ ": " ++ e.2.setting ++ ";"

/-- The block of the table at a place, which must have declarations: the selector is nested name by
name along the way, and every declaration is written once, in order. -/
def BlockAt (selector : String) (rules : Value) (place : List Nat) (b : Block) : Prop :=
  ∃ names es, tableAt? rules place = some (names, es) ∧ es.any isDeclaration = true ∧
    b = ⟨names.foldl nest selector, (es.filter isDeclaration).map declaration⟩

/-- Every declared value among rules has a text. -/
def IsWritable (rules : Value) : Prop :=
  ∀ place names es, tableAt? rules place = some (names, es) →
    ∀ e ∈ es, isDeclaration e = true → e.2.hasText = true

/-! ## The walk over tables -/

/-- A table that is met on the walk: its place, the names on the way to it, and its entries. -/
structure Stop where
  place : List Nat
  names : List String
  entries : Entries Value

/-- A stop of a walk that begins at an entry, on the walk over all entries. -/
def Stop.below (i : Nat) (name : String) (s : Stop) : Stop :=
  ⟨i :: s.place, name :: s.names, s.entries⟩

mutual

/-- The tables among rules: each before those nested in it, and these in order. -/
def walk : Value → List Stop
  | .table es => ⟨[], [], es⟩ :: walkFrom 0 es
  | .view es => ⟨[], [], es⟩ :: walkFrom 0 es
  | _ => []

/-- The tables below entries that are numbered from `i` on. -/
def walkFrom (i : Nat) : List (String × Value) → List Stop
  | [] => []
  | (name, v) :: es => (walk v).map (Stop.below i name) ++ walkFrom (i + 1) es

end

theorem walk_of_entries {v : Value} {es : Entries Value} (h : v.entries? = some es) :
    walk v = ⟨[], [], es⟩ :: walkFrom 0 es := by
  cases v <;> simp_all [walk, Value.entries?]

theorem walk_of_none {v : Value} (h : v.entries? = none) : walk v = [] := by
  cases v <;> simp_all [walk, Value.entries?]

theorem mem_walkFrom {s : Stop} {i : Nat} {es : List (String × Value)} :
    s ∈ walkFrom i es ↔ ∃ j e t, es[j]? = some e ∧ t ∈ walk e.2 ∧ s = t.below (i + j) e.1 := by
  induction es generalizing i with
  | nil => simp [walkFrom]
  | cons a es ih =>
    obtain ⟨name, v⟩ := a
    rw [walkFrom, List.mem_append, List.mem_map, ih]
    constructor
    · rintro (⟨t, ht, rfl⟩ | ⟨j, e, t, he, ht, rfl⟩)
      · exact ⟨0, (name, v), t, rfl, ht, rfl⟩
      · exact ⟨j + 1, e, t, by simpa using he, ht, by rw [Nat.add_right_comm, Nat.add_assoc]⟩
    · rintro ⟨j, e, t, he, ht, rfl⟩
      cases j with
      | zero =>
        cases he
        exact .inl ⟨t, ht, rfl⟩
      | succ j =>
        exact .inr ⟨j, e, t, by simpa using he, ht, by rw [Nat.add_right_comm, Nat.add_assoc]⟩

/-- The walk meets the table at every place. -/
theorem mem_walk {rules : Value} {s : Stop} :
    s ∈ walk rules ↔ tableAt? rules s.place = some (s.names, s.entries) := by
  obtain ⟨place, names, fs⟩ := s
  induction place generalizing rules names with
  | nil =>
    cases hes : rules.entries? with
    | none => simp [walk_of_none hes, tableAt?, hes]
    | some es =>
      have hbelow : ⟨[], names, fs⟩ ∉ walkFrom 0 es := by
        intro hmem
        obtain ⟨j, e, t, _, _, heq⟩ := mem_walkFrom.mp hmem
        cases heq
      simp [walk_of_entries hes, tableAt?, hes, hbelow, eq_comm]
  | cons i place ih =>
    cases hes : rules.entries? with
    | none => simp [walk_of_none hes, tableAt?, hes]
    | some es =>
      have hroot : (⟨i :: place, names, fs⟩ : Stop) ≠ ⟨[], [], es⟩ := by simp
      rw [walk_of_entries hes, List.mem_cons, or_iff_right hroot, mem_walkFrom]
      constructor
      · rintro ⟨j, e, t, he, ht, heq⟩
        obtain ⟨place', names', fs'⟩ := t
        simp only [Stop.below, Stop.mk.injEq, List.cons.injEq, Nat.zero_add] at heq
        obtain ⟨⟨rfl, rfl⟩, rfl, rfl⟩ := heq
        simp [tableAt?, hes, he, (ih names').mp ht]
      · intro h
        simp only [tableAt?, hes, Option.bind_eq_bind, Option.bind_some,
          Option.bind_eq_some_iff] at h
        obtain ⟨e, he, t, ht, heq⟩ := h
        cases heq
        exact ⟨i, e, ⟨place, t.1, t.2⟩, he, (ih t.1).mpr ht, by simp [Stop.below]⟩

theorem Stop.below_lt {i j : Nat} {m n : String} {s t : Stop} :
    (s.below i m).place < (t.below j n).place ↔ i < j ∨ i = j ∧ s.place < t.place :=
  List.cons_lt_cons_iff

mutual

theorem walk_pairwise : ∀ v : Value, (walk v).Pairwise (·.place < ·.place)
  | .table es | .view es => by
    rw [walk, List.pairwise_cons]
    refine ⟨fun s hs => ?_, walkFrom_pairwise es 0⟩
    obtain ⟨j, e, t, _, _, rfl⟩ := mem_walkFrom.mp hs
    exact List.nil_lt_cons _ _
  | .none | .scalar _ | .brokenText _ | .list _ | .tuple _ | .dictionary _ | .handler _ | .bytes _
  | .emptySet | .moment _ | .callable _ | .node _ | .foreign _ => by simp [walk]

theorem walkFrom_pairwise : ∀ (es : List (String × Value)) (i : Nat),
    (walkFrom i es).Pairwise (·.place < ·.place)
  | [], _ => by simp [walkFrom]
  | (name, v) :: es, i => by
    rw [walkFrom, List.pairwise_append]
    refine ⟨?_, walkFrom_pairwise es (i + 1), ?_⟩
    · rw [List.pairwise_map]
      exact (walk_pairwise v).imp fun h => Stop.below_lt.mpr (.inr ⟨rfl, h⟩)
    · intro s hs t ht
      obtain ⟨s, _, rfl⟩ := List.mem_map.mp hs
      obtain ⟨j, e, t, _, _, rfl⟩ := mem_walkFrom.mp ht
      exact Stop.below_lt.mpr (.inl (by omega))

end

/-! ## Blocks -/

namespace Stop

/-- Whether a table has declarations of its own. -/
def declares (s : Stop) : Bool := s.entries.any isDeclaration

/-- The block of a table's own declarations. -/
def block (selector : String) (s : Stop) : Block :=
  ⟨s.names.foldl nest selector, (s.entries.filter isDeclaration).map declaration⟩

end Stop

theorem declarations_eq (es : Entries Value) :
    declarations es = (es.filter isDeclaration).map declaration := by
  induction es with
  | nil => rfl
  | cons e es ih =>
    by_cases he : isDeclaration e = true
    · simp_all [declarations, isDeclaration, declaration]
    · simp_all [declarations, isDeclaration]

theorem ownBlock_eq (selector : String) (es : Entries Value) :
    ownBlock selector es = if es.any isDeclaration then
      [⟨selector, (es.filter isDeclaration).map declaration⟩] else [] := by
  rw [ownBlock, declarations_eq]
  by_cases hany : es.any isDeclaration = true
  · have hsome : ((es.filter isDeclaration).map declaration).isEmpty = false := by
      simpa using hany
    simp only [hany, hsome, Bool.false_eq_true, if_false, if_true]
  · have hnone : es.filter isDeclaration = [] := by simpa using hany
    simp [hany, hnone]

mutual

/-- The blocks of rules are those of the tables with declarations, in the order of the walk. -/
theorem blocksOf_eq_walk : ∀ {v : Value}, hasTextNames v = true → ∀ selector,
    blocksOf selector v = ((walk v).filter Stop.declares).map (Stop.block selector)
  | .table es, h, selector | .view es, h, selector => by
    rw [blocksOf, walk, List.filter_cons, nestedBlocks_eq_walk h selector 0, ownBlock_eq]
    by_cases hany : es.any isDeclaration = true
    · simp [Stop.declares, Stop.block, hany]
    · simp [Stop.declares, hany]
  | .dictionary _, h, _ => by simp [hasTextNames] at h
  | .none, _, _ | .scalar _, _, _ | .brokenText _, _, _ | .list _, _, _ | .tuple _, _, _
  | .handler _, _, _ | .bytes _, _, _ | .emptySet, _, _ | .moment _, _, _ | .callable _, _, _
  | .node _, _, _ | .foreign _, _, _ => by simp [blocksOf, walk]

theorem nestedBlocks_eq_walk : ∀ {es : List (String × Value)}, haveTextNames es = true →
    ∀ selector i, nestedBlocks selector es =
      ((walkFrom i es).filter Stop.declares).map (Stop.block selector)
  | [], _, _, _ => by simp [nestedBlocks, walkFrom]
  | (name, v) :: es, h, selector, i => by
    rw [haveTextNames, Bool.and_eq_true] at h
    rw [nestedBlocks, walkFrom, List.filter_append, List.map_append, List.filter_map, List.map_map,
      blocksOf_eq_walk h.1, nestedBlocks_eq_walk h.2 selector (i + 1)]
    rfl

end

/-! ## Checks -/

/-- The declared values of a table have texts. -/
def Stop.IsWritable (s : Stop) : Prop :=
  ∀ e ∈ s.entries, isDeclaration e = true → e.2.hasText = true

theorem forall_walk_isWritable {rules : Value} :
    (∀ s ∈ walk rules, s.IsWritable) ↔ IsWritable rules :=
  ⟨fun h place names es hat => h ⟨place, names, es⟩ (mem_walk.mpr hat),
    fun h s hs => h s.place s.names s.entries (mem_walk.mp hs)⟩

instance (rules : Value) : Decidable (IsWritable rules) :=
  have (s : Stop) : Decidable s.IsWritable :=
    inferInstanceAs (Decidable (∀ e ∈ s.entries, isDeclaration e = true → e.2.hasText = true))
  decidable_of_iff _ forall_walk_isWritable

theorem succeedsIf_checkEntry (parent : String) (e : String × Value) :
    SucceedsIf (isDeclaration e = true → e.2.hasText = true)
      (checkEntry (.text parent) (.text e.1, e.2)) := by
  obtain ⟨name, v⟩ := e
  by_cases htable : v.isTable = true
  · have hcheck : checkEntry (.text parent) (.text name, v) = .ok () := by
      simp [checkEntry, htable, nestValues, Value.words?, Value.text?, Except.map]
    rw [hcheck]
    exact .ok (by simp [isDeclaration, htable]) ()
  · by_cases hdeclared : isDeclared v = true
    · have hcheck : checkEntry (.text parent) (.text name, v) = v.settingText.map fun _ => () := by
        simp [checkEntry, htable, hdeclared, Value.words?, Value.text?]
      rw [hcheck]
      exact (v.succeedsIf_settingText.map _).congr (by simp [isDeclaration, htable, hdeclared])
    · have hcheck : checkEntry (.text parent) (.text name, v) = .ok () := by
        simp [checkEntry, htable, hdeclared]
      rw [hcheck]
      exact .ok (by simp [isDeclaration, hdeclared]) ()

theorem succeedsIf_checkEntries (parent : String) (es : Entries Value) :
    SucceedsIf (∀ e ∈ es, isDeclaration e = true → e.2.hasText = true)
      ((Pairs.ofEntries es).forM (checkEntry (.text parent))) := by
  induction es with
  | nil => exact .ok (by simp) ()
  | cons e es ih =>
    exact ((succeedsIf_checkEntry parent e).bind fun _ => ih).congr (by rw [List.forall_mem_cons])

mutual

theorem succeedsIf_checkRules : ∀ {v : Value}, hasTextNames v = true → ∀ parent : String,
    SucceedsIf (∀ s ∈ walk v, s.IsWritable) (checkRules (.text parent) v)
  | .table es, h, parent | .view es, h, parent => by
    rw [checkRules, walk]
    exact ((succeedsIf_checkEntries parent es).bind fun _ => succeedsIf_checkNested h 0).congr
      (by rw [List.forall_mem_cons]; rfl)
  | .dictionary _, h, _ => by simp [hasTextNames] at h
  | .none, _, _ | .scalar _, _, _ | .brokenText _, _, _ | .list _, _, _ | .tuple _, _, _
  | .handler _, _, _ | .bytes _, _, _ | .emptySet, _, _ | .moment _, _, _ | .callable _, _, _
  | .node _, _, _ | .foreign _, _, _ => by exact .ok (by simp [walk]) ()

theorem succeedsIf_checkNested : ∀ {es : List (String × Value)}, haveTextNames es = true → ∀ i,
    SucceedsIf (∀ s ∈ walkFrom i es, s.IsWritable) (checkNested es)
  | [], _, _ => .ok (by simp [walkFrom]) ()
  | (name, v) :: es, h, i => by
    rw [haveTextNames, Bool.and_eq_true] at h
    rw [checkNested, walkFrom]
    have hboth := (succeedsIf_checkRules h.1 "").bind fun _ => succeedsIf_checkNested h.2 (i + 1)
    refine hboth.congr ?_
    rw [List.forall_mem_append, List.forall_mem_map]
    rfl

end

/-! ## Flat text -/

theorem blocksText_eq_empty {bs : List Block} : blocksText bs = "" ↔ bs = [] := by
  constructor
  · intro h
    cases bs with
    | nil => rfl
    | cons b bs =>
      have hchars := congrArg String.toList h
      cases bs <;> simp [blocksText, Text.join, Block.text] at hchars
  · rintro rfl
    rfl

/-- Texts of lists of blocks, the empty ones left out, make up the text of all blocks. -/
theorem blocksText_flatten (bss : List (List Block)) :
    blocksText bss.flatten = Text.join "\n" ((bss.map blocksText).filter (· ≠ "")) := by
  induction bss with
  | nil => rfl
  | cons bs bss ih =>
    by_cases hbs : bs = []
    · simp [hbs, blocksText_eq_empty, ih]
    · have hkeep : ((bs :: bss).map blocksText).filter (· ≠ "") =
          blocksText bs :: (bss.map blocksText).filter (· ≠ "") := by
        simp [blocksText_eq_empty, hbs]
      rw [hkeep, List.flatten_cons]
      by_cases hrest : bss.flatten = []
      · have hnone : (bss.map blocksText).filter (· ≠ "") = [] := by
          simpa [blocksText_eq_empty] using List.flatten_eq_nil_iff.mp hrest
        rw [hrest, hnone, List.append_nil]
        simp [Text.join]
      · have hsome : (bss.map blocksText).filter (· ≠ "") ≠ [] := by
          intro hnone
          rw [hnone] at ih
          exact hrest (blocksText_eq_empty.mp ih)
        rw [Text.join, String.intercalate_cons_of_ne_nil hsome, ← Text.join, ← ih]
        simp only [blocksText, Text.join, List.map_append]
        exact String.intercalate_append_of_ne_nil (by simpa using hbs) (by simpa using hrest)

theorem sheetBlocks_eq_mapM (ps : Pairs) :
    sheetBlocks ps = (ps.mapM fun e => blocks e.1 e.2).map List.flatten := by
  induction ps with
  | nil => rfl
  | cons e ps ih =>
    obtain ⟨selector, rules⟩ := e
    rw [sheetBlocks, List.mapM_cons]
    cases blocks selector rules with
    | error fault => rfl
    | ok own =>
      rw [ih]
      cases ps.mapM fun e => blocks e.1 e.2 with
      | error fault => rfl
      | ok rest => rfl

/-- The flat text of a sheet is that of its selectors, one after the other. -/
theorem flattenSheet_eq_mapM {sheet : Value} {ps : Pairs} (h : sheet.pairs? = some ps) :
    flattenSheet sheet = (ps.mapM fun e => flatten e.1 e.2).map fun texts =>
      Text.join "\n" (texts.filter (· ≠ "")) := by
  have htexts : ps.mapM (fun e => flatten e.1 e.2) =
      (ps.mapM fun e => blocks e.1 e.2).map (List.map blocksText) := by
    clear h
    induction ps with
    | nil => rfl
    | cons e ps ih =>
      rw [List.mapM_cons, List.mapM_cons, ih, flatten]
      cases blocks e.1 e.2 with
      | error fault => rfl
      | ok own => cases ps.mapM fun e => blocks e.1 e.2 <;> rfl
  simp only [flattenSheet, h, htexts, sheetBlocks_eq_mapM]
  cases ps.mapM fun e => blocks e.1 e.2 with
  | error fault => rfl
  | ok bss => exact congrArg Except.ok (blocksText_flatten bss)

/-- Rules that can be written are flattened to the blocks of the walk; others cannot be used. -/
theorem flatten_eq_walk (selector : String) {rules : Value} (htable : rules.isTable = true)
    (hnames : hasTextNames rules = true) :
    (IsWritable rules ∧ flatten (.text selector) rules = .ok (blocksText
      (((walk rules).filter Stop.declares).map (Stop.block selector)))) ∨
    (¬ IsWritable rules ∧ flatten (.text selector) rules = .error .wrongValue) := by
  rw [← forall_walk_isWritable, ← blocksOf_eq_walk hnames]
  rcases succeedsIf_checkRules hnames selector with ⟨hall, _, hcheck⟩ | ⟨hall, hcheck⟩
  · refine .inl ⟨hall, ?_⟩
    simp only [flatten, blocks, htable, hcheck]
    rfl
  · refine .inr ⟨hall, ?_⟩
    simp only [flatten, blocks, htable, hcheck]
    rfl

/-- **Flattening loses and duplicates nothing.** The blocks of a selector, each with its place, are
exactly those of the tables that have declarations, in the order of the places; where some
declared value has no text, there is no result. The flat text of a sheet is made of the texts of
its selectors in order, those that are empty being left out, and it has the fault of the first
selector that has one. -/
theorem flatten_loses_nothing (selector : String) (rules sheet : Value) :
    (rules.isTable = true → hasTextNames rules = true →
      ∃ placed : List (List Nat × Block),
        placed.Pairwise (fun a b => a.1 < b.1) ∧
        (∀ place b, (place, b) ∈ placed ↔ BlockAt selector rules place b) ∧
        (IsWritable rules →
          flatten (.text selector) rules = .ok (blocksText (placed.map Prod.snd))) ∧
        (¬ IsWritable rules → flatten (.text selector) rules = .error .wrongValue)) ∧
    ∀ ps, sheet.pairs? = some ps →
      flattenSheet sheet = (ps.mapM fun e => flatten e.1 e.2).map fun texts =>
        Text.join "\n" (texts.filter (· ≠ "")) := by
  refine ⟨fun htable hnames => ?_, fun ps => flattenSheet_eq_mapM⟩
  refine ⟨((walk rules).filter Stop.declares).map fun s => (s.place, s.block selector),
    ?_, ?_, ?_⟩
  · rw [List.pairwise_map]
    exact (walk_pairwise rules).filter _
  · intro place b
    simp only [List.mem_map, List.mem_filter, Prod.mk.injEq]
    constructor
    · rintro ⟨s, ⟨hs, hdeclares⟩, rfl, rfl⟩
      exact ⟨s.names, s.entries, mem_walk.mp hs, hdeclares, rfl⟩
    · rintro ⟨names, es, hat, hdeclares, rfl⟩
      exact ⟨⟨place, names, es⟩, ⟨mem_walk.mpr hat, hdeclares⟩, rfl, rfl⟩
  · rw [List.map_map]
    rcases flatten_eq_walk selector htable hnames with ⟨hwritable, htext⟩ | ⟨hwritable, hfault⟩
    · exact ⟨fun _ => htext, fun h => absurd hwritable h⟩
    · exact ⟨fun h => absurd h hwritable, fun _ => hfault⟩

/-- A card with declarations around nested rules, one of which only holds further ones. -/
theorem flatten_loses_nothing_card :
    let rules : Value := .table [("padding", .text "4px"),
      ("h2", .table [("&.on &", .view [("fontSize", .text "2em")])]),
      (":hover", .table [("color", .text "blue"), ("margin", .none)]), ("gap", .text "0")]
    flatten (.text ".card") rules = .ok (".card \x7b padding: 4px; gap: 0; \x7d\n" ++
      ".card h2.on .card h2 \x7b font-size: 2em; \x7d\n.card:hover \x7b color: blue; \x7d") ∧
    (∃ placed : List (List Nat × Block),
      flatten (.text ".card") rules = .ok (blocksText (placed.map Prod.snd)) ∧
      placed.Pairwise (fun a b => a.1 < b.1) ∧
      ([1, 0], ⟨".card h2.on .card h2", ["font-size: 2em;"]⟩) ∈ placed ∧
      ∀ b, ([1], b) ∉ placed) ∧
    flattenSheet (.table [(".a", .table []), (".card", rules)]) =
      flatten (.text ".card") rules := by
  intro rules
  obtain ⟨placed, horder, hplaced, htext, _⟩ :=
    (flatten_loses_nothing ".card" rules .none).1 (by decide) (by decide)
  have hcard : flatten (.text ".card") rules =
      .ok (".card \x7b padding: 4px; gap: 0; \x7d\n" ++
        ".card h2.on .card h2 \x7b font-size: 2em; \x7d\n.card:hover \x7b color: blue; \x7d") :=
    except_eq_ok_of_toOption (by decide +kernel)
  refine ⟨hcard, ⟨placed, htext (by decide), horder, ?_, ?_⟩, ?_⟩
  · exact (hplaced _ _).mpr ⟨_, _, rfl, by decide, by decide +kernel⟩
  · rintro b hb
    obtain ⟨names, es, hat, hdeclares, _⟩ := (hplaced _ _).mp hb
    cases hat
    exact absurd hdeclares (by decide)
  · rw [(flatten_loses_nothing ".card" rules _).2 _ rfl, hcard]
    exact except_eq_ok_of_toOption (by decide +kernel)

/-- **An integer that is too long to be written leaves all rules without a text.** The outer table
and the nested one have a declaration each, and so a block each; flattening gives neither. -/
theorem flatten_without_text :
    let rules : Value := .table [("color", .text "red"),
      (":hover", .table [("order", .int Value.longInteger)])]
    BlockAt ".a" rules [] ⟨".a", ["color: red;"]⟩ ∧
    (∃ line, BlockAt ".a" rules [1] ⟨".a:hover", [line]⟩) ∧
    flatten (.text ".a") rules = .error .wrongValue := by
  have hrules (v : Value) (hv : isDeclaration ("order", v) = true) (hnames : hasTextNames v = true)
      (htext : v.hasText = false) :
      let rules : Value := .table [("color", .text "red"), (":hover", .table [("order", v)])]
      BlockAt ".a" rules [] ⟨".a", ["color: red;"]⟩ ∧
      (∃ line, BlockAt ".a" rules [1] ⟨".a:hover", [line]⟩) ∧
      flatten (.text ".a") rules = .error .wrongValue := by
    intro rules
    have hnested : tableAt? rules [1] = some ([":hover"], [("order", v)]) := rfl
    have hwritable : ¬ IsWritable rules := by
      intro h
      have hhas := h [1] _ _ hnested ("order", v) List.mem_cons_self hv
      exact absurd (hhas.symm.trans htext) (by decide)
    have hrulenames : hasTextNames rules = true := by
      simp [rules, hasTextNames, haveTextNames, hnames]
    have hcolor : declaration ("color", .text "red") = "color: red;" := by decide +kernel
    refine ⟨⟨[], _, rfl, rfl, ?_⟩, ⟨declaration ("order", v), ?_⟩, ?_⟩
    · rw [← hcolor]
      rfl
    · refine ⟨_, _, hnested, by simp [hv], ?_⟩
      rw [List.filter_cons_of_pos hv]
      exact congrArg (Block.mk · _) (by decide +kernel)
    · rcases flatten_eq_walk ".a" rfl hrulenames with ⟨h, -⟩ | ⟨-, hfault⟩
      · exact absurd h hwritable
      · exact hfault
  exact hrules (.int Value.longInteger) rfl rfl (by decide +kernel)

end Pageloom.Style
