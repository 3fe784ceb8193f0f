import Mathlib
import Transclude.Proofs.Printing

/-! # Printed loop headers

The text of a loop header is read back, without the brackets around it, when all of its
expressions are legible: its names, operators and semicolons stay apart from them. -/

namespace Transclude

open Transclude.Expr

/-- Whether the expression of a step, if it has one, is legible. -/
def LoopUpdate.isLegible (update : LoopUpdate) : Bool :=
  update.change.operand?.all Expr.isLegible

/-- Whether the expressions of a header are legible. -/
def LoopHeader.isLegible : LoopHeader → Bool
  | .counted _ init test update =>
    init.isLegible && test.all Expr.isLegible && update.all LoopUpdate.isLegible
  | .forEach _ _ collection => collection.isLegible

/-- The text of a header without the brackets around it. -/
def LoopHeader.inside (header : LoopHeader) : List Char := header.toText.toList.tail.dropLast

/-- Whether the terminals of a step may come from a text. -/
def LoopUpdate.Spelled (update : LoopUpdate) : Prop :=
  (Terminal.identifier update.variableName).Spelled ∧ ∀ e ∈ update.change.operand?, e.Spelled

/-- Whether the terminals of a header may come from a text. -/
def LoopHeader.Spelled : LoopHeader → Prop
  | .counted name init test update =>
    (Terminal.identifier name).Spelled ∧ init.Spelled ∧ (∀ e ∈ test, e.Spelled) ∧
      ∀ step ∈ update, step.Spelled
  | .forEach name _ collection => (Terminal.identifier name).Spelled ∧ collection.Spelled

variable {rest : List Char} {word : List Terminal}

/-! ## Terminals of headers -/

theorem LoopUpdate.spelled_of_flattenings {update : LoopUpdate} (hword : word ∈ update.flattenings)
    (h : ∀ t ∈ word, t.Spelled) : update.Spelled := by
  obtain ⟨name, change⟩ := update
  cases change with
  | increment | decrement =>
      refine ⟨h _ ?_, by simp [Change.operand?]⟩
      simp only [flattenings, List.mem_cons, List.not_mem_nil, or_false] at hword
      rcases hword with rfl | rfl <;> simp
  | addAssign e | subAssign e | assign e =>
      obtain rfl := List.mem_singleton.mp hword
      refine ⟨h _ (by simp), ?_⟩
      rintro _ ⟨⟩
      exact fun t ht => h t (by simp [ht])

theorem LoopHeader.spelled_of_flattensTo {header : LoopHeader} (hword : header.FlattensTo word)
    (h : ∀ t ∈ word, t.Spelled) : header.Spelled := by
  obtain ⟨declaration, _, body, hbody, rfl⟩ := hword
  replace h := (List.forall_mem_append.mp h).2
  cases header with
  | counted name init test update =>
      obtain ⟨step, hstep, rfl⟩ := List.mem_map.mp hbody
      simp only [List.forall_mem_append, List.forall_mem_cons] at h
      obtain ⟨⟨⟨⟨hname, -, hinit⟩, -, htest⟩, -⟩, hupdate⟩ := h
      refine ⟨hname, hinit, ?_, ?_⟩
      · rintro e ⟨⟩
        exact htest
      · rintro _ ⟨⟩
        exact LoopUpdate.spelled_of_flattenings hstep hupdate
  | forEach name mode collection =>
      obtain rfl := List.mem_singleton.mp hbody
      exact ⟨h _ (by simp), fun t ht => h t (by simp [ht])⟩

/-- A header that begins with its variable has no word of declaration. -/
theorem exists_flattensTo_iff {header : LoopHeader} {name : String}
    (hname : (Terminal.identifier name).Spelled)
    (hrest : ∀ c ∈ rest.head?, Text.isIdentifierPart c = false) :
    (∃ word, header.FlattensTo word ∧ Writes (name.toList ++ rest) word) ↔
      ∃ body ∈ header.flattenings, Writes (name.toList ++ rest) body := by
  have hfirst {t : Terminal} {word : List Terminal} (h : Writes (name.toList ++ rest) (t :: word)) :
      t = .identifier name := by
    rw [writes_name hname.1 hrest, nameTerminal, hname.2] at h
    exact h.1.symm
  constructor
  · rintro ⟨word, ⟨declaration, hdeclaration, body, hbody, rfl⟩, hwrites⟩
    simp only [LoopHeader.declarations, List.mem_cons, List.not_mem_nil, or_false] at hdeclaration
    rcases hdeclaration with rfl | rfl | rfl | rfl
    · exact ⟨body, hbody, hwrites⟩
    all_goals cases hfirst hwrites
  · rintro ⟨body, hbody, hwrites⟩
    exact ⟨body, ⟨[], by simp [LoopHeader.declarations], body, hbody, rfl⟩, hwrites⟩

namespace Expr

theorem writes_identifier {name : String} (h : (Terminal.identifier name).Spelled)
    (hrest : ∀ c ∈ rest.head?, Text.isIdentifierPart c = false) :
    Writes (name.toList ++ rest) (.identifier name :: word) ↔ Writes rest word := by
  rw [writes_name h.1 hrest, nameTerminal, h.2]
  exact and_iff_right rfl

theorem writes_whole {e : Expr} (hstratified : e.Stratified) (hspelled : e.Spelled) :
    Writes e.toText.toList e.flatten ↔ e.isLegible = true := by
  have hread := isRead e hstratified hspelled [] [] .nil
  rw [List.append_nil, List.append_nil, writes_nil] at hread
  exact hread.trans (and_iff_left rfl)

end Expr

/-! ## Texts of headers -/

theorem toList_optionalPart (part : Option String) :
    (optionalPart part).toList = part.elim [] fun text => ' ' :: text.toList := by
  cases part <;> simp [optionalPart]

theorem LoopHeader.inside_counted (name : String) (init : Expr) (test : Option Expr)
    (update : Option LoopUpdate) : (LoopHeader.counted name init test update).inside =
      name.toList ++ ' ' :: '=' :: ' ' :: (init.toText.toList ++ ';' ::
        ((optionalPart (test.map Expr.toText)).toList ++ ';' ::
          (optionalPart (update.map LoopUpdate.toText)).toList)) := by
  have htext : (LoopHeader.counted name init test update).toText.toList =
      '(' :: ((name.toList ++ ' ' :: '=' :: ' ' :: (init.toText.toList ++ ';' ::
        ((optionalPart (test.map Expr.toText)).toList ++ ';' ::
          (optionalPart (update.map LoopUpdate.toText)).toList))) ++ [')']) := by
    simp [toText]
  rw [inside, htext, List.tail_cons, List.dropLast_concat]

theorem LoopHeader.inside_forEach (name : String) (mode : Enumeration) (collection : Expr) :
    (LoopHeader.forEach name mode collection).inside =
      name.toList ++ ' ' :: (mode.spelling.toList ++ ' ' :: collection.toText.toList) := by
  have htext : (LoopHeader.forEach name mode collection).toText.toList =
      '(' :: ((name.toList ++ ' ' :: (mode.spelling.toList ++ ' ' ::
        collection.toText.toList)) ++ [')']) := by
    simp [toText]
  rw [inside, htext, List.tail_cons, List.dropLast_concat]

/-! ## Steps -/

/-- A counting sign behind a name. -/
theorem writes_counting {name : String} (hname : (Terminal.identifier name).Spelled)
    {op : Operator} {sign : String} (hsign : sign = op.spelling)
    (hpart : ∀ c ∈ sign.toList.head?, Text.isIdentifierPart c = false) :
    Writes (name ++ sign).toList [.identifier name, .operator op] := by
  subst hsign
  rw [String.toList_append, writes_identifier hname hpart, ← List.append_nil op.spelling.toList,
    writes_operator op (by simp), writes_nil]

/-- An assignment of an expression behind a name. -/
theorem writes_assignment {name : String} (hname : (Terminal.identifier name).Spelled)
    {e : Expr} (hstratified : e.Stratified) (hspelled : e.Spelled) {op : Operator} {sign : String}
    (hsign : sign = op.spelling) :
    Writes (name ++ " " ++ sign ++ " " ++ e.toText).toList
      (.identifier name :: .operator op :: e.flatten) ↔ e.isLegible = true := by
  subst hsign
  have htext : (name ++ " " ++ op.spelling ++ " " ++ e.toText).toList =
      name.toList ++ ' ' :: (op.spelling.toList ++ ' ' :: e.toText.toList) := by
    simp
  rw [htext, writes_identifier hname part_space, writes_between, writes_whole hstratified hspelled]

theorem LoopUpdate.writes_toText {update : LoopUpdate} (hstratified : update.Stratified)
    (hspelled : update.Spelled) :
    (∃ step ∈ update.flattenings, Writes update.toText.toList step) ↔
      update.isLegible = true := by
  obtain ⟨name, change⟩ := update
  obtain ⟨hname, hoperand⟩ := hspelled
  -- an assignment flattens in one way
  have hassignment {change : Change} {op : Operator} {e : Expr}
      (hchange : change.operand? = some e) (hsign : change.spelling = op.spelling)
      (hflattenings : (⟨name, change⟩ : LoopUpdate).flattenings =
        [.identifier name :: .operator op :: e.flatten])
      (hstratified : e.Stratified) (hspelled : e.Spelled) :
      (∃ step ∈ (⟨name, change⟩ : LoopUpdate).flattenings,
        Writes (⟨name, change⟩ : LoopUpdate).toText.toList step) ↔
          (⟨name, change⟩ : LoopUpdate).isLegible = true := by
    simp only [hflattenings, List.mem_singleton, exists_eq_left, toText, isLegible, hchange]
    exact writes_assignment hname hstratified hspelled hsign
  cases change with
  | increment =>
      refine iff_of_true ⟨_, List.mem_cons_self, ?_⟩ rfl
      exact @writes_counting name hname .increment "++" rfl (by rintro _ ⟨⟩; decide)
  | decrement =>
      refine iff_of_true ⟨_, List.mem_cons_self, ?_⟩ rfl
      exact @writes_counting name hname .decrement "--" rfl (by rintro _ ⟨⟩; decide)
  | addAssign e =>
      exact @hassignment _ .addAssign e rfl rfl rfl (hstratified e rfl) (hoperand e rfl)
  | subAssign e =>
      exact @hassignment _ .subAssign e rfl rfl rfl (hstratified e rfl) (hoperand e rfl)
  | assign e => exact @hassignment _ .assign e rfl rfl rfl (hstratified e rfl) (hoperand e rfl)

theorem writes_optionalStep {update : Option LoopUpdate}
    (hstratified : ∀ step ∈ update, step.Stratified) (hspelled : ∀ step ∈ update, step.Spelled) :
    (∃ step ∈ update.elim [[]] LoopUpdate.flattenings,
        Writes (optionalPart (update.map LoopUpdate.toText)).toList step) ↔
      update.all LoopUpdate.isLegible = true := by
  cases update with
  | none => exact iff_of_true ⟨[], List.mem_cons_self, writes_nil.mpr rfl⟩ rfl
  | some update =>
      simp only [Option.map_some, toList_optionalPart, Option.elim_some, writes_space]
      exact LoopUpdate.writes_toText (hstratified update rfl) (hspelled update rfl)

/-! ## Headers -/

theorem writes_optionalTest {test : Option Expr} (hstratified : ∀ e ∈ test, e.Stratified)
    (hspelled : ∀ e ∈ test, e.Spelled) :
    Writes ((optionalPart (test.map Expr.toText)).toList ++ ';' :: rest)
        (test.elim [] Expr.flatten ++ .symbol .semicolon :: word) ↔
      test.all Expr.isLegible = true ∧ Writes rest word := by
  have hsemicolon : Writes (';' :: rest) (.symbol .semicolon :: word) ↔ Writes rest word :=
    writes_symbol .semicolon ';' rfl (by decide)
  cases test with
  | none => exact hsemicolon.trans (and_iff_right rfl).symm
  | some e =>
      simp only [Option.map_some, toList_optionalPart, Option.elim_some, List.cons_append,
        writes_space]
      rw [isRead e (hstratified e rfl) (hspelled e rfl) _ _ (.cons (by decide)), hsemicolon]
      rfl

theorem LoopHeader.parseHeader_inside {header : LoopHeader} (hstratified : header.Stratified)
    (hspelled : header.Spelled) :
    parseHeader header.inside = .ok header ↔ header.isLegible = true := by
  rw [parseHeader_iff_writes]
  refine (and_iff_right hstratified).trans ?_
  cases header with
  | counted name init test update =>
      obtain ⟨hname, hinit, htest, hupdate⟩ := hspelled
      obtain ⟨sinit, stest, supdate⟩ := hstratified
      have hassign {rest : List Char} {word : List Terminal} :
          Writes (' ' :: '=' :: ' ' :: rest) (.operator .assign :: word) ↔ Writes rest word :=
        writes_between .assign
      have hsemicolon {rest : List Char} {word : List Terminal} :
          Writes (';' :: rest) (.symbol .semicolon :: word) ↔ Writes rest word :=
        writes_symbol .semicolon ';' rfl (by decide)
      have hread {rest : List Char} {word : List Terminal} :
          Writes (init.toText.toList ++ ';' :: rest) (init.flatten ++ word) ↔
            init.isLegible = true ∧ Writes (';' :: rest) word :=
        isRead init sinit hinit _ _ (.cons (by decide))
      rw [inside_counted, exists_flattensTo_iff hname part_space, flattenings]
      simp only [List.mem_map, exists_exists_and_eq_and, List.append_assoc, List.cons_append,
        List.nil_append, writes_identifier hname part_space, hassign, hread, hsemicolon,
        writes_optionalTest stest htest]
      rw [isLegible, Bool.and_eq_true, Bool.and_eq_true, ← writes_optionalStep supdate hupdate]
      constructor
      · rintro ⟨step, hstep, hstart, hbetween, hwrites⟩
        exact ⟨⟨hstart, hbetween⟩, step, hstep, hwrites⟩
      · rintro ⟨⟨hstart, hbetween⟩, step, hstep, hwrites⟩
        exact ⟨step, hstep, hstart, hbetween, hwrites⟩
  | forEach name mode collection =>
      obtain ⟨hname, hcollection⟩ := hspelled
      have hmode : Writes (' ' :: (mode.spelling.toList ++ ' ' :: collection.toText.toList))
          (mode.terminal :: collection.flatten) ↔
            Writes collection.toText.toList collection.flatten := by
        rw [writes_space]
        cases mode with
        | values => exact (writes_keyword .ofWord part_space).trans writes_space
        | keys => exact (writes_keyword .inWord part_space).trans writes_space
      rw [inside_forEach, exists_flattensTo_iff hname part_space, flattenings]
      simp only [List.mem_singleton, exists_eq_left, writes_identifier hname part_space, hmode,
        writes_whole hstratified hcollection, isLegible]

/-- A header is written in round brackets. -/
theorem LoopHeader.toList_toText (header : LoopHeader) :
    header.toText.toList = '(' :: (header.inside ++ [')']) := by
  cases header with
  | counted name init test update =>
      rw [inside_counted]
      simp [toText]
  | forEach name mode collection =>
      rw [inside_forEach]
      simp [toText]

namespace Expr

/-- What a text is parsed as is printed as a text that is parsed as the same exactly when it is
legible: no expression with the sign `-` or `+` follows that sign, no point follows an integer, no
number is infinite, and no string holds a character that is escaped by its number. -/
theorem printed_reads_back (text : List Char) :
    (∀ e, parse text = .ok e → (parse e.toText.toList = .ok e ↔ e.isLegible = true)) ∧
    ∀ header, parseHeader text = .ok header →
      header.toText.toList = '(' :: (header.inside ++ [')']) ∧
        (parseHeader header.inside = .ok header ↔ header.isLegible = true) := by
  constructor
  · intro e h
    obtain ⟨hstratified, hwrites⟩ := parse_iff_writes.mp h
    rw [parse_iff_writes, writes_whole hstratified hwrites.spelled]
    exact and_iff_right hstratified
  · intro header h
    obtain ⟨hstratified, word, hword, hwrites⟩ := parseHeader_iff_writes.mp h
    exact ⟨header.toList_toText, LoopHeader.parseHeader_inside hstratified
      (LoopHeader.spelled_of_flattensTo hword hwrites.spelled)⟩

/-- A sign in front of a group with that sign, a string with quotes of both kinds, and a header
whose step counts in front of its name. -/
theorem printed_reads_back_group :
    parse "- (-x) + 'it\\'s \"so\"'[0]".toList = .ok (.binary .add
      (.unary .minus (.group (.unary .minus (.identifier "x"))))
      (.index (.literal (.str "it's \"so\"")) (.literal (.number (.int 0))))) ∧
    parse "-(-x) + 'it\\'s \"so\"'[0]".toList = .ok (.binary .add
      (.unary .minus (.group (.unary .minus (.identifier "x"))))
      (.index (.literal (.str "it's \"so\"")) (.literal (.number (.int 0))))) ∧
    parseHeader "let i = 0; i < 3; ++i".toList = .ok (.counted "i" (.literal (.number (.int 0)))
      (some (.binary .less (.identifier "i") (.literal (.number (.int 3)))))
      (some ⟨"i", .increment⟩)) ∧
    parseHeader "i = 0; i < 3; i++".toList = .ok (.counted "i" (.literal (.number (.int 0)))
      (some (.binary .less (.identifier "i") (.literal (.number (.int 3)))))
      (some ⟨"i", .increment⟩)) := by
  have hparse : parse "- (-x) + 'it\\'s \"so\"'[0]".toList = .ok (.binary .add
      (.unary .minus (.group (.unary .minus (.identifier "x"))))
      (.index (.literal (.str "it's \"so\"")) (.literal (.number (.int 0))))) := by cbv
  have hheader : parseHeader "let i = 0; i < 3; ++i".toList =
      .ok (.counted "i" (.literal (.number (.int 0)))
        (some (.binary .less (.identifier "i") (.literal (.number (.int 3)))))
        (some ⟨"i", .increment⟩)) := by cbv
  have hprinted := ((printed_reads_back _).1 _ hparse).mpr (by cbv)
  have hinside := ((printed_reads_back _).2 _ hheader).2.mpr (by cbv)
  refine ⟨hparse, ?_, hheader, ?_⟩
  · have htext : (Expr.binary .add (.unary .minus (.group (.unary .minus (.identifier "x"))))
        (.index (.literal (.str "it's \"so\"")) (.literal (.number (.int 0))))).toText =
        "-(-x) + 'it\\'s \"so\"'[0]" := by cbv
    rwa [htext] at hprinted
  · have htext : (LoopHeader.counted "i" (.literal (.number (.int 0)))
        (some (.binary .less (.identifier "i") (.literal (.number (.int 3)))))
        (some ⟨"i", .increment⟩)).inside = "i = 0; i < 3; i++".toList := by cbv
    rwa [htext] at hinside

/-- A sign in front of the same sign is printed as one operator. -/
theorem not_printed_reads_back :
    ¬ ∀ (text : List Char) (e : Expr), parse text = .ok e → parse e.toText.toList = .ok e := by
  intro h
  have hparse : parse "- -x".toList = .ok (.unary .minus (.unary .minus (.identifier "x"))) := by
    cbv
  have hprinted := h _ _ hparse
  have htext : (Expr.unary .minus (.unary .minus (.identifier "x"))).toText = "--x" := by cbv
  have herror : parse "--x".toList = .error (.grammatical ⟨.unexpectedToken "--", 0⟩) := by cbv
  rw [htext, herror] at hprinted
  cases hprinted

end Expr

end Transclude
