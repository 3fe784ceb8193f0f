import Mathlib
import Transclude.Expr.Condition
import Transclude.Proofs.Identities
import Transclude.Proofs.Replacement
import Transclude.Proofs.Words

/-! # Dotted names as variables and as expressions

Names joined by points are a variable between delimiters, and an expression alone. As
an expression they are a name with property accesses behind it. Both ways of reading
them come to one value: they only part where a property of `null` or of `undefined` is
asked for, which the expression refuses, and where the first name is absent. -/

namespace Transclude

namespace Expr

open Variable

/-! ## Names as an expression -/

/-- The properties under some names, read one behind the other. -/
def accesses (object : Expr) (names : List String) : Expr := names.foldl member object

/-- What the lexer makes of names behind points. -/
def pointedLexemes (names : List (List Char)) : List Lexeme :=
  names.flatMap fun name => [.symbol .dot, wordLexeme name]

theorem terminal_wordLexeme (name : List Char) :
    (wordLexeme name).terminal = nameTerminal (String.ofList name) := by
  unfold wordLexeme nameTerminal Keyword.ofWord?
  dsimp only
  cases Keyword.all.find? fun keyword => keyword.spelling == String.ofList name <;> rfl

theorem wordLexeme_of_not_keyword {name : List Char}
    (h : Keyword.ofWord? (String.ofList name) = none) :
    wordLexeme name = .identifier (String.ofList name) := by
  unfold Keyword.ofWord? at h
  rw [wordLexeme, h]

/-- A point is a word of its own unless it begins a number. -/
theorem word_point {c : Char} (hdigit : Text.isDecimalDigit c = false) (rest : List Char) :
    Word ['.'] (.symbol .dot) (c :: rest) := by
  have hfraction : leadingDigits (c :: rest) = 0 := by
    rw [leadingDigits, List.takeWhile_cons_of_neg (by rw [hdigit]; exact Bool.false_ne_true)]
    rfl
  have hnumber : numberLength ('.' :: c :: rest) = 0 := by
    have hwhole : leadingDigits ('.' :: c :: rest) = 0 := rfl
    unfold numberLength
    simp only [hwhole, List.drop_zero, hfraction]
    rfl
  refine ⟨⟨'.', [], rfl, by decide⟩, ?_⟩
  rw [List.singleton_append, lexeme?, hnumber]
  rfl

theorem spells_pointed {names : List (List Char)} (h : ∀ name ∈ names, IsName name) :
    Spells (pointed names) (pointedLexemes names) := by
  induction names with
  | nil => exact .nil
  | cons name rest ih =>
      obtain ⟨hname, hrest⟩ := List.forall_mem_cons.mp h
      have hword : Spells (name ++ pointed rest) (wordLexeme name :: pointedLexemes rest) :=
        .word (word_name hname (head_pointed rest)) (ih hrest)
      obtain ⟨c, more, rfl, hstart, _⟩ := hname
      rw [pointed_cons]
      exact .word (word_point (isDecimalDigit_of_isIdentifierStart hstart) _) hword

theorem spells_dotted {first : List Char} {others : List (List Char)} (hfirst : IsName first)
    (hothers : ∀ name ∈ others, IsName name) :
    Spells (dotted (first :: others)) (wordLexeme first :: pointedLexemes others) := by
  rw [dotted_cons]
  exact .word (word_name hfirst (head_pointed others)) (spells_pointed hothers)

theorem flatten_accesses (object : Expr) (names : List String) :
    (accesses object names).flatten =
      object.flatten ++ names.flatMap fun name => [.symbol .dot, nameTerminal name] := by
  induction names generalizing object with
  | nil => exact (List.append_nil _).symm
  | cons name rest ih =>
      rw [accesses, List.foldl_cons, ← accesses, ih, flatten, List.append_assoc, List.flatMap_cons]

theorem stratified_accesses {object : Expr} (hrank : rank object = 0) (hobject : object.Stratified)
    (names : List String) : (accesses object names).Stratified := by
  induction names generalizing object with
  | nil => exact hobject
  | cons name rest ih => exact ih rfl ⟨hrank, hobject⟩

/-- A text with the words of an expression is that expression. -/
theorem Spells.parse {text : List Char} {lexemes : List Lexeme} {e : Expr}
    (h : Spells text lexemes) (hstratified : e.Stratified)
    (hflatten : lexemes.map Lexeme.terminal = e.flatten) : Expr.parse text = .ok e := by
  obtain ⟨tokens, htokens, rfl⟩ := h.exists_tokensFrom 0
  have htokenize : tokenize text = .ok ⟨tokens, text.length⟩ := by
    rw [tokenize, htokens]
    rfl
  rw [map_lexeme_terminal] at hflatten
  exact (parse_eq_ok htokenize).mpr (readWhole_of_flatten hstratified hflatten)

/-- Dotted names whose first is no keyword are that name with property accesses. -/
theorem parse_dotted {first : List Char} {others : List (List Char)} (hfirst : IsName first)
    (hothers : ∀ name ∈ others, IsName name)
    (hword : Keyword.ofWord? (String.ofList first) = none) :
    parse (dotted (first :: others)) =
      .ok (accesses (.identifier (String.ofList first)) (others.map String.ofList)) := by
  have hstratified : (Expr.identifier (String.ofList first)).Stratified := trivial
  refine (spells_dotted hfirst hothers).parse (stratified_accesses rfl hstratified _) ?_
  rw [flatten_accesses, List.map_cons, wordLexeme_of_not_keyword hword, pointedLexemes,
    List.map_flatMap, List.flatMap_map]
  simp only [List.map_cons, List.map_nil, terminal_wordLexeme]
  rfl

/-! ## Its value -/

/-- Reads the properties under some names one behind the other. -/
def readNames (names : List String) (object : Located) : Evaluation Located :=
  names.foldlM (fun object name => readProperty object (.str name)) object

theorem eval_accesses (scope : Scope) (names : List String) (object : Expr) (path : List Nat) :
    ∃ place, eval scope path (accesses object names) =
      (eval scope place object >>= readNames names) := by
  induction names generalizing object with
  | nil => exact ⟨path, (bind_pure _).symm⟩
  | cons name rest ih =>
      obtain ⟨place, hplace⟩ := ih (.member object name)
      refine ⟨0 :: place, hplace.trans ?_⟩
      rw [eval, bind_assoc]
      rfl

/-- The text of dotted names is evaluated name by name. -/
theorem evalText_dotted {first : List Char} {others : List (List Char)} (hfirst : IsName first)
    (hothers : ∀ name ∈ others, IsName name)
    (hword : Keyword.ofWord? (String.ofList first) = none) (scope : Scope) :
    evalText (dotted (first :: others)) scope =
      (readName scope (String.ofList first) >>=
        readNames (others.map String.ofList)).mapError (Halt.map .eval) := by
  obtain ⟨place, hplace⟩ :=
    eval_accesses scope (others.map String.ofList) (.identifier (String.ofList first)) []
  rw [evalText, parse_dotted hfirst hothers hword]
  dsimp only
  rw [hplace, eval]

end Expr

/-- A value of data as expressions see it. -/
def Value.located (value : Datum) : Located := value.mapIdentity fun mark => .data mark.place

theorem Value.named_located {name : List Char} (h : Variable.IsName name) (value : Datum) :
    value.located.named (String.ofList name) = (value.named (String.ofList name)).located := by
  have hproperty := getProperty_mapIdentity (fun mark : Mark => Origin.data mark.place) value
    (.str (String.ofList name))
  rw [mapIdentity, getProperty_name h, getProperty_name h] at hproperty
  exact Except.ok.inj hproperty

namespace Expr

open Variable Value

theorem exists_readProperty_of_isNullish {object : Located} (h : object.isNullish = true)
    (name : String) : ∃ shown,
      readProperty object (.str name) = .error (.error (.noProperties shown name)) := by
  cases object with
  | scalar s =>
      cases s with
      | null => exact ⟨"null", rfl⟩
      | undefined => exact ⟨"undefined", rfl⟩
      | _ => cases h
  | _ => cases h

theorem readProperty_name {object : Located} (h : object.isNullish = false) {name : List Char}
    (hname : IsName name) :
    readProperty object (.str (String.ofList name)) = .ok (object.named (String.ofList name)) := by
  rw [readProperty, if_neg (by rw [h]; exact Bool.false_ne_true), getProperty_name hname]
  rfl

theorem named_of_isNullish {ι : Type} {value : Value ι} (h : value.isNullish = true)
    (name : String) : value.named name = .undefined := by
  cases value with
  | scalar s =>
      cases s with
      | null | undefined => rfl
      | _ => cases h
  | _ => cases h

/-- Reading properties comes to what following the names comes to, or it meets `null` or
`undefined`, behind which there is nothing. -/
theorem readNames_cases {names : List (List Char)} (h : ∀ name ∈ names, IsName name)
    (value : Datum) :
    readNames (names.map String.ofList) value.located =
        .ok ((names.map String.ofList).foldl named value).located ∨
      (∃ object property, readNames (names.map String.ofList) value.located =
          .error (.error (.noProperties object property))) ∧
        (names.map String.ofList).foldl named value = .undefined := by
  induction names generalizing value with
  | nil => exact Or.inl rfl
  | cons name rest ih =>
      obtain ⟨hname, hrest⟩ := List.forall_mem_cons.mp h
      simp only [List.map_cons, List.foldl_cons, readNames, List.foldlM_cons]
      have hnullish : value.located.isNullish = value.isNullish := isNullish_mapIdentity _ _
      cases hvalue : value.isNullish with
      | true =>
          obtain ⟨shown, hshown⟩ :=
            exists_readProperty_of_isNullish (hnullish.trans hvalue) (String.ofList name)
          refine Or.inr ⟨⟨shown, _, by rw [hshown]; rfl⟩, ?_⟩
          rw [named_of_isNullish hvalue, foldl_named_undefined]
      | false =>
          rw [readProperty_name (hnullish.trans hvalue) hname, ok_bind, named_located hname]
          exact ih hrest _

end Expr

namespace Variable

open Value

variable {delimiters : Delimiters} {data : Data} {first : List Char} {others : List (List Char)}

/-! ## Both readings -/

/-- A variable turns into a text, alone and wherever it is one of the parts of a text. -/
structure TurnsInto (delimiters : Delimiters) (data : Data) (names : List (List Char))
    (shown : List Char) : Prop where
  alone : (replace delimiters data (source delimiters names)).outcome = .ok shown
  within : ∀ text front back,
    fragments delimiters text =
      front ++ .variable (dotted names) (source delimiters names) :: back →
    (replace delimiters data text).outcome = do
      return (← (expandAll data front).outcome) ++ shown ++ (← (expandAll data back).outcome)

theorem fragments_source_single {names : List (List Char)} (hnames : IsPath names) :
    fragments delimiters (source delimiters names) =
      [.variable (dotted names) (source delimiters names)] := by
  have hlongest : ∀ other, Begins delimiters (source delimiters names ++ []) other →
      (dotted other).length ≤ (dotted names).length := by
    rintro other ⟨_, hother⟩
    have hle := hother.length_le
    simp only [source, List.length_append, List.append_nil] at hle
    omega
  have hfragments := fragments_source_append hnames hlongest
  rwa [List.append_nil, fragments] at hfragments

theorem turnsInto_of_outcome {names : List (List Char)} {result : Outcome} (hnames : IsPath names)
    (h : outcome data (dotted names) = .ok result) :
    TurnsInto delimiters data names (result.text (source delimiters names)) := by
  have hexpand := outcome_expand_variable h (source delimiters names)
  constructor
  case alone =>
    rw [replace, fragments_source_single hnames, outcome_expandAll_cons, hexpand]
    exact congrArg Except.ok (List.append_nil _)
  case within =>
    intro text front back hfragments
    rw [replace, hfragments, expandAll_append]
    simp only [Run.outcome_bind, Run.outcome_pure, outcome_expandAll_cons, hexpand, ok_bind]
    cases (expandAll data front).outcome with
    | error reason => rfl
    | ok before =>
        cases (expandAll data back).outcome with
        | error reason => rfl
        | ok after => exact congrArg Except.ok (List.append_assoc before _ after).symm

/-- The value of dotted names as an expression over data. -/
def valueOf (data : Data) (names : List (List Char)) : Except (Halt Expr.Error) Located :=
  Expr.evalText (dotted names) (Scope.ofData data)

/-- What dotted names are as an expression, and what they turn into as a variable. -/
structure ReadAlike (delimiters : Delimiters) (data : Data) (first : List Char)
    (others : List (List Char)) : Prop where
  /-- The expression has a value, or asks `null` or `undefined` for a property, or its first name is
  not defined. -/
  results : (∃ value, valueOf data (first :: others) = .ok value) ∨
    (∃ object property, valueOf data (first :: others) =
      .error (.error (.eval (.noProperties object property)))) ∨
    ∃ name, valueOf data (first :: others) = .error (.error (.eval (.notDefined name)))
  /-- A value is that of the path, and stands in the place of the variable unless it is a list or a
  mapping. -/
  value : ∀ value, valueOf data (first :: others) = .ok value → value ≠ .undefined →
    ∃ found, (root data).lookupPath ((first :: others).map String.ofList) = .ok found ∧
      found.located = value ∧
      (value.IsCollection →
        TurnsInto delimiters data (first :: others) (source delimiters (first :: others))) ∧
      (¬ value.IsCollection → ∃ text, value.toText = .ok text ∧
        TurnsInto delimiters data (first :: others) text.toList)
  /-- Nothing stands for what is undefined or asked of nothing. -/
  nothing : (valueOf data (first :: others) = .ok .undefined ∨
      ∃ object property, valueOf data (first :: others) =
        .error (.error (.eval (.noProperties object property)))) →
    TurnsInto delimiters data (first :: others) []
  /-- The name that is not defined is the first one, when the data are without it. -/
  notDefined : ∀ name,
    valueOf data (first :: others) = .error (.error (.eval (.notDefined name))) ↔
      name = String.ofList first ∧ ¬ Known data (first :: others)
  /-- Then the variable stays. -/
  kept : ¬ Known data (first :: others) →
    TurnsInto delimiters data (first :: others) (source delimiters (first :: others))

theorem known_iff : Known data (first :: others) ↔
    Entries.get? data (.str (String.ofList first)) ≠ none := by
  rw [Known, List.head?_cons, ← Option.isSome_iff_ne_none, ← Entries.hasKey_eq_isSome]
  simp

section

variable (hfirst : IsName first) (hothers : ∀ name ∈ others, IsName name)
  (hword : Expr.Keyword.ofWord? (String.ofList first) = none)

include hfirst hothers hword

theorem valueOf_of_absent (habsent : Entries.get? data (.str (String.ofList first)) = none) :
    valueOf data (first :: others) =
      .error (.error (.eval (.notDefined (String.ofList first)))) := by
  have hname : Expr.readName (Scope.ofData data) (String.ofList first) =
      .error (.error (.notDefined (String.ofList first))) := by
    rw [Expr.readName, Scope.get?_ofData, habsent, Option.map_none]
  rw [valueOf, Expr.evalText_dotted hfirst hothers hword, hname]
  rfl

theorem valueOf_of_present {value : Datum}
    (hpresent : Entries.get? data (.str (String.ofList first)) = some value) :
    valueOf data (first :: others) =
      (Expr.readNames (others.map String.ofList) value.located).mapError (Halt.map .eval) := by
  have hname : Expr.readName (Scope.ofData data) (String.ofList first) = .ok value.located := by
    rw [Expr.readName, Scope.get?_ofData, hpresent, Option.map_some]
    rfl
  rw [valueOf, Expr.evalText_dotted hfirst hothers hword, hname, ok_bind]

end

section

variable (hfirst : IsName first) (hothers : ∀ name ∈ others, IsName name) {value : Datum}
  (hpresent : Entries.get? data (.str (String.ofList first)) = some value)

include hfirst hothers hpresent

theorem lookupPath_of_present :
    (root data).lookupPath ((first :: others).map String.ofList) =
      .ok ((others.map String.ofList).foldl named value) := by
  have hnames : ∀ name ∈ first :: others, IsName name :=
    List.forall_mem_cons.mpr ⟨hfirst, hothers⟩
  rw [lookupPath_names hnames, List.map_cons, List.foldl_cons, root, named, hpresent,
    Option.getD_some]

theorem outcome_of_present :
    outcome data (dotted (first :: others)) =
      .ok (ofValue ((others.map String.ofList).foldl named value)) := by
  have hnames : ∀ name ∈ first :: others, IsName name :=
    List.forall_mem_cons.mpr ⟨hfirst, hothers⟩
  rw [outcome_dotted hnames (List.cons_ne_nil _ _), ofNames, List.map_cons]
  dsimp only
  rw [hpresent]

end

theorem located_eq_undefined_iff {value : Datum} :
    value.located = .undefined ↔ value = .undefined := by
  cases value with
  | scalar s => simp [located, mapIdentity]
  | _ => simp [located, mapIdentity]

theorem isCollection_located {value : Datum} : value.located.IsCollection ↔ value.IsCollection := by
  cases value <;> exact Iff.rfl

theorem readAlike_of_absent (hfirst : IsName first) (hothers : ∀ name ∈ others, IsName name)
    (hword : Expr.Keyword.ofWord? (String.ofList first) = none)
    (habsent : Entries.get? data (.str (String.ofList first)) = none) :
    ReadAlike delimiters data first others := by
  have hvalue : valueOf data (first :: others) = _ :=
    valueOf_of_absent hfirst hothers hword habsent
  have hunknown : ¬ Known data (first :: others) := fun h => known_iff.mp h habsent
  have hpath := isPath_of_isName (List.forall_mem_cons.mpr ⟨hfirst, hothers⟩) (List.cons_ne_nil _ _)
  constructor
  case results => exact Or.inr (Or.inr ⟨_, hvalue⟩)
  case value =>
    intro value h
    rw [hvalue] at h
    cases h
  case nothing =>
    rintro (h | ⟨object, property, h⟩) <;> rw [hvalue] at h <;> cases h
  case notDefined =>
    intro name
    rw [hvalue]
    constructor
    · intro h
      cases h
      exact ⟨rfl, hunknown⟩
    · rintro ⟨rfl, _⟩
      rfl
  case kept => exact fun _ => turnsInto_of_outcome hpath (outcome_of_not_known hpath hunknown)

theorem readAlike_of_present (hfirst : IsName first) (hothers : ∀ name ∈ others, IsName name)
    (hword : Expr.Keyword.ofWord? (String.ofList first) = none) {value : Datum}
    (hpresent : Entries.get? data (.str (String.ofList first)) = some value) :
    ReadAlike delimiters data first others := by
  have hvalue : valueOf data (first :: others) = _ :=
    valueOf_of_present hfirst hothers hword hpresent
  have hlookup := lookupPath_of_present hfirst hothers hpresent
  have hpath := isPath_of_isName (List.forall_mem_cons.mpr ⟨hfirst, hothers⟩) (List.cons_ne_nil _ _)
  have hoccurs : TurnsInto delimiters data (first :: others) _ :=
    turnsInto_of_outcome hpath (outcome_of_present hfirst hothers hpresent)
  have hknown : Known data (first :: others) := known_iff.mpr (by rw [hpresent]; exact nofun)
  have hread := Expr.readNames_cases hothers value
  generalize (others.map String.ofList).foldl named value = found at hlookup hoccurs hread
  obtain hread | ⟨⟨object, property, hread⟩, rfl⟩ := hread
  · rw [hread] at hvalue
    constructor
    case results => exact Or.inl ⟨_, hvalue⟩
    case value =>
      intro other h hdefined
      rw [hvalue] at h
      cases h
      refine ⟨found, hlookup, rfl, ?_, ?_⟩ <;> rw [isCollection_located]
      · intro hcollection
        rwa [ofValue_of_isCollection hcollection] at hoccurs
      · intro hsingle
        obtain ⟨text, htext⟩ := exists_toText hsingle
        refine ⟨text, (toText_mapIdentity _ found).trans htext, ?_⟩
        rwa [ofValue_of_not_isCollection hsingle (mt located_eq_undefined_iff.mpr hdefined) htext]
          at hoccurs
    case nothing =>
      rintro (h | ⟨object, property, h⟩)
      · rw [hvalue] at h
        obtain rfl := located_eq_undefined_iff.mp (Except.ok.inj h)
        exact hoccurs
      · rw [hvalue] at h
        cases h
    case notDefined =>
      intro name
      rw [hvalue]
      exact ⟨nofun, fun h => (h.2 hknown).elim⟩
    case kept => exact fun h => (h hknown).elim
  · rw [hread] at hvalue
    constructor
    case results => exact Or.inr (Or.inl ⟨object, property, hvalue⟩)
    case value =>
      intro other h
      rw [hvalue] at h
      cases h
    case nothing => exact fun _ => hoccurs
    case notDefined =>
      intro name
      rw [hvalue]
      exact ⟨nofun, fun h => (h.2 hknown).elim⟩
    case kept => exact fun h => (h hknown).elim

/-- Dotted names whose first is no keyword are read alike as an expression and as a variable: the
variable shows the value of the expression, or stays where that is a list or a mapping; it becomes
empty where the expression is undefined or asks nothing for a property; and it stays where the
expression fails because its first name is not defined. -/
theorem names_read_alike (delimiters : Delimiters) (data : Data) {first : List Char}
    {others : List (List Char)} (hfirst : IsName first) (hothers : ∀ name ∈ others, IsName name)
    (hword : Expr.Keyword.ofWord? (String.ofList first) = none) :
    ReadAlike delimiters data first others := by
  cases hget : Entries.get? data (.str (String.ofList first)) with
  | none => exact readAlike_of_absent hfirst hothers hword hget
  | some value => exact readAlike_of_present hfirst hothers hword hget

/-- The length of a list is read alike. -/
theorem names_read_alike_length :
    let data : Data :=
      [(.str "user", .map (.ofPlace []) [(.str "tags", .list (.ofPlace [1]) [.null])])]
    (IsName "user".toList ∧ (∀ name ∈ ["tags".toList, "length".toList], IsName name) ∧
      Expr.Keyword.ofWord? (String.ofList "user".toList) = none) ∧
      valueOf data ["user".toList, "tags".toList, "length".toList] = .ok (.number (.int 1)) ∧
      TurnsInto .standard data ["user".toList, "tags".toList, "length".toList] "1".toList := by
  intro data
  have huser : IsName "user".toList := by decide
  have htags : IsName "tags".toList := by decide
  have hlength : IsName "length".toList := by decide
  have hothers : ∀ name ∈ ["tags".toList, "length".toList], IsName name :=
    List.forall_mem_cons.mpr ⟨htags, List.forall_mem_singleton.mpr hlength⟩
  have hvalue : valueOf data ["user".toList, "tags".toList, "length".toList] =
      .ok (.number (.int 1)) := by cbv
  have hdefined : (Value.number (.int 1) : Located) ≠ .undefined := by
    intro h
    cases h
  obtain ⟨_, _, _, _, hsingle⟩ :=
    (names_read_alike .standard data huser hothers (by decide)).value _ hvalue hdefined
  obtain ⟨text, htext, hturns⟩ := hsingle id
  cases htext
  exact ⟨⟨huser, hothers, by decide⟩, hvalue, hturns⟩

end Variable

end Transclude
