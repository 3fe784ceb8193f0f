import Mathlib
import Transclude.Proofs.JsonText
import Transclude.Proofs.Parsing
import Transclude.Proofs.Substitution

/-! # Words of expressions

A text is split where its words end: a word is the next token when no longer one
stands there. What is written with names, numbers, operators and symbols has the
tokens that it is written with. -/

namespace Transclude.Expr

/-- A word in front of a rest is the next token. -/
structure Word (word : List Char) (lexeme : Lexeme) (rest : List Char) : Prop where
  nonblank : ∃ c more, word = c :: more ∧ Text.isBlank c = false
  next : lexeme? (word ++ rest) = some (lexeme, word.length)

/-- A text is made of words with blanks between them. -/
inductive Spells : List Char → List Lexeme → Prop
  | nil : Spells [] []
  | blank {c : Char} {rest : List Char} {lexemes : List Lexeme} (hblank : Text.isBlank c = true)
    (hrest : Spells rest lexemes) : Spells (c :: rest) lexemes
  | word {word rest : List Char} {lexeme : Lexeme} {lexemes : List Lexeme}
    (hword : Word word lexeme rest) (hrest : Spells rest lexemes) :
    Spells (word ++ rest) (lexeme :: lexemes)

/-- The tokens of a text are the words that it is made of. -/
theorem Spells.exists_tokensFrom {text : List Char} {lexemes : List Lexeme}
    (h : Spells text lexemes) (position : Nat) :
    ∃ tokens, tokensFrom position text = .ok tokens ∧ tokens.map Token.lexeme = lexemes := by
  induction h generalizing position with
  | nil => exact ⟨[], by rw [tokensFrom], rfl⟩
  | blank hblank _ ih =>
      obtain ⟨tokens, htokens, hlexemes⟩ := ih (position + 1)
      exact ⟨tokens, by rw [tokensFrom, if_pos hblank, htokens], hlexemes⟩
  | word hword _ ih =>
      rename_i rest lexeme lexemes hrest
      obtain ⟨c, more, rfl, hblank⟩ := hword.nonblank
      obtain ⟨tokens, htokens, hlexemes⟩ := ih (position + more.length + 1)
      refine ⟨⟨lexeme, position⟩ :: tokens, ?_, congrArg (lexeme :: ·) hlexemes⟩
      have hnext := hword.next
      rw [List.cons_append] at hnext ⊢
      rw [tokensFrom, if_neg (by simp [hblank]), hnext]
      simp only [List.length_cons, Nat.add_sub_cancel, List.drop_left, htokens]
      rfl

theorem Spells.space {rest : List Char} {lexemes : List Lexeme} (h : Spells rest lexemes) :
    Spells (' ' :: rest) lexemes :=
  .blank (by decide) h

/-- A text with the words of a loop header is that header. -/
theorem Spells.parseHeader {text : List Char} {lexemes : List Lexeme} {header : LoopHeader}
    (h : Spells text lexemes) (hstratified : header.Stratified)
    (hflattens : header.FlattensTo (lexemes.map Lexeme.terminal)) :
    Expr.parseHeader text = .ok header := by
  obtain ⟨tokens, htokens, rfl⟩ := h.exists_tokensFrom 0
  have htokenize : tokenize text = .ok ⟨tokens, text.length⟩ := by
    rw [tokenize, htokens]
    rfl
  rw [map_lexeme_terminal] at hflattens
  exact (parseHeader_eq_ok htokenize).mpr (readHeader_of_flattensTo hstratified hflattens)

/-! ## Names -/

theorem ne_of_isIdentifierStart {c d : Char} (h : Text.isIdentifierStart c = true)
    (hd : Text.isIdentifierStart d = false) : c ≠ d := by
  rintro rfl
  rw [h] at hd
  cases hd

/-- A character that begins a name is an ASCII letter or one of two signs. -/
theorem toNat_of_isIdentifierStart {c : Char} (h : Text.isIdentifierStart c = true) :
    c.toNat = 36 ∨ 65 ≤ c.toNat ∧ c.toNat ≤ 90 ∨ c.toNat = 95 ∨ 97 ≤ c.toNat ∧ c.toNat ≤ 122 := by
  simp only [Text.isIdentifierStart, Bool.or_eq_true, beq_iff_eq] at h
  rcases h with (h | rfl) | rfl
  · simp only [Char.isAlpha, Char.isUpper, Char.isLower, Bool.or_eq_true, Bool.and_eq_true,
      decide_eq_true_eq, ge_iff_le, UInt32.le_iff_toNat_le] at h
    have hvalue : c.toNat = c.val.toNat := rfl
    simp at h
    omega
  · decide
  · decide

theorem isBlank_of_isIdentifierStart {c : Char} (h : Text.isIdentifierStart c = true) :
    Text.isBlank c = false := by
  have hrange := toNat_of_isIdentifierStart h
  simp only [Text.isBlank, Text.Ranges.contains, Text.blankRanges, List.any_cons, List.any_nil,
    Bool.or_false, Bool.or_eq_false_iff, Bool.and_eq_false_iff, decide_eq_false_iff_not]
  omega

theorem toNat_of_isDigit {c : Char} (h : c.isDigit = true) : 48 ≤ c.toNat ∧ c.toNat ≤ 57 := by
  simp only [Char.isDigit, Bool.and_eq_true, decide_eq_true_eq, ge_iff_le,
    UInt32.le_iff_toNat_le] at h
  exact h

theorem isDecimalDigit_of_isIdentifierStart {c : Char} (h : Text.isIdentifierStart c = true) :
    Text.isDecimalDigit c = false := by
  have hrange := toNat_of_isIdentifierStart h
  have hdigit : c.isDigit = false := by
    rw [Bool.eq_false_iff]
    intro hdigit
    have hdigits := toNat_of_isDigit hdigit
    omega
  rw [Text.isDecimalDigit, Text.decimalValue?, if_neg (by simp [hdigit]), if_pos (by omega)]
  rfl

/-- No number begins with what is neither a digit nor a point. -/
theorem numberLength_of_head {c : Char} (hdigit : Text.isDecimalDigit c = false) (hpoint : c ≠ '.')
    (rest : List Char) : numberLength (c :: rest) = 0 := by
  have hleading : leadingDigits (c :: rest) = 0 := by
    rw [leadingDigits, List.takeWhile_cons_of_neg (by simp [hdigit])]
    rfl
  unfold numberLength
  simp only [hleading, List.drop_zero]
  split
  next heq => exact absurd (List.cons.inj heq).1 hpoint
  next => rfl

/-- The first character of an operator. -/
theorem Operator.spelling_eq_cons (op : Operator) :
    ∃ c more, op.spelling.toList = c :: more ∧ Text.isIdentifierStart c = false ∧
      Text.isDecimalDigit c = false ∧ Text.isBlank c = false ∧ c ∉ ['.', '\'', '"'] := by
  cases op <;> exact ⟨_, _, rfl, by decide, by decide, by decide, by decide⟩

theorem Operator.find?_eq_none {c : Char} (h : Text.isIdentifierStart c = true)
    (rest : List Char) :
    (Operator.all.find? fun op => op.spelling.toList.isPrefixOf (c :: rest)) = none := by
  refine List.find?_eq_none.mpr fun op _ hprefix => ?_
  obtain ⟨d, more, hspelling, hd, _⟩ := op.spelling_eq_cons
  rw [hspelling, List.isPrefixOf_cons_cons, Bool.and_eq_true, beq_iff_eq] at hprefix
  exact ne_of_isIdentifierStart h hd hprefix.1.symm

theorem Symbol.find?_eq_none {c : Char} (h : Text.isIdentifierStart c = true) :
    (Symbol.all.find? fun symbol => symbol.char == c) = none := by
  refine List.find?_eq_none.mpr fun symbol _ hsymbol => ?_
  have hchar : Text.isIdentifierStart symbol.char = false := by cases symbol <;> decide
  exact ne_of_isIdentifierStart h hchar (beq_iff_eq.mp hsymbol).symm

/-- A name is a word as far as it goes. -/
theorem word_name {name rest : List Char} (hname : Variable.IsName name)
    (hrest : ∀ c ∈ rest.head?, Text.isIdentifierPart c = false) :
    Word name (wordLexeme name) rest := by
  obtain ⟨c, more, rfl, hstart, hmore⟩ := hname
  refine ⟨⟨c, more, rfl, isBlank_of_isIdentifierStart hstart⟩, ?_⟩
  have hquote : (c == '\'' || c == '"') = false := by
    simp [ne_of_isIdentifierStart hstart (show Text.isIdentifierStart '\'' = false by decide),
      ne_of_isIdentifierStart hstart (show Text.isIdentifierStart '"' = false by decide)]
  have hpoint := ne_of_isIdentifierStart hstart (show Text.isIdentifierStart '.' = false by decide)
  rw [List.cons_append, lexeme?,
    numberLength_of_head (isDecimalDigit_of_isIdentifierStart hstart) hpoint]
  simp only [ne_eq, not_true_eq_false, if_false, hquote, Bool.false_eq_true,
    Operator.find?_eq_none hstart, Symbol.find?_eq_none hstart, hstart, if_true,
    Variable.takeWhile_name hmore hrest]

/-! ## Operators and symbols -/

/-- The characters that operators are made of. -/
def operatorSigns : List Char := ['=', '!', '<', '>', '&', '|', '+', '-', '*', '/', '%', '?', ':']

/-- Whether a character may stand in an operator. -/
def isOperatorSign (c : Char) : Bool := operatorSigns.contains c

theorem Operator.isOperatorSign_of_mem (op : Operator) :
    ∀ c ∈ op.spelling.toList, isOperatorSign c = true := by
  have hall : (op.spelling.toList.all isOperatorSign) = true := by cases op <;> decide
  exact List.all_eq_true.mp hall

/-- Behind an operator, what is no sign of one begins no longer operator. -/
theorem isPrefixOf_append_of_signs {word front rest : List Char}
    (hword : ∀ c ∈ word, isOperatorSign c = true)
    (hrest : ∀ c ∈ rest.head?, isOperatorSign c = false) :
    word.isPrefixOf (front ++ rest) = word.isPrefixOf front := by
  rw [Bool.eq_iff_iff, List.isPrefixOf_iff_prefix, List.isPrefixOf_iff_prefix]
  refine ⟨fun h => ?_, fun h => h.trans (List.prefix_append front rest)⟩
  obtain hshort | ⟨more, rfl⟩ :=
    List.prefix_or_prefix_of_prefix h (List.prefix_append front rest)
  · exact hshort
  · obtain _ | ⟨c, more⟩ := more
    · rw [List.append_nil]
    · obtain ⟨others, rfl⟩ := (List.prefix_append_right_inj front).mp h
      have hsign := hword c (by simp)
      rw [hrest c rfl] at hsign
      cases hsign

/-- An operator is a word unless a sign of another one follows. -/
theorem word_operator (op : Operator) {rest : List Char}
    (hrest : ∀ c ∈ rest.head?, isOperatorSign c = false) :
    Word op.spelling.toList (.operator op) rest := by
  obtain ⟨c, more, hspelling, _, hdigit, hblank, hmarks⟩ := op.spelling_eq_cons
  simp only [List.mem_cons, List.not_mem_nil, or_false, not_or] at hmarks
  refine ⟨⟨c, more, hspelling, hblank⟩, ?_⟩
  have hquote : (c == '\'' || c == '"') = false := by simp [hmarks.2]
  have hfind : (Operator.all.find? fun other =>
      other.spelling.toList.isPrefixOf (op.spelling.toList ++ rest)) = some op := by
    simp only [isPrefixOf_append_of_signs (Operator.isOperatorSign_of_mem _) hrest]
    cases op <;> decide
  rw [hspelling, List.cons_append] at hfind ⊢
  rw [lexeme?, numberLength_of_head hdigit hmarks.1]
  simp only [ne_eq, not_true_eq_false, if_false, hquote, Bool.false_eq_true, hfind]
  rw [← hspelling, String.length_toList]

/-- An operator between spaces. -/
theorem Spells.operator (op : Operator) {rest : List Char} {lexemes : List Lexeme}
    (h : Spells rest lexemes) :
    Spells (' ' :: (op.spelling.toList ++ ' ' :: rest)) (.operator op :: lexemes) :=
  .space (.word (word_operator op (by rintro c ⟨⟩; decide)) h.space)

/-- Brackets and separators are words, apart from a point, which a digit may follow. -/
theorem word_symbol {symbol : Symbol} (hdot : symbol ≠ .dot) (rest : List Char) :
    Word [symbol.char] (.symbol symbol) rest := by
  cases symbol with
  | dot => exact absurd rfl hdot
  | _ => exact ⟨⟨_, _, rfl, by decide⟩, rfl⟩

theorem Spells.symbol {symbol : Symbol} (hdot : symbol ≠ .dot) {rest : List Char}
    {lexemes : List Lexeme} (h : Spells rest lexemes) :
    Spells (symbol.char :: rest) (.symbol symbol :: lexemes) :=
  .word (word_symbol hdot rest) h

/-! ## Numbers -/

/-- What does not go on with a number. -/
def EndsNumber (rest : List Char) : Prop :=
  ∀ c ∈ rest.head?, Text.isDecimalDigit c = false ∧ c ∉ ['.', 'e', 'E']

theorem isOperatorSign_of_isDigit {c : Char} (h : c.isDigit = true) :
    isOperatorSign c = false := by
  have hall : (operatorSigns.all fun sign => !sign.isDigit) = true := by decide
  rw [Bool.eq_false_iff]
  intro hsign
  have hnot := List.all_eq_true.mp hall c (List.contains_iff_mem.mp hsign)
  rw [h] at hnot
  cases hnot

theorem isDecimalDigit_of_isDigit {c : Char} (h : c.isDigit = true) :
    Text.isDecimalDigit c = true := by
  rw [Text.isDecimalDigit, Text.decimalValue?, if_pos h]
  rfl

theorem exponentLength_of_no_mark {rest : List Char} (h : ∀ c ∈ rest.head?, c ∉ ['e', 'E']) :
    exponentLength rest = 0 := by
  cases rest with
  | nil => rfl
  | cons c rest =>
      have hmarks := h c rfl
      simp only [List.mem_cons, List.not_mem_nil, or_false, not_or] at hmarks
      unfold exponentLength
      simp [hmarks]

theorem endsNumber_nil : EndsNumber [] := nofun

theorem leadingDigits_digits {digits rest : List Char}
    (hdigits : ∀ c ∈ digits, Text.isDecimalDigit c = true)
    (hrest : ∀ c ∈ rest.head?, Text.isDecimalDigit c = false) :
    leadingDigits (digits ++ rest) = digits.length := by
  rw [leadingDigits, List.takeWhile_append_of_pos hdigits]
  cases rest with
  | nil => simp
  | cons c rest => rw [List.takeWhile_cons_of_neg (by simp [hrest c rfl]), List.append_nil]

/-- Digits are a number as far as they go. -/
theorem numberLength_digits {digits rest : List Char} (hne : digits ≠ [])
    (hdigits : ∀ c ∈ digits, Text.isDecimalDigit c = true) (hrest : EndsNumber rest) :
    numberLength (digits ++ rest) = digits.length := by
  have hleading := leadingDigits_digits hdigits fun c hc => (hrest c hc).1
  have hmark : ∀ c ∈ rest.head?, c ∉ ['e', 'E'] := fun c hc =>
    List.not_mem_of_not_mem_cons (hrest c hc).2
  unfold numberLength
  simp only [hleading, List.drop_left]
  have hpositive := List.length_pos_iff.mpr hne
  split
  next heq => exact absurd (by simp) (hrest '.' rfl).2
  next =>
    rw [List.drop_left, exponentLength_of_no_mark hmark, if_neg (by omega), Nat.add_zero]

theorem word_digits (n : Nat) {rest : List Char} (hrest : EndsNumber rest) :
    Word (Nat.toDigits 10 n) (.number (Nat.toDigits 10 n)) rest := by
  obtain ⟨c, more, hdigits, hc⟩ := Json.exists_digit_toDigits n
  have hall : ∀ c ∈ Nat.toDigits 10 n, Text.isDecimalDigit c = true := fun c hc =>
    isDecimalDigit_of_isDigit (Nat.isDigit_of_mem_toDigits (by decide) (by decide) hc)
  refine ⟨⟨c, more, hdigits, ?_⟩, ?_⟩
  · have hrange := toNat_of_isDigit hc
    simp only [Text.isBlank, Text.Ranges.contains, Text.blankRanges, List.any_cons, List.any_nil,
      Bool.or_false, Bool.or_eq_false_iff, Bool.and_eq_false_iff, decide_eq_false_iff_not]
    omega
  · have hpositive := List.length_pos_iff.mpr (@Nat.toDigits_ne_nil n 10)
    rw [lexeme?.eq_def, numberLength_digits Nat.toDigits_ne_nil hall hrest]
    dsimp only
    rw [if_pos (by omega), List.take_left]

theorem numberOf_toDigits (n : Nat) : numberOf (Nat.toDigits 10 n) = .int n := by
  have hplain : ((Nat.toDigits 10 n).any fun c => c == '.' || c == 'e' || c == 'E') = false := by
    rw [List.any_eq_false]
    intro c hc
    have hdigit : c.isDigit = true := Nat.isDigit_of_mem_toDigits (by decide) (by decide) hc
    have hne {mark : Char} (hmark : mark.isDigit = false) : c ≠ mark := by
      rintro rfl
      rw [hdigit] at hmark
      cases hmark
    simp [hne (show Char.isDigit '.' = false by decide),
      hne (show Char.isDigit 'e' = false by decide),
      hne (show Char.isDigit 'E' = false by decide)]
  rw [numberOf, hplain, Json.decimalNumber?_toDigits]
  rfl

/-- The expression that writes an integer: a negative one is written with a sign. -/
def ofInt : Int → Expr
  | .ofNat n => .literal (.number (.int n))
  | .negSucc n => .unary .minus (.literal (.number (.int (n + 1 : Nat))))

/-- The lexemes of an integer. -/
def intLexemes : Int → List Lexeme
  | .ofNat n => [.number (Nat.toDigits 10 n)]
  | .negSucc n => [.operator .minus, .number (Nat.toDigits 10 (n + 1))]

theorem stratified_ofInt (n : Int) : (ofInt n).Stratified := by
  have hliteral (m : Nat) : (Expr.literal (.number (.int m))).Stratified :=
    ⟨.number (Nat.toDigits 10 m), by rw [literal?, numberOf_toDigits]⟩
  cases n with
  | ofNat m => exact hliteral m
  | negSucc m => exact ⟨Nat.zero_le 1, hliteral (m + 1)⟩

theorem flatten_ofInt (n : Int) : (ofInt n).flatten = (intLexemes n).map Lexeme.terminal := by
  cases n <;>
    simp [ofInt, intLexemes, flatten, literalTerminal?, numberOf_toDigits, UnaryOp.terminal]

theorem rank_ofInt (n : Int) : rank (ofInt n) ≤ 1 := by
  cases n <;> simp [ofInt, rank]

theorem eval_ofInt (scope : Scope) (path : List Nat) (n : Int) :
    eval scope path (ofInt n) = .ok (.number (.int n)) := by
  cases n <;> rfl

theorem spells_int (n : Int) {rest : List Char} {lexemes : List Lexeme} (hends : EndsNumber rest)
    (hrest : Spells rest lexemes) :
    Spells ((toString n).toList ++ rest) (intLexemes n ++ lexemes) := by
  cases n with
  | ofNat n =>
      rw [Int.toString_eq_repr, Int.repr, Nat.repr_eq_ofList_toDigits, String.toList_ofList]
      exact .word (word_digits n hends) hrest
  | negSucc n =>
      have htext : (toString (Int.negSucc n)).toList = '-' :: Nat.toDigits 10 (n + 1) := by
        rw [Int.toString_eq_repr, Int.repr, Nat.repr_eq_ofList_toDigits, String.toList_append]
        exact congrArg ('-' :: ·) String.toList_ofList
      have hsign : Word ['-'] (.operator .minus) (Nat.toDigits 10 (n + 1) ++ rest) := by
        refine word_operator .minus ?_
        obtain ⟨c, more, hdigits, hc⟩ := Json.exists_digit_toDigits (n + 1)
        rw [hdigits]
        rintro d ⟨⟩
        exact isOperatorSign_of_isDigit hc
      rw [htext]
      change Spells (['-'] ++ (Nat.toDigits 10 (n + 1) ++ rest)) _
      exact .word hsign (.word (word_digits (n + 1) hends) hrest)

/-- Integers between commas are the items of a list. -/
theorem spells_integers (values : List Int) {rest : List Char} {lexemes : List Lexeme}
    (hends : EndsNumber rest) (hrest : Spells rest lexemes) :
    ∃ items, Spells ([',', ' '].intercalate (values.map fun n => (toString n).toList) ++ rest)
        (items ++ lexemes) ∧
      items.map Lexeme.terminal = flattenItems (values.map ofInt) := by
  induction values with
  | nil => exact ⟨[], hrest, rfl⟩
  | cons first others ih =>
      cases others with
      | nil =>
          refine ⟨intLexemes first, ?_, (flatten_ofInt first).symm⟩
          rw [List.map_singleton, List.intercalate_singleton]
          exact spells_int first hends hrest
      | cons second others =>
          obtain ⟨items, hspells, hitems⟩ := ih
          refine ⟨intLexemes first ++ .symbol .comma :: items, ?_, ?_⟩
          · have hcomma : Spells (',' :: ' ' :: ([',', ' '].intercalate
                ((second :: others).map fun n => (toString n).toList) ++ rest))
                (.symbol .comma :: (items ++ lexemes)) :=
              @Spells.symbol .comma nofun _ _ hspells.space
            have hpart : EndsNumber (',' :: ' ' :: ([',', ' '].intercalate
                ((second :: others).map fun n => (toString n).toList) ++ rest)) := by
              rintro c ⟨⟩
              decide
            have hspells := spells_int first hpart hcomma
            simpa [List.intercalate_cons_cons] using hspells
          · rw [List.map_cons, flattenItems_cons _ (by simp), List.map_append, List.map_cons,
              hitems, flatten_ofInt]
            rfl

end Transclude.Expr
