import Mathlib
import Transclude.Expr.Printer
import Transclude.Proofs.QuotedText
import Transclude.Proofs.Spelling

/-! # Printed expressions

Printing adds no brackets, and it puts signs right in front of their operands and points
right behind theirs, so that two words may be read as one. The text of an expression is
read back as the expression unless two equal signs meet, a point meets an integer in
front of it, a number is infinite or a string holds a character that is escaped by its
number. -/

namespace Transclude

/-- Whether a literal is read back from its text. -/
def Scalar.isLegible : Scalar → Bool
  | .str content => content.toList.all Text.isLegible
  | .number (.float (.infinite _)) => false
  | .number (.float (.notANumber _)) => false
  | _ => true

/-- Whether a prefix operator, written twice, is another operator. -/
def UnaryOp.doubles : UnaryOp → Bool
  | .minus | .plus => true
  | .not | .typeOf => false

namespace Expr

/-- Whether an expression is the literal of an integer. -/
def isInteger : Expr → Bool
  | .literal (.number (.int _)) => true
  | _ => false

/-- Whether an expression begins with a given prefix operator. -/
def isPrefixed (op : UnaryOp) : Expr → Bool
  | .unary op' _ => op' = op
  | _ => false

mutual

/-- Whether the words of an expression stay apart in its text and are read as what they are written
for. -/
def isLegible : Expr → Bool
  | .literal value => value.isLegible
  | .array items => areLegible items
  | .identifier _ => true
  | .member object _ => !isInteger object && isLegible object
  | .index object key => isLegible object && isLegible key
  | .unary op operand => !(op.doubles && isPrefixed op operand) && isLegible operand
  | .binary _ left right => isLegible left && isLegible right
  | .conditional test consequent alternate =>
    isLegible test && isLegible consequent && isLegible alternate
  | .group inner => isLegible inner

/-- Whether all items of a list are legible. -/
def areLegible : List Expr → Bool
  | [] => true
  | item :: rest => isLegible item && areLegible rest

end

/-- Whether all terminals of an expression may come from a text. -/
def Spelled (e : Expr) : Prop := ∀ t ∈ e.flatten, t.Spelled

/-! ## Texts of the parts -/

section

variable (object key operand left right test consequent alternate inner : Expr)

@[simp] theorem toList_toText_array (items : List Expr) : (array items).toText.toList =
    '[' :: ((commaSeparated (itemTexts items)).toList ++ [']']) := by
  simp [toText]

@[simp] theorem toList_toText_member (name : String) : (member object name).toText.toList =
    object.toText.toList ++ '.' :: name.toList := by
  simp [toText]

@[simp] theorem toList_toText_index : (index object key).toText.toList =
    object.toText.toList ++ '[' :: (key.toText.toList ++ [']']) := by
  simp [toText]

@[simp] theorem toList_toText_unary (op : UnaryOp) : (unary op operand).toText.toList =
    op.spelling.toList ++ ((if op = .typeOf then [' '] else []) ++ operand.toText.toList) := by
  rw [toText, String.toList_append, String.toList_append, List.append_assoc]
  congr 2
  split <;> rfl

@[simp] theorem toList_toText_binary (op : BinaryOp) : (binary op left right).toText.toList =
    left.toText.toList ++ ' ' :: (op.spelling.toList ++ ' ' :: right.toText.toList) := by
  simp [toText]

@[simp] theorem toList_toText_conditional : (conditional test consequent alternate).toText.toList =
    test.toText.toList ++ ' ' :: '?' :: ' ' ::
      (consequent.toText.toList ++ ' ' :: ':' :: ' ' :: alternate.toText.toList) := by
  simp [toText]

@[simp] theorem toList_toText_group : (group inner).toText.toList =
    '(' :: (inner.toText.toList ++ [')']) := by
  simp [toText]

end

/-! ## What follows an expression -/

/-- Whether a text may stand behind that of an expression: it begins with a space, a bracket or a
separator, or with a point if the expression is an operand other than an integer. -/
structure Precedes (e : Expr) (rest : List Char) : Prop where
  mark : ∀ c ∈ rest.head?, c ∈ [' ', '[', ']', ')', ',', ';', '.']
  point : rest.head? = some '.' → rank e = 0 ∧ e.isInteger = false

namespace Precedes

variable {e : Expr} {rest : List Char}

theorem nil : Precedes e [] where
  mark := by simp
  point := by simp

theorem cons {c : Char} (h : c ∈ [' ', '[', ']', ')', ',', ';']) : Precedes e (c :: rest) where
  mark := by
    rintro _ ⟨⟩
    exact List.mem_append_left ['.'] h
  point hpoint := by
    cases hpoint
    exact absurd h (by decide)

theorem of_point (hrank : rank e = 0) (hinteger : e.isInteger = false) :
    Precedes e ('.' :: rest) where
  mark := by
    rintro _ ⟨⟩
    decide
  point _ := ⟨hrank, hinteger⟩

/-- What stands behind an expression that is no operand may stand behind any other. -/
theorem of_rank (h : Precedes e rest) (hrank : rank e ≠ 0) (e' : Expr) : Precedes e' rest where
  mark := h.mark
  point hpoint := absurd (h.point hpoint).1 hrank

theorem apart (h : Precedes e rest) : ∀ c ∈ rest.head?, Text.isIdentifierPart c = false ∧
    Text.isDecimalDigit c = false ∧ isOperatorSign c = false ∧ c ∉ ['e', 'E'] := by
  intro c hc
  have hmark := h.mark c hc
  simp only [List.mem_cons, List.not_mem_nil, or_false] at hmark
  rcases hmark with rfl | rfl | rfl | rfl | rfl | rfl | rfl <;> decide

theorem part (h : Precedes e rest) : ∀ c ∈ rest.head?, Text.isIdentifierPart c = false :=
  fun c hc => (h.apart c hc).1

theorem endsNumeral (h : Precedes e rest) : EndsNumeral rest :=
  fun c hc => ⟨(h.apart c hc).2.1, (h.apart c hc).2.2.2⟩

theorem endsNumber (h : Precedes e rest) (hinteger : e.isInteger = true) : EndsNumber rest := by
  intro c hc
  obtain ⟨-, hdigit, -, hmarks⟩ := h.apart c hc
  refine ⟨hdigit, fun hmem => ?_⟩
  obtain rfl | hmem := List.mem_cons.mp hmem
  · rw [(h.point hc).2] at hinteger
    cases hinteger
  · exact hmarks hmem

end Precedes

/-- The text of an expression in front of another text is written for the expression when it is
legible. -/
def IsRead (e : Expr) : Prop :=
  ∀ rest word, Precedes e rest →
    (Writes (e.toText.toList ++ rest) (e.flatten ++ word) ↔ e.isLegible = true ∧ Writes rest word)

variable {rest : List Char} {word : List Terminal}

/-! ## Words between operands -/

theorem writes_space : Writes (' ' :: rest) word ↔ Writes rest word :=
  writes_blank (by decide)

theorem part_space : ∀ c ∈ (' ' :: rest).head?, Text.isIdentifierPart c = false := by
  rintro _ ⟨⟩
  decide

theorem sign_space : ∀ c ∈ (' ' :: rest).head?, isOperatorSign c = false := by
  rintro _ ⟨⟩
  decide

theorem nameTerminal_keyword (keyword : Keyword) :
    nameTerminal keyword.spelling = .keyword keyword := by
  rw [nameTerminal, Keyword.ofWord?_spelling]

theorem writes_keyword (keyword : Keyword)
    (hrest : ∀ c ∈ rest.head?, Text.isIdentifierPart c = false) :
    Writes (keyword.spelling.toList ++ rest) (.keyword keyword :: word) ↔ Writes rest word := by
  rw [writes_name (isName_keyword keyword) hrest, nameTerminal_keyword]
  exact and_iff_right rfl

theorem exists_operator {op : BinaryOp} (h : op ≠ .isIn) :
    ∃ sign : Operator, .operator sign = op.terminal ∧ sign.spelling = op.spelling := by
  cases op with
  | isIn => exact absurd rfl h
  | _ => exact ⟨_, rfl, rfl⟩

theorem word_binary (op : BinaryOp) (rest : List Char) :
    ∃ lexeme, lexeme.terminal = op.terminal ∧ Word op.spelling.toList lexeme (' ' :: rest) := by
  by_cases hin : op = .isIn
  · subst hin
    exact ⟨.keyword .inWord, rfl, word_name (isName_keyword .inWord) part_space⟩
  · obtain ⟨sign, hterminal, hspelling⟩ := exists_operator hin
    rw [← hspelling]
    exact ⟨.operator sign, hterminal, word_operator sign sign_space⟩

theorem writes_binary (op : BinaryOp) :
    Writes (' ' :: (op.spelling.toList ++ ' ' :: rest)) (op.terminal :: word) ↔
      Writes rest word := by
  obtain ⟨lexeme, hterminal, hword⟩ := word_binary op rest
  rw [writes_space, hword.writes_iff, writes_space]
  exact and_iff_right hterminal

theorem writes_between (op : Operator) :
    Writes (' ' :: (op.spelling.toList ++ ' ' :: rest)) (.operator op :: word) ↔
      Writes rest word := by
  rw [writes_space, writes_operator op sign_space, writes_space]

/-! ## Literals -/

theorem isRead_text (content : String) : IsRead (.literal (.str content)) := by
  intro rest word _
  have htext : (Expr.literal (.str content)).toText.toList = Text.quoted content.toList :=
    String.toList_ofList
  have hsame : String.ofList (content.toList.flatMap Text.readAs) = content ↔
      (Expr.literal (.str content)).isLegible = true := by
    rw [isLegible, Scalar.isLegible, ← Text.flatMap_readAs_eq_iff, ← String.toList_inj,
      String.toList_ofList]
  rw [htext, ← hsame]
  refine (word_quoted content.toList rest).writes_iff.trans (and_congr_left fun _ => ?_)
  rw [Lexeme.terminal, Terminal.string.injEq]

theorem toList_toText_int {n : Int} (h : 0 ≤ n) :
    (Expr.literal (.number (.int n))).toText.toList = Nat.toDigits 10 n.natAbs := by
  change (toString n).toList = _
  rw [Json.toList_toString, if_neg (by omega), List.nil_append]

theorem isRead_int {n : Int} (h : 0 ≤ n) : IsRead (.literal (.number (.int n))) := by
  intro rest word hrest
  rw [toList_toText_int h]
  refine (word_digits n.natAbs (hrest.endsNumber rfl)).writes_iff.trans
    (and_congr_left fun _ => iff_of_true ?_ rfl)
  rw [Lexeme.terminal, numberOf_toDigits, Int.natAbs_of_nonneg h]

theorem isRead_float {x : Binary64} (h : x.IsUnsigned) :
    IsRead (.literal (.number (.float x))) := by
  intro rest word hrest
  have htext : (Expr.literal (.number (.float x))).toText.toList = x.toChars :=
    String.toList_ofList
  rw [htext]
  -- a number without digits is written as a name
  have hname {name : List Char} (h : Variable.IsName name) :
      ¬ Writes (name ++ rest) ((Expr.literal (.number (.float x))).flatten ++ word) := by
    intro hwrites
    have hterminal := ((word_name h hrest.part).writes_iff.mp hwrites).1
    rw [terminal_wordLexeme, nameTerminal] at hterminal
    split at hterminal <;> cases hterminal
  cases x with
  | finite negative significand exponent =>
      obtain ⟨rfl, hformat⟩ := h
      obtain ⟨digits, scale, hnumeral, heq⟩ := Binary64.isNumeral_toChars hformat
      refine (word_numeral hnumeral hrest.endsNumeral).writes_iff.trans
        (and_congr_left fun _ => iff_of_true ?_ rfl)
      rw [Lexeme.terminal, hnumeral.numberOf, heq]
  | infinite negative =>
      obtain rfl : negative = false := h
      exact iff_of_false (hname (by decide)) (fun hlegible => Bool.noConfusion hlegible.1)
  | notANumber origin =>
      exact iff_of_false (@hname ['n', 'a', 'n'] (by decide))
        (fun hlegible => Bool.noConfusion hlegible.1)

theorem isRead_keyword {value : Scalar} (keyword : Keyword)
    (htext : value.literalText = keyword.spelling)
    (hterminal : literalTerminal? value = some (.keyword keyword))
    (hlegible : value.isLegible = true) : IsRead (.literal value) := by
  intro rest word hrest
  rw [toText, flatten, htext, hterminal, isLegible, hlegible]
  exact (writes_keyword keyword hrest.part).trans (and_iff_right rfl).symm

/-- The literals of a text: a keyword, a string, or a number without a sign. -/
theorem literal_cases {value : Scalar} (hstratified : (Expr.literal value).Stratified)
    (hspelled : (Expr.literal value).Spelled) :
    (∃ keyword : Keyword, value.literalText = keyword.spelling ∧
        literalTerminal? value = some (.keyword keyword) ∧ value.isLegible = true) ∨
      (∃ content, value = .str content) ∨ (∃ n : Int, 0 ≤ n ∧ value = .number (.int n)) ∨
      ∃ x : Binary64, x.IsUnsigned ∧ value = .number (.float x) := by
  obtain ⟨lexeme, hlexeme⟩ := hstratified
  unfold literal? at hlexeme
  split at hlexeme
  next digits =>
    cases hlexeme
    have hnumber : (Terminal.number (numberOf digits)).Spelled := hspelled _ List.mem_cons_self
    cases hvalue : numberOf digits with
    | int n =>
        rw [hvalue] at hnumber
        exact .inr (.inr (.inl ⟨n, hnumber, rfl⟩))
    | float x =>
        rw [hvalue] at hnumber
        exact .inr (.inr (.inr ⟨x, hnumber, rfl⟩))
  next content =>
    cases hlexeme
    exact .inr (.inl ⟨content, rfl⟩)
  next =>
    cases hlexeme
    exact .inl ⟨.trueWord, rfl, rfl, rfl⟩
  next =>
    cases hlexeme
    exact .inl ⟨.falseWord, rfl, rfl, rfl⟩
  next =>
    cases hlexeme
    exact .inl ⟨.nullWord, rfl, rfl, rfl⟩
  next =>
    cases hlexeme
    exact .inl ⟨.undefinedWord, rfl, rfl, rfl⟩
  next => cases hlexeme

theorem isRead_literal {value : Scalar} (hstratified : (Expr.literal value).Stratified)
    (hspelled : (Expr.literal value).Spelled) : IsRead (.literal value) := by
  obtain ⟨keyword, htext, hterminal, hlegible⟩ | ⟨content, rfl⟩ | ⟨n, hn, rfl⟩ | ⟨x, hx, rfl⟩ :=
    literal_cases hstratified hspelled
  · exact isRead_keyword keyword htext hterminal hlegible
  · exact isRead_text content
  · exact isRead_int hn
  · exact isRead_float hx

/-! ## Operands -/

theorem isRead_identifier {name : String} (h : (Expr.identifier name).Spelled) :
    IsRead (.identifier name) := by
  intro rest word hrest
  obtain ⟨hname, hkeyword⟩ : (Terminal.identifier name).Spelled := h _ List.mem_cons_self
  rw [toText, flatten, List.singleton_append, writes_name hname hrest.part, nameTerminal, hkeyword,
    isLegible]
  exact and_congr_left fun _ => iff_of_true rfl rfl

theorem spelled_literal_int {n : Int} (h : (Expr.literal (.number (.int n))).Spelled) : 0 ≤ n :=
  h (.number (.int n)) List.mem_cons_self

/-- Digits in front of a point are read together with it. -/
theorem exists_number_of_point {digits : List Char} (h : Decimal.IsDigits digits)
    (rest : List Char) : ∃ word length,
      lexeme? (digits ++ '.' :: rest) = some (.number word, length) ∧ '.' ∈ word := by
  have hpositive := List.length_pos_iff.mpr h.nonempty
  have hleading : leadingDigits (digits ++ '.' :: rest) = digits.length :=
    leadingDigits_of_isDigits h (by rintro _ ⟨⟩; decide)
  have hdrop : (digits ++ '.' :: rest).drop (leadingDigits (digits ++ '.' :: rest)) =
      '.' :: rest := by
    rw [hleading, List.drop_left]
  have hmantissa : mantissaLength (digits ++ '.' :: rest) =
      digits.length + 1 + leadingDigits rest := by
    rw [mantissaLength_of_point hdrop, hleading, if_neg (by omega)]
  obtain ⟨k, hk⟩ : ∃ k, numberLength (digits ++ '.' :: rest) = digits.length + (k + 1) := by
    have hlonger : digits.length + 1 ≤ numberLength (digits ++ '.' :: rest) := by
      rw [numberLength_eq, hmantissa, if_neg (by omega)]
      omega
    exact ⟨numberLength (digits ++ '.' :: rest) - digits.length - 1, by omega⟩
  refine ⟨(digits ++ '.' :: rest).take (numberLength (digits ++ '.' :: rest)),
    numberLength (digits ++ '.' :: rest), ?_, ?_⟩
  · rw [lexeme?.eq_def]
    exact if_pos (by omega)
  · rw [hk, List.take_length_add_append, List.take_succ_cons]
    simp

theorem numberOf_of_point {digits : List Char} (h : '.' ∈ digits) (n : Int) :
    numberOf digits ≠ .int n := by
  rw [numberOf, if_pos (List.any_eq_true.mpr ⟨'.', h, by decide⟩)]
  simp

theorem not_writes_int_point {n : Int} (h : 0 ≤ n) (rest : List Char) :
    ¬ Writes ((Expr.literal (.number (.int n))).toText.toList ++ '.' :: rest)
      (.number (.int n) :: word) := by
  intro hwrites
  rw [toList_toText_int h] at hwrites
  obtain ⟨c, more, hfirst, hblank⟩ := (word_digits n.natAbs endsNumber_nil).nonblank
  obtain ⟨digits, count, hnumber, hpoint⟩ :=
    exists_number_of_point (Decimal.isDigits_toDigits n.natAbs) rest
  rw [hfirst, List.cons_append] at hwrites hnumber
  obtain ⟨lexeme, length, hlexeme, hterminal⟩ := hwrites.exists_lexeme? hblank
  rw [hnumber] at hlexeme
  cases hlexeme
  exact numberOf_of_point hpoint n (Terminal.number.inj hterminal)

theorem isRead_member {object : Expr} {name : String} (hrank : rank object = 0)
    (hspelled : (Expr.member object name).Spelled) (h : IsRead object) :
    IsRead (.member object name) := by
  intro rest word hrest
  obtain ⟨hobject, hback⟩ := List.forall_mem_append.mp hspelled
  have hname : Variable.IsName name.toList :=
    isName_of_spelled (hback (nameTerminal name) (by simp))
  rw [toList_toText_member, flatten, List.append_assoc, List.cons_append, List.append_assoc,
    isLegible]
  cases hinteger : object.isInteger with
  | true =>
      unfold isInteger at hinteger
      split at hinteger
      next n =>
        exact iff_of_false (not_writes_int_point (spelled_literal_int hobject) _) (by simp)
      next => cases hinteger
  | false =>
      have hpoint : Writes ('.' :: (name.toList ++ rest))
          (.symbol .dot :: nameTerminal name :: word) ↔ Writes rest word := by
        have hword := @writes_name rest word name hname hrest.part (nameTerminal name)
        obtain ⟨c, more, hfirst, hstart, _⟩ := hname
        rw [hfirst, List.cons_append] at hword ⊢
        rw [writes_point (isDecimalDigit_of_isIdentifierStart hstart), hword]
        exact and_iff_right rfl
      rw [h _ _ (.of_point hrank hinteger)]
      simp [hpoint]

theorem isRead_index {object key : Expr} (hobject : IsRead object) (hkey : IsRead key) :
    IsRead (.index object key) := by
  intro rest word hrest
  rw [toList_toText_index, flatten]
  simp only [List.append_assoc, List.cons_append, List.nil_append]
  rw [hobject _ _ (.cons (by decide)), writes_symbol .openBracket '[' rfl (by decide),
    hkey _ _ (.cons (by decide)), writes_symbol .closeBracket ']' rfl (by decide)]
  simp [isLegible, and_assoc]

theorem isOperatorSign_of_isIdentifierStart {c : Char} (h : Text.isIdentifierStart c = true) :
    isOperatorSign c = false := by
  have hall : (operatorSigns.all fun sign => !Text.isIdentifierStart sign) = true := by decide
  rw [Bool.eq_false_iff]
  intro hsign
  have hnot := List.all_eq_true.mp hall c (List.contains_iff_mem.mp hsign)
  rw [h] at hnot
  cases hnot

theorem head_name {name : List Char} (h : Variable.IsName name) :
    ∃ c, name.head? = some c ∧ isOperatorSign c = false := by
  obtain ⟨c, more, rfl, hstart, _⟩ := h
  exact ⟨c, rfl, isOperatorSign_of_isIdentifierStart hstart⟩

theorem head_literal {value : Scalar} (hstratified : (Expr.literal value).Stratified)
    (hspelled : (Expr.literal value).Spelled) :
    ∃ c, (Expr.literal value).toText.toList.head? = some c ∧ isOperatorSign c = false := by
  obtain ⟨keyword, htext, _⟩ | ⟨content, rfl⟩ | ⟨n, hn, rfl⟩ | ⟨x, hx, rfl⟩ :=
    literal_cases hstratified hspelled
  · rw [toText, htext]
    exact head_name (isName_keyword keyword)
  · change ∃ c, (String.ofList (Text.quoted content.toList)).toList.head? = some c ∧ _
    rw [String.toList_ofList]
    refine ⟨_, rfl, ?_⟩
    obtain hquote | hquote := Text.quoteFor_cases content.toList <;> rw [hquote] <;> decide
  · obtain ⟨c, more, hdigits, hc⟩ := Json.exists_digit_toDigits n.natAbs
    rw [toList_toText_int hn, hdigits]
    exact ⟨c, rfl, isOperatorSign_of_isDigit hc⟩
  · change ∃ c, (String.ofList x.toChars).toList.head? = some c ∧ _
    rw [String.toList_ofList]
    cases x with
    | finite negative significand exponent =>
        obtain ⟨rfl, hformat⟩ := hx
        obtain ⟨_, _, hnumeral, _⟩ := Binary64.isNumeral_toChars hformat
        obtain ⟨c, more, hfirst, hc⟩ := hnumeral.exists_cons
        rw [hfirst]
        exact ⟨c, rfl, isOperatorSign_of_isDigit hc⟩
    | infinite negative =>
        obtain rfl : negative = false := hx
        exact ⟨'i', rfl, by decide⟩
    | notANumber origin => exact ⟨'n', rfl, by decide⟩

/-- The text of an operand begins with no sign of an operator. -/
theorem head_operand {e : Expr} (hstratified : e.Stratified) (hspelled : e.Spelled)
    (hrank : rank e = 0) : ∃ c, e.toText.toList.head? = some c ∧ isOperatorSign c = false := by
  induction e using Expr.induction with
  | literal value => exact head_literal hstratified hspelled
  | array items => exact ⟨'[', by simp, by decide⟩
  | identifier name => exact head_name (hspelled (.identifier name) List.mem_cons_self).1
  | member object name ih =>
      obtain ⟨c, hfirst, hc⟩ :=
        ih hstratified.2 (List.forall_mem_append.mp hspelled).1 hstratified.1
      exact ⟨c, by simp [hfirst], hc⟩
  | index object key ih _ =>
      rw [Spelled, flatten, List.append_assoc] at hspelled
      obtain ⟨c, hfirst, hc⟩ :=
        ih hstratified.2.1 (List.forall_mem_append.mp hspelled).1 hstratified.1
      exact ⟨c, by simp [hfirst], hc⟩
  | unary op operand => cases hrank
  | binary op left right => exact absurd hrank (Nat.succ_ne_zero _)
  | conditional test consequent alternate => cases hrank
  | group inner => exact ⟨'(', by simp, by decide⟩

/-! ## Prefix operators -/

theorem exists_sign {op : UnaryOp} (h : op ≠ .typeOf) :
    ∃ sign : Operator, .operator sign = op.terminal ∧ sign.spelling = op.spelling := by
  cases op with
  | typeOf => exact absurd rfl h
  | _ => exact ⟨_, rfl, rfl⟩

/-- A sign is a word in front of another one that it makes no operator with. -/
theorem word_signs {op other : UnaryOp} (hop : op ≠ .typeOf) (hother : other ≠ .typeOf)
    (hapart : (op.doubles && other = op) = false) (rest : List Char) :
    ∃ sign : Operator, .operator sign = op.terminal ∧
      Word op.spelling.toList (.operator sign) (other.spelling.toList ++ rest) := by
  cases op with
  | typeOf => exact absurd rfl hop
  | not =>
      cases other with
      | typeOf => exact absurd rfl hother
      | _ => exact ⟨.not, rfl, ⟨_, _, rfl, by decide⟩, rfl⟩
  | minus =>
      cases other with
      | typeOf => exact absurd rfl hother
      | minus => cases hapart
      | _ => exact ⟨.minus, rfl, ⟨_, _, rfl, by decide⟩, rfl⟩
  | plus =>
      cases other with
      | typeOf => exact absurd rfl hother
      | plus => cases hapart
      | _ => exact ⟨.plus, rfl, ⟨_, _, rfl, by decide⟩, rfl⟩

theorem isLegible_unary (op : UnaryOp) (operand : Expr) : (unary op operand).isLegible =
    (!(op.doubles && operand.isPrefixed op) && operand.isLegible) := by
  rw [isLegible]

/-- Two equal signs are read as one operator. -/
theorem not_writes_doubled {op : UnaryOp} (h : op.doubles = true) (rest : List Char) :
    ¬ Writes (op.spelling.toList ++ (op.spelling.toList ++ rest)) (op.terminal :: word) := by
  have hdecrement : Word ['-', '-'] (.operator .decrement) rest := ⟨⟨_, _, rfl, by decide⟩, rfl⟩
  have hincrement : Word ['+', '+'] (.operator .increment) rest := ⟨⟨_, _, rfl, by decide⟩, rfl⟩
  intro hwrites
  cases op with
  | not | typeOf => cases h
  | minus => cases (hdecrement.writes_iff.mp hwrites).1
  | plus => cases (hincrement.writes_iff.mp hwrites).1

/-- What a sign may stand in front of. -/
theorem prefixed_cases {e : Expr} (hstratified : e.Stratified) (hspelled : e.Spelled)
    (hrank : rank e ≤ 1) :
    ((∃ c, e.toText.toList.head? = some c ∧ isOperatorSign c = false) ∧
        ∀ op ≠ .typeOf, e.isPrefixed op = false) ∨
      ∃ op inner, op ≠ .typeOf ∧ e = .unary op inner := by
  cases e with
  | unary op inner =>
      by_cases htype : op = .typeOf
      · subst htype
        exact .inl ⟨⟨'t', by simp [UnaryOp.spelling], by decide⟩,
          fun _ hother => decide_eq_false hother.symm⟩
      · exact .inr ⟨op, inner, htype, rfl⟩
  | binary op left right => exact absurd hrank (by have := op.level_pos; simp only [rank]; omega)
  | conditional test consequent alternate => exact absurd hrank (by simp [rank])
  | _ => exact .inl ⟨head_operand hstratified hspelled rfl, fun _ _ => rfl⟩

theorem isRead_typeOf {operand : Expr} (h : IsRead operand) :
    IsRead (.unary .typeOf operand) := by
  intro rest word hrest
  have hword := @writes_keyword (' ' :: (operand.toText.toList ++ rest)) (operand.flatten ++ word)
    .typeofWord part_space
  rw [writes_space, h _ _ (hrest.of_rank Nat.one_ne_zero operand)] at hword
  rw [toList_toText_unary, List.append_assoc, List.append_assoc, flatten, List.cons_append]
  exact hword

/-- A sign that stays apart from its operand. -/
theorem isRead_sign {op : UnaryOp} {operand : Expr} (hop : op ≠ .typeOf)
    (hapart : (op.doubles && operand.isPrefixed op) = false)
    (hword : ∀ rest, ∃ sign : Operator, .operator sign = op.terminal ∧
      Word op.spelling.toList (.operator sign) (operand.toText.toList ++ rest))
    (h : IsRead operand) : IsRead (.unary op operand) := by
  intro rest word hrest
  obtain ⟨sign, hterminal, hword⟩ := hword rest
  rw [toList_toText_unary, if_neg hop, List.nil_append, List.append_assoc, flatten,
    List.cons_append, hword.writes_iff, h _ _ (hrest.of_rank Nat.one_ne_zero operand),
    isLegible_unary op, hapart]
  exact and_iff_right hterminal

theorem isRead_unary {op : UnaryOp} {operand : Expr}
    (hstratified : (Expr.unary op operand).Stratified)
    (hspelled : (Expr.unary op operand).Spelled) (h : IsRead operand) :
    IsRead (.unary op operand) := by
  by_cases htype : op = .typeOf
  · subst htype
    exact isRead_typeOf h
  obtain ⟨⟨c, hfirst, hc⟩, hplain⟩ | ⟨other, inner, hother, rfl⟩ :=
    prefixed_cases hstratified.2 (List.forall_mem_cons.mp hspelled).2 hstratified.1
  · refine isRead_sign htype (by rw [hplain op htype, Bool.and_false]) (fun rest => ?_) h
    obtain ⟨sign, hterminal, hspelling⟩ := exists_sign htype
    rw [← hspelling]
    refine ⟨sign, hterminal, word_operator sign fun d hd => ?_⟩
    rw [List.head?_append, hfirst] at hd
    cases hd
    exact hc
  · cases hdoubled : op.doubles && isPrefixed op (.unary other inner) with
    | false =>
        refine isRead_sign htype hdoubled (fun rest => ?_) h
        rw [toList_toText_unary, List.append_assoc]
        exact word_signs htype hother hdoubled _
    | true =>
        intro rest word _
        rw [isLegible_unary op, hdoubled, toList_toText_unary, toList_toText_unary, if_neg hother]
        rw [isPrefixed, Bool.and_eq_true, decide_eq_true_eq] at hdoubled
        obtain ⟨hdoubles, rfl⟩ := hdoubled
        rw [if_neg hother, List.nil_append, List.nil_append, List.append_assoc, List.append_assoc]
        exact iff_of_false (not_writes_doubled hdoubles _) (by simp)

/-! ## Operators between operands -/

theorem isRead_binary (op : BinaryOp) {left right : Expr} (hleft : IsRead left)
    (hright : IsRead right) : IsRead (.binary op left right) := by
  intro rest word hrest
  rw [toList_toText_binary, flatten]
  simp only [List.append_assoc, List.cons_append]
  rw [hleft _ _ (.cons (by decide)), writes_binary,
    hright _ _ (hrest.of_rank (Nat.succ_ne_zero _) right), isLegible]
  simp [and_assoc]

theorem isRead_conditional {test consequent alternate : Expr} (htest : IsRead test)
    (hconsequent : IsRead consequent) (halternate : IsRead alternate) :
    IsRead (.conditional test consequent alternate) := by
  intro rest word hrest
  have hquestion {rest : List Char} {word : List Terminal} :
      Writes (' ' :: '?' :: ' ' :: rest) (.operator .question :: word) ↔ Writes rest word :=
    writes_between .question
  have hcolon {rest : List Char} {word : List Terminal} :
      Writes (' ' :: ':' :: ' ' :: rest) (.operator .colon :: word) ↔ Writes rest word :=
    writes_between .colon
  rw [toList_toText_conditional, flatten]
  simp only [List.append_assoc, List.cons_append]
  rw [htest _ _ (.cons (by decide)), hquestion, hconsequent _ _ (.cons (by decide)), hcolon,
    halternate _ _ (hrest.of_rank (Nat.succ_ne_zero 7) alternate), isLegible]
  simp [and_assoc]

/-! ## Lists and groups -/

theorem isRead_group {inner : Expr} (h : IsRead inner) : IsRead (.group inner) := by
  intro rest word _
  rw [toList_toText_group, flatten]
  simp only [List.append_assoc, List.cons_append, List.nil_append]
  rw [writes_symbol .openParen '(' rfl (by decide), h _ _ (.cons (by decide)),
    writes_symbol .closeParen ')' rfl (by decide), isLegible]

theorem writes_items {items : List Expr} (h : ∀ item ∈ items, IsRead item) :
    Writes ((commaSeparated (itemTexts items)).toList ++ ']' :: rest)
        (flattenItems items ++ .symbol .closeBracket :: word) ↔
      areLegible items = true ∧ Writes rest word := by
  induction items with
  | nil =>
      rw [areLegible]
      exact (writes_symbol .closeBracket ']' rfl (by decide)).trans (and_iff_right rfl).symm
  | cons item others ih =>
      obtain ⟨hitem, hothers⟩ := List.forall_mem_cons.mp h
      cases others with
      | nil =>
          have htext : (commaSeparated (itemTexts [item])).toList = item.toText.toList := by
            simp [commaSeparated, itemTexts]
          rw [htext, flattenItems, hitem _ _ (.cons (by decide)),
            writes_symbol .closeBracket ']' rfl (by decide), areLegible, areLegible, Bool.and_true]
      | cons next others =>
          have htext : (commaSeparated (itemTexts (item :: next :: others))).toList =
              item.toText.toList ++
                ',' :: ' ' :: (commaSeparated (itemTexts (next :: others))).toList := by
            simp [commaSeparated, itemTexts, String.toList_intercalate]
          rw [htext, flattenItems_cons _ (List.cons_ne_nil _ _), areLegible]
          simp only [List.append_assoc, List.cons_append]
          rw [hitem _ _ (.cons (by decide)), writes_symbol .comma ',' rfl (by decide), writes_space,
            ih hothers]
          simp [and_assoc]

theorem isRead_array {items : List Expr} (h : ∀ item ∈ items, IsRead item) :
    IsRead (.array items) := by
  intro rest word _
  rw [toList_toText_array, flatten]
  simp only [List.append_assoc, List.cons_append, List.nil_append]
  rw [writes_symbol .openBracket '[' rfl (by decide), writes_items h, isLegible]


/-! ## Whole expressions -/

theorem mem_flattenItems {items : List Expr} {item : Expr} (hitem : item ∈ items) {t : Terminal}
    (ht : t ∈ item.flatten) : t ∈ flattenItems items := by
  induction items with
  | nil => cases hitem
  | cons first others ih =>
      cases others with
      | nil =>
          obtain rfl := List.mem_singleton.mp hitem
          exact ht
      | cons second others =>
          rw [flattenItems_cons _ (List.cons_ne_nil _ _), List.mem_append, List.mem_cons]
          obtain rfl | hitem := List.mem_cons.mp hitem
          · exact .inl ht
          · exact .inr (.inr (ih hitem))

/-- In front of whatever may stand behind it, the text of an expression is read back when the
expression is legible. -/
theorem isRead (e : Expr) (hstratified : e.Stratified) (hspelled : e.Spelled) : IsRead e := by
  induction e using Expr.induction with
  | literal value => exact isRead_literal hstratified hspelled
  | array items ih =>
      refine isRead_array fun item hitem => ih item hitem ?_ fun t ht => hspelled t ?_
      · exact stratifiedItems_iff.mp hstratified item hitem
      · rw [flatten, List.cons_append, List.mem_cons, List.mem_append]
        exact .inr (.inl (mem_flattenItems hitem ht))
  | identifier name => exact isRead_identifier hspelled
  | member object name ih =>
      have hobject := (List.forall_mem_append.mp hspelled).1
      exact isRead_member hstratified.1 hspelled (ih hstratified.2 hobject)
  | index object key ihobject ihkey =>
      obtain ⟨-, hobject, hkey⟩ := hstratified
      simp only [Spelled, flatten, List.forall_mem_append, List.forall_mem_cons] at hspelled
      exact isRead_index (ihobject hobject hspelled.1.1) (ihkey hkey hspelled.1.2.2)
  | unary op operand ih =>
      have hoperand := (List.forall_mem_cons.mp hspelled).2
      exact isRead_unary hstratified hspelled (ih hstratified.2 hoperand)
  | binary op left right ihleft ihright =>
      obtain ⟨-, -, hleft, hright⟩ := hstratified
      obtain ⟨hfront, hback⟩ := List.forall_mem_append.mp hspelled
      have hafter := (List.forall_mem_cons.mp hback).2
      exact isRead_binary op (ihleft hleft hfront) (ihright hright hafter)
  | conditional test consequent alternate ihtest ihconsequent ihalternate =>
      obtain ⟨-, htest, hconsequent, halternate⟩ := hstratified
      simp only [Spelled, flatten, List.forall_mem_append, List.forall_mem_cons] at hspelled
      obtain ⟨⟨hfront, -, hmiddle⟩, -, hback⟩ := hspelled
      exact isRead_conditional (ihtest htest hfront) (ihconsequent hconsequent hmiddle)
        (ihalternate halternate hback)
  | group inner ih =>
      simp only [Spelled, flatten, List.forall_mem_append, List.forall_mem_cons] at hspelled
      exact isRead_group (ih hstratified hspelled.1.2)

end Expr

end Transclude
