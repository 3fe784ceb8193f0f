import Mathlib
import Transclude.Proofs.DottedNames
import Transclude.Proofs.FloatText
import Transclude.Proofs.Slicing

/-! # Texts and the terminals that they are written for

Where a text begins with a word, it is written for the terminal of that word and for
whatever the rest is written for. A text is parsed as a tree when it is written for
the terminals of that tree, so that the question what a text is parsed as is
answered word by word. -/

namespace Transclude.Expr

open Variable

variable {rest text : List Char} {lexeme : Lexeme} {lexemes : List Lexeme} {word : List Terminal}

/-- A text is made of words that stand for some terminals. -/
def Writes (text : List Char) (word : List Terminal) : Prop :=
  ∃ lexemes, Spells text lexemes ∧ lexemes.map Lexeme.terminal = word

/-! ## Words at the beginning -/

theorem Spells.of_blank {c : Char} (hblank : Text.isBlank c = true)
    (h : Spells (c :: rest) lexemes) : Spells rest lexemes := by
  generalize htext : c :: rest = text at h
  cases h with
  | nil => cases htext
  | blank _ hrest =>
      cases htext
      exact hrest
  | word hword hrest =>
      obtain ⟨d, more, rfl, hd⟩ := hword.nonblank
      obtain ⟨rfl, _⟩ := List.cons.inj htext
      rw [hblank] at hd
      cases hd

/-- There is one way only to take a word off a text. -/
theorem Spells.of_word {front : List Char} (hword : Word front lexeme rest)
    (h : Spells (front ++ rest) lexemes) :
    ∃ following, lexemes = lexeme :: following ∧ Spells rest following := by
  obtain ⟨c, more, hfront, hc⟩ := hword.nonblank
  generalize htext : front ++ rest = text at h
  cases h with
  | nil => simp [hfront] at htext
  | blank hblank hrest =>
      rw [hfront, List.cons_append] at htext
      obtain ⟨rfl, _⟩ := List.cons.inj htext
      rw [hc] at hblank
      cases hblank
  | word hother hrest =>
      have hsame := hword.next
      rw [htext, hother.next] at hsame
      obtain ⟨rfl, hlength⟩ := Prod.mk.inj (Option.some.inj hsame)
      obtain ⟨rfl, rfl⟩ := List.append_inj htext hlength.symm
      exact ⟨_, rfl, hrest⟩

theorem writes_nil : Writes [] word ↔ word = [] := by
  constructor
  · rintro ⟨lexemes, h, rfl⟩
    generalize htext : ([] : List Char) = text at h
    cases h with
    | nil => rfl
    | blank => cases htext
    | word hword =>
        obtain ⟨c, more, rfl, _⟩ := hword.nonblank
        cases htext
  · rintro rfl
    exact ⟨[], .nil, rfl⟩

theorem writes_blank {c : Char} (hblank : Text.isBlank c = true) :
    Writes (c :: rest) word ↔ Writes rest word :=
  exists_congr fun _ => and_congr_left fun _ => ⟨.of_blank hblank, .blank hblank⟩

theorem Word.writes_iff {front : List Char} (hword : Word front lexeme rest) {t : Terminal} :
    Writes (front ++ rest) (t :: word) ↔ lexeme.terminal = t ∧ Writes rest word := by
  constructor
  · rintro ⟨lexemes, h, hterminals⟩
    obtain ⟨following, rfl, hrest⟩ := h.of_word hword
    obtain ⟨hfirst, hfollowing⟩ := List.cons.inj hterminals
    exact ⟨hfirst, following, hrest, hfollowing⟩
  · rintro ⟨rfl, following, hrest, rfl⟩
    exact ⟨_, .word hword hrest, rfl⟩

/-- What stands at the beginning of a text that is not blank is the word for the first terminal. -/
theorem Writes.exists_lexeme? {c : Char} (hblank : Text.isBlank c = false) {t : Terminal}
    (h : Writes (c :: rest) (t :: word)) :
    ∃ lexeme length, lexeme? (c :: rest) = some (lexeme, length) ∧ lexeme.terminal = t := by
  obtain ⟨lexemes, h, hterminals⟩ := h
  generalize htext : c :: rest = text at h ⊢
  cases h with
  | nil => cases htext
  | blank hblank' =>
      cases htext
      rw [hblank] at hblank'
      cases hblank'
  | word hword => exact ⟨_, _, hword.next, (List.cons.inj hterminals).1⟩

theorem writes_symbol (symbol : Symbol) (c : Char) (hchar : symbol.char = c)
    (hdot : symbol ≠ .dot) : Writes (c :: rest) (.symbol symbol :: word) ↔ Writes rest word := by
  subst hchar
  exact (word_symbol hdot rest).writes_iff.trans (and_iff_right rfl)

theorem writes_point {c : Char} (hdigit : Text.isDecimalDigit c = false) :
    Writes ('.' :: c :: rest) (.symbol .dot :: word) ↔ Writes (c :: rest) word :=
  (word_point hdigit rest).writes_iff.trans (and_iff_right rfl)

theorem writes_operator (op : Operator) (hrest : ∀ c ∈ rest.head?, isOperatorSign c = false) :
    Writes (op.spelling.toList ++ rest) (.operator op :: word) ↔ Writes rest word :=
  (word_operator op hrest).writes_iff.trans (and_iff_right rfl)

theorem writes_name {name : String} (hname : IsName name.toList)
    (hrest : ∀ c ∈ rest.head?, Text.isIdentifierPart c = false) {t : Terminal} :
    Writes (name.toList ++ rest) (t :: word) ↔ nameTerminal name = t ∧ Writes rest word := by
  rw [(word_name hname hrest).writes_iff, terminal_wordLexeme, String.ofList_toList]

/-! ## Whole texts -/

theorem spells_of_tokensFrom {position : Nat} {tokens : List Token}
    (h : tokensFrom position text = .ok tokens) : Spells text (tokens.map Token.lexeme) := by
  fun_induction tokensFrom position text generalizing tokens with
  | case1 =>
      cases h
      exact .nil
  | case2 position c rest hblank ih => exact .blank hblank (ih h)
  | case3 position c rest hblank lexeme length hlexeme ih =>
      obtain ⟨following, hfollowing, h⟩ := bind_eq_ok.mp h
      cases h
      have hpos := length_pos_of_lexeme? hlexeme
      obtain ⟨k, rfl⟩ : ∃ k, length = k + 1 := ⟨length - 1, by omega⟩
      rw [Nat.add_sub_cancel] at ih hfollowing
      have hle := length_le_of_lexeme? hlexeme
      rw [List.length_cons] at hle
      have hword : Word (c :: rest.take k) lexeme (rest.drop k) := by
        refine ⟨⟨c, _, rfl, by simpa using hblank⟩, ?_⟩
        rw [List.cons_append, List.take_append_drop, List.length_cons, List.length_take,
          Nat.min_eq_left (by omega)]
        exact hlexeme
      have hspells := Spells.word hword (ih hfollowing)
      rwa [List.cons_append, List.take_append_drop] at hspells
  | case4 => cases h

/-- A text is written for the terminals of its tokens. -/
theorem writes_iff_tokenize :
    Writes text word ↔ ∃ tokens, tokenize text = .ok tokens ∧ terminals tokens.items = word := by
  constructor
  · rintro ⟨lexemes, h, rfl⟩
    obtain ⟨tokens, htokens, rfl⟩ := h.exists_tokensFrom 0
    refine ⟨⟨tokens, text.length⟩, ?_, (map_lexeme_terminal tokens).symm⟩
    rw [tokenize, htokens]
    rfl
  · rintro ⟨tokens, htokens, rfl⟩
    obtain ⟨items, hitems, h⟩ := bind_eq_ok.mp htokens
    cases h
    exact ⟨_, spells_of_tokensFrom hitems, map_lexeme_terminal items⟩

theorem exists_tokenize_of_ok {α : Type} {empty : SyntaxProblem}
    {read : Tokens → Except ParseError α} {a : α}
    (h : tokensOf empty text >>= read = .ok a) : ∃ tokens, tokenize text = .ok tokens := by
  obtain ⟨tokens, htokens, _⟩ := bind_eq_ok.mp h
  cases htokenize : tokenize text with
  | ok tokens => exact ⟨tokens, rfl⟩
  | error error => simp [tokensOf, htokenize] at htokens

/-- A text is parsed as a tree when it is written for its terminals. -/
theorem parse_iff_writes {e : Expr} :
    parse text = .ok e ↔ e.Stratified ∧ Writes text e.flatten := by
  rw [writes_iff_tokenize]
  constructor
  · intro h
    obtain ⟨tokens, htokens⟩ := exists_tokenize_of_ok h
    obtain ⟨hstratified, hflatten⟩ :=
      (readWhole_eq_ok (tokenize_proper htokens)).mp ((parse_eq_ok htokens).mp h)
    exact ⟨hstratified, tokens, htokens, hflatten⟩
  · rintro ⟨hstratified, tokens, htokens, hflatten⟩
    exact (parse_eq_ok htokens).mpr (readWhole_of_flatten hstratified hflatten)

theorem parseHeader_iff_writes {header : LoopHeader} :
    parseHeader text = .ok header ↔
      header.Stratified ∧ ∃ word, header.FlattensTo word ∧ Writes text word := by
  simp only [writes_iff_tokenize]
  constructor
  · intro h
    obtain ⟨tokens, htokens⟩ := exists_tokenize_of_ok h
    obtain ⟨hstratified, hflattens⟩ :=
      (readHeader_eq_ok (tokenize_proper htokens)).mp ((parseHeader_eq_ok htokens).mp h)
    exact ⟨hstratified, _, hflattens, tokens, htokens, rfl⟩
  · rintro ⟨hstratified, _, hflattens, tokens, htokens, rfl⟩
    exact (parseHeader_eq_ok htokens).mpr (readHeader_of_flattensTo hstratified hflattens)

/-! ## Terminals of texts -/

/-- Whether a terminal may come from a text: an identifier is a name other than the keywords, and
numbers have no sign. -/
def Terminal.Spelled : Terminal → Prop
  | .identifier name => IsName name.toList ∧ Keyword.ofWord? name = none
  | .number (.int n) => 0 ≤ n
  | .number (.float x) => x.IsUnsigned
  | _ => True

/-- A number begins with a digit or a point. -/
theorem exists_head_of_numberLength {text : List Char} (h : numberLength text ≠ 0) :
    ∃ c rest, text = c :: rest ∧ (Text.isDecimalDigit c = true ∨ c = '.') := by
  cases text with
  | nil => exact absurd rfl h
  | cons c rest =>
      refine ⟨c, rest, rfl, ?_⟩
      by_contra hnone
      rw [not_or, Bool.not_eq_true] at hnone
      exact h (numberLength_of_head hnone.1 hnone.2 rest)

theorem spelled_number {c : Char} (hc : Text.isDecimalDigit c = true ∨ c = '.')
    (more : List Char) : (Lexeme.number (c :: more)).terminal.Spelled := by
  rw [Lexeme.terminal, numberOf]
  split
  next =>
    cases h : Decimal.read? (c :: more) with
    | none => exact trivial
    | some x => exact Decimal.isUnsigned_of_read? hc h
  next => exact Int.natCast_nonneg _

theorem isName_keyword (keyword : Keyword) : IsName keyword.spelling.toList := by
  cases keyword <;> decide

theorem lexeme?_spelled {length : Nat} (h : lexeme? text = some (lexeme, length)) :
    lexeme.terminal.Spelled := by
  obtain ⟨hnumber, rfl, -⟩ | ⟨c, rest, rfl, ⟨_, _, -, rfl, -⟩ | ⟨_, -, rfl, -⟩ | ⟨_, -, rfl, -⟩ |
    ⟨hstart, rfl, -⟩⟩ := lexeme?_cases h
  · obtain ⟨c, rest, rfl, hc⟩ := exists_head_of_numberLength hnumber
    obtain ⟨k, hk⟩ := Nat.exists_eq_succ_of_ne_zero hnumber
    rw [hk, List.take_succ_cons]
    exact spelled_number hc _
  · trivial
  · trivial
  · trivial
  · have hname : IsName (c :: rest.takeWhile Text.isIdentifierPart) :=
      ⟨c, _, rfl, hstart, fun d hd => List.mem_takeWhile_imp hd⟩
    rw [terminal_wordLexeme, nameTerminal]
    split
    next => trivial
    next hnone => exact ⟨by rwa [String.toList_ofList], hnone⟩

theorem Writes.spelled (h : Writes text word) : ∀ t ∈ word, t.Spelled := by
  obtain ⟨lexemes, h, rfl⟩ := h
  rw [List.forall_mem_map]
  induction h with
  | nil => simp
  | blank _ _ ih => exact ih
  | word hword _ ih => exact List.forall_mem_cons.mpr ⟨lexeme?_spelled hword.next, ih⟩

/-- A property name is a name even where it is a keyword. -/
theorem isName_of_spelled {name : String} (h : (nameTerminal name).Spelled) :
    IsName name.toList := by
  unfold nameTerminal at h
  split at h
  next keyword hkeyword =>
    rw [← Keyword.spelling_of_ofWord? hkeyword]
    exact isName_keyword keyword
  next => exact h.1

end Transclude.Expr
