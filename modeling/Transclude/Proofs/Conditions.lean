import Mathlib
import Transclude.Proofs.Balance
import Transclude.Proofs.Parsing

/-! # Expressions between brackets

The round brackets of a text that is an expression are balanced among its tokens,
no token of it is a brace, and outside of them nothing of it is a quote or a bracket.
So the bracket around the text of an expression is found right behind it. -/

namespace Transclude

/-- The brackets around expressions: round ones around arguments, and braces around placeholders. -/
inductive Bracket.Pair
  | round
  | braces

namespace Bracket.Pair

def opening : Pair → Char
  | .round => '('
  | .braces => '\x7b'

def closing : Pair → Char
  | .round => ')'
  | .braces => '\x7d'

variable (pair : Pair)

theorem isQuote_opening : isQuote pair.opening = false := by cases pair <;> rfl

theorem isQuote_closing : isQuote pair.closing = false := by cases pair <;> rfl

theorem closing_ne_opening : pair.closing ≠ pair.opening := by cases pair <;> decide

end Bracket.Pair

namespace Expr

/-- The terminals that brackets are counted by. -/
def Terminal.isSymbol (c : Char) : Terminal → Bool
  | .symbol mark => mark.char == c
  | _ => false

/-- The brackets of terminals are balanced. -/
abbrev BalancedIn (pair : Bracket.Pair) (word : List Terminal) : Prop :=
  Balanced (Terminal.isSymbol pair.opening) (Terminal.isSymbol pair.closing) word

/-- The round brackets of terminals are balanced. -/
abbrev Closed (word : List Terminal) : Prop := BalancedIn .round word

theorem closed_singleton {terminal : Terminal} (hopens : terminal.isSymbol '(' = false)
    (hcloses : terminal.isSymbol ')' = false) : Closed [terminal] :=
  balanced_singleton hopens hcloses

theorem closed_nameTerminal (name : String) : Closed [nameTerminal name] := by
  unfold nameTerminal
  split
  next => exact closed_singleton rfl rfl
  next => exact closed_singleton rfl rfl

theorem closed_unary (op : UnaryOp) : Closed [op.terminal] := by
  cases op <;> exact closed_singleton rfl rfl

theorem closed_binary (op : BinaryOp) : Closed [op.terminal] := by
  cases op <;> exact closed_singleton rfl rfl

theorem closed_literal (value : Scalar) : Closed (literalTerminal? value).toList := by
  unfold literalTerminal?
  split <;> first | exact balanced_nil | exact closed_singleton rfl rfl

theorem closed_items {items : List Expr} (h : ∀ item ∈ items, Closed item.flatten) :
    Closed (flattenItems items) := by
  induction items with
  | nil => exact balanced_nil
  | cons item rest ih =>
      obtain ⟨hitem, hrest⟩ := List.forall_mem_cons.mp h
      by_cases hne : rest = []
      · subst hne
        exact hitem
      · rw [flattenItems_cons item hne]
        have hcomma : Closed [.symbol .comma] := closed_singleton rfl rfl
        exact hitem.append (hcomma.append (ih hrest))

/-- The round brackets of an expression are balanced. -/
theorem closed_flatten (e : Expr) : Closed e.flatten := by
  induction e using Expr.induction with
  | literal value => exact closed_literal value
  | array items ih =>
      have hopen : Closed [.symbol .openBracket] := closed_singleton rfl rfl
      have hclose : Closed [.symbol .closeBracket] := closed_singleton rfl rfl
      rw [flatten]
      exact (hopen.append (closed_items ih)).append hclose
  | identifier name => exact closed_singleton rfl rfl
  | member object name ih =>
      have hdot : Closed [.symbol .dot] := closed_singleton rfl rfl
      rw [flatten]
      exact ih.append (hdot.append (closed_nameTerminal name))
  | index object key ihobject ihkey =>
      have hopen : Closed [.symbol .openBracket] := closed_singleton rfl rfl
      have hclose : Closed [.symbol .closeBracket] := closed_singleton rfl rfl
      rw [flatten, List.append_assoc]
      exact ihobject.append ((hopen.append ihkey).append hclose)
  | unary op operand ih =>
      rw [flatten]
      exact (closed_unary op).append ih
  | binary op left right ihleft ihright =>
      rw [flatten]
      exact ihleft.append ((closed_binary op).append ihright)
  | conditional test consequent alternate ihtest ihconsequent ihalternate =>
      have hquestion : Closed [.operator .question] := closed_singleton rfl rfl
      have hcolon : Closed [.operator .colon] := closed_singleton rfl rfl
      rw [flatten, List.append_assoc]
      exact ihtest.append ((hquestion.append ihconsequent).append (hcolon.append ihalternate))
  | group inner ih =>
      rw [flatten]
      exact ih.around rfl rfl rfl

/-- No token is a brace. -/
theorem balancedIn_braces (word : List Terminal) : BalancedIn .braces word := by
  refine balanced_of_forall fun terminal _ => ?_
  cases terminal with
  | symbol symbol => cases symbol <;> decide
  | _ => exact ⟨rfl, rfl⟩

/-! ## Characters of tokens -/

variable {pair : Bracket.Pair}

/-- A character is neither a quote nor a bracket. -/
def Harmless (pair : Bracket.Pair) (c : Char) : Prop :=
  Bracket.isQuote c = false ∧ c ≠ pair.opening ∧ c ≠ pair.closing

instance : DecidablePred (Harmless pair) := fun _ => inferInstanceAs (Decidable (_ ∧ _ ∧ _))

theorem harmless_of {p : Char → Bool}
    (hp : (['\'', '"', '`', pair.opening, pair.closing].all fun d => !p d) = true) {c : Char}
    (h : p c = true) : Harmless pair c := by
  have hne : ∀ d ∈ ['\'', '"', '`', pair.opening, pair.closing], c ≠ d := by
    rintro d hd rfl
    have hnot := List.all_eq_true.mp hp c hd
    rw [h] at hnot
    cases hnot
  refine ⟨?_, hne pair.opening (by simp), hne pair.closing (by simp)⟩
  simp [Bracket.isQuote, hne '\'' (by simp), hne '"' (by simp), hne '`' (by simp)]

theorem harmless_digit {c : Char} (h : Text.isDecimalDigit c = true) : Harmless pair c :=
  harmless_of (by cases pair <;> decide) h

theorem harmless_part {c : Char} (h : Text.isIdentifierPart c = true) : Harmless pair c :=
  harmless_of (by cases pair <;> decide) h

theorem harmless_blank {c : Char} (h : Text.isBlank c = true) : Harmless pair c :=
  harmless_of (by cases pair <;> decide) h

theorem harmless_operator (op : Operator) : ∀ c ∈ op.spelling.toList, Harmless pair c := by
  have hall : (op.spelling.toList.all fun c =>
      !Bracket.isQuote c && c != pair.opening && c != pair.closing) = true := by
    cases pair <;> cases op <;> decide
  intro c hc
  simpa [Harmless, and_assoc] using List.all_eq_true.mp hall c hc

/-- The point and the signs of a number are harmless. -/
theorem harmless_mark {c : Char} (h : c ∈ ['.', '+', '-']) : Harmless pair c :=
  harmless_of (by cases pair <;> decide) (List.contains_iff_mem.mpr h)

theorem harmless_digits (text : List Char) :
    ∀ c ∈ text.take (leadingDigits text), Harmless pair c := by
  intro c hc
  have htake := List.prefix_iff_eq_take.mp (text.takeWhile_prefix Text.isDecimalDigit)
  rw [leadingDigits, ← htake] at hc
  exact harmless_digit (by simpa using List.mem_takeWhile_imp hc)

theorem harmless_take_add {text : List Char} {first second : Nat}
    (hfirst : ∀ c ∈ text.take first, Harmless pair c)
    (hsecond : ∀ c ∈ (text.drop first).take second, Harmless pair c) :
    ∀ c ∈ text.take (first + second), Harmless pair c := by
  intro c hc
  rw [List.take_add] at hc
  rcases List.mem_append.mp hc with hc | hc
  · exact hfirst c hc
  · exact hsecond c hc

theorem harmless_marked {mark : Char} {rest : List Char} {sign : Nat} (hmark : Harmless pair mark)
    (hsign : ∀ c ∈ rest.take sign, Harmless pair c) (digits : Nat)
    (hdigits : ∀ c ∈ (rest.drop sign).take digits, Harmless pair c) :
    ∀ c ∈ (mark :: rest).take (if digits = 0 then 0 else 1 + sign + digits),
      Harmless pair c := by
  split
  next => simp
  next =>
    rw [Nat.add_assoc, Nat.add_comm 1, List.take_succ_cons]
    exact List.forall_mem_cons.mpr ⟨hmark, harmless_take_add hsign hdigits⟩

theorem harmless_exponent (text : List Char) :
    ∀ c ∈ text.take (exponentLength text), Harmless pair c := by
  cases text with
  | nil => simp
  | cons mark rest =>
      by_cases hmark : (mark == 'e' || mark == 'E') = true
      · have hletter : Harmless pair mark := by
          apply harmless_part
          rcases Bool.or_eq_true_iff.mp hmark with h | h <;> rw [beq_iff_eq.mp h] <;> decide
        unfold exponentLength
        dsimp only
        rw [if_pos hmark]
        refine harmless_marked hletter ?_ _ (harmless_digits _)
        split
        next => exact List.forall_mem_cons.mpr ⟨harmless_mark (by simp), by simp⟩
        next => exact List.forall_mem_cons.mpr ⟨harmless_mark (by simp), by simp⟩
        next => simp
      · unfold exponentLength
        dsimp only
        rw [if_neg hmark]
        simp

/-- The text of a number has no quotes and brackets. -/
theorem harmless_number (text : List Char) :
    ∀ c ∈ text.take (numberLength text), Harmless pair c := by
  have hwhole : ∀ c ∈ text.take (leadingDigits text), Harmless pair c := harmless_digits text
  suffices hmantissa : ∀ mantissa, (∀ c ∈ text.take mantissa, Harmless pair c) → ∀ c ∈ text.take
      (if mantissa = 0 then 0 else mantissa + exponentLength (text.drop mantissa)),
      Harmless pair c by
    refine hmantissa _ ?_
    split
    next rest hpoint =>
      dsimp only
      split
      next => simp
      next =>
        refine harmless_take_add (harmless_take_add hwhole ?_) ?_
        · rw [hpoint]
          exact List.forall_mem_cons.mpr ⟨harmless_mark (by simp), by simp⟩
        · rw [← List.drop_drop, hpoint]
          exact harmless_digits rest
    next => exact hwhole
  intro mantissa h
  split
  next => simp
  next => exact harmless_take_add h (harmless_exponent _)

/-! ## Texts of tokens -/

/-- Harmless text leads back to the depth at its beginning. -/
theorem leads_of_harmless (pair : Bracket.Pair) {text : List Char}
    (h : ∀ c ∈ text, Harmless pair c) (depth : Nat) :
    Bracket.Leads true pair.opening pair.closing text depth depth :=
  .others (fun c hc => ⟨fun _ => (h c hc).1, (h c hc).2⟩) depth

/-- The scan for a bracket passes over a string as it is read. -/
theorem closingFrom_string {quote : Char} (hquote : quote ≠ '\\') {text content : List Char}
    {length : Nat} (h : stringContent? quote text = some (content, length)) (depth : Int)
    (rest : List Char) :
    Bracket.closingFrom true pair.opening pair.closing depth (some quote)
        (text.take length ++ rest) =
      (Bracket.closingFrom true pair.opening pair.closing depth none rest).map
        (· + (text.take length).length) := by
  fun_induction stringContent? quote text generalizing content length with
  | case1 => cases h
  | case2 c more hend =>
      obtain rfl := beq_iff_eq.mp hend
      cases h
      exact Bracket.closingFrom_endQuote hquote
  | case3 => cases h
  | case4 c hend hslash e more ih =>
      obtain rfl := beq_iff_eq.mp hslash
      obtain ⟨⟨inner, count⟩, hinner, heq⟩ := Option.map_eq_some_iff.mp h
      cases heq
      rw [List.take_succ_cons, List.take_succ_cons, List.cons_append, List.cons_append,
        Bracket.closingFrom_escape, ih hinner, Option.map_map]
      rfl
  | case5 c more hend hslash ih =>
      obtain ⟨⟨inner, count⟩, hinner, heq⟩ := Option.map_eq_some_iff.mp h
      cases heq
      rw [List.take_succ_cons, List.cons_append,
        Bracket.closingFrom_inside (by simpa using hend) (by simpa using hslash), ih hinner,
        Option.map_map]
      rfl

/-- A symbol leads as its character does. -/
theorem leads_symbol (symbol : Symbol) (before behind : Nat)
    (h : depthBehind (Terminal.isSymbol pair.opening) (Terminal.isSymbol pair.closing) before
      [.symbol symbol] = some behind) :
    Bracket.Leads true pair.opening pair.closing [symbol.char] before behind := by
  by_cases hopens : symbol.char = pair.opening
  · have hcounted : Terminal.isSymbol pair.opening (.symbol symbol) = true := beq_iff_eq.mpr hopens
    rw [depthBehind, if_pos hcounted] at h
    cases h
    rw [hopens]
    exact .opens (fun _ => pair.isQuote_opening) _
  · by_cases hcloses : symbol.char = pair.closing
    · have hcounted : Terminal.isSymbol pair.closing (.symbol symbol) = true :=
        beq_iff_eq.mpr hcloses
      rw [depthBehind, if_neg (by simpa [Terminal.isSymbol] using hopens), if_pos hcounted] at h
      cases before with
      | zero => cases h
      | succ before =>
          cases h
          rw [hcloses]
          exact .closes (fun _ => pair.isQuote_closing) pair.closing_ne_opening _
    · rw [depthBehind_singleton (by simpa [Terminal.isSymbol] using hopens)
        (by simpa [Terminal.isSymbol] using hcloses)] at h
      cases h
      exact .other (fun _ => by cases symbol <;> rfl) hopens hcloses _

theorem isSymbol_word (word : List Char) (c : Char) :
    (wordLexeme word).terminal.isSymbol c = false := by
  unfold wordLexeme
  dsimp only
  split <;> rfl

/-- A string leads back to its depth, whatever stands in it. -/
theorem leads_string {quote : Char} (hquote : (quote == '\'' || quote == '"') = true)
    {text content : List Char} {length : Nat}
    (h : stringContent? quote text = some (content, length)) (depth : Nat) :
    Bracket.Leads true pair.opening pair.closing (quote :: text.take length) depth depth := by
  have hisQuote : Bracket.isQuote quote = true := by
    rcases Bool.or_eq_true_iff.mp hquote with h | h <;> rw [beq_iff_eq.mp h] <;> decide
  have hslash : quote ≠ '\\' := by
    rintro rfl
    cases hisQuote
  intro base more
  rw [List.cons_append, Bracket.closingFrom_beginQuote hisQuote, closingFrom_string hslash h,
    Option.map_map]
  rfl

theorem leads_operator {op : Operator} {text : List Char}
    (h : op.spelling.toList.isPrefixOf text = true) (depth : Nat) :
    Bracket.Leads true pair.opening pair.closing (text.take op.spelling.length) depth depth := by
  have htake := List.prefix_iff_eq_take.mp (List.isPrefixOf_iff_prefix.mp h)
  rw [← String.length_toList, ← htake]
  exact leads_of_harmless pair (harmless_operator op) depth

theorem leads_word {c : Char} (hstart : Text.isIdentifierStart c = true) (rest : List Char)
    (depth : Nat) :
    Bracket.Leads true pair.opening pair.closing (c :: rest.takeWhile Text.isIdentifierPart)
      depth depth := by
  refine leads_of_harmless pair (List.forall_mem_cons.mpr
    ⟨harmless_part (Text.isIdentifierPart_of_start hstart), fun d hd => ?_⟩) depth
  exact harmless_part (by simpa using List.mem_takeWhile_imp hd)

/-- The text of a token leads as its terminal does. -/
theorem leads_lexeme {c : Char} {rest : List Char} {lexeme : Lexeme} {length : Nat}
    (h : lexeme? (c :: rest) = some (lexeme, length)) : 1 ≤ length ∧ ∀ before behind,
      depthBehind (Terminal.isSymbol pair.opening) (Terminal.isSymbol pair.closing) before
        [lexeme.terminal] = some behind →
      Bracket.Leads true pair.opening pair.closing ((c :: rest).take length) before behind := by
  unfold lexeme? at h
  dsimp only at h
  -- numbers, strings, operators, symbols and words, in the order in which they are tried
  split at h
  next hdigits =>
    cases h
    refine ⟨Nat.one_le_iff_ne_zero.mpr hdigits, fun before behind hdepth => ?_⟩
    rw [depthBehind_singleton rfl rfl] at hdepth
    cases hdepth
    exact leads_of_harmless pair (harmless_number _) before
  next =>
    split at h
    next hquote =>
      obtain ⟨⟨content, count⟩, hcontent, heq⟩ := Option.map_eq_some_iff.mp h
      cases heq
      refine ⟨by omega, fun before behind hdepth => ?_⟩
      rw [depthBehind_singleton rfl rfl] at hdepth
      cases hdepth
      rw [List.take_succ_cons]
      exact leads_string hquote hcontent before
    next =>
      split at h
      next op hop =>
        cases h
        refine ⟨by cases op <;> decide, fun before behind hdepth => ?_⟩
        rw [depthBehind_singleton rfl rfl] at hdepth
        cases hdepth
        exact leads_operator (by simpa using List.find?_some hop) before
      next =>
        split at h
        next symbol hsymbol =>
          cases h
          obtain rfl : symbol.char = c := by simpa using List.find?_some hsymbol
          exact ⟨le_rfl, leads_symbol symbol⟩
        next =>
          split at h
          next hstart =>
            cases h
            refine ⟨by simp, fun before behind hdepth => ?_⟩
            rw [depthBehind_singleton (isSymbol_word _ _) (isSymbol_word _ _)] at hdepth
            cases hdepth
            rw [List.length_cons, List.take_succ_cons,
              ← List.prefix_iff_eq_take.mp (rest.takeWhile_prefix Text.isIdentifierPart)]
            exact leads_word hstart rest before
          next => cases h

/-- A text leads as its tokens do. -/
theorem leads_tokens {position : Nat} {text : List Char} {tokens : List Token}
    (h : tokensFrom position text = .ok tokens) {before behind : Nat}
    (hdepth : depthBehind (Terminal.isSymbol pair.opening) (Terminal.isSymbol pair.closing) before
      (terminals tokens) = some behind) :
    Bracket.Leads true pair.opening pair.closing text before behind := by
  fun_induction tokensFrom position text generalizing tokens before with
  | case1 =>
      cases h
      cases hdepth
      exact .nil _
  | case2 position c rest hblank ih =>
      have hc : ∀ d ∈ [c], Harmless pair d := by simpa using harmless_blank hblank
      exact (leads_of_harmless pair hc before).append (ih h hdepth)
  | case3 position c rest hblank lexeme length hlexeme ih =>
      obtain ⟨following, hfollowing, h⟩ := bind_eq_ok.mp h
      cases h
      obtain ⟨hlength, hleads⟩ := leads_lexeme hlexeme
      have hsplit : c :: rest = (c :: rest).take length ++ rest.drop (length - 1) := by
        obtain ⟨length, rfl⟩ := Nat.exists_eq_add_of_le' hlength
        simp
      rw [terminals_cons, ← List.singleton_append, depthBehind_append] at hdepth
      obtain ⟨middle, hmiddle, hbehind⟩ := Option.bind_eq_some_iff.mp hdepth
      rw [hsplit]
      exact (hleads before middle hmiddle).append (ih hfollowing hbehind)
  | case4 => cases h

/-- The scan for a bracket passes over a text whose tokens are balanced. -/
theorem leads_of_tokenize {text : List Char} {tokens : Tokens} (h : tokenize text = .ok tokens)
    (hbalanced : BalancedIn pair (terminals tokens.items)) :
    Bracket.Leads true pair.opening pair.closing text 0 0 := by
  obtain ⟨items, hitems, heq⟩ := bind_eq_ok.mp h
  cases heq
  exact leads_tokens hitems hbalanced

theorem leads_flatten {text : List Char} {e : Expr} (h : parse text = .ok e)
    (hbalanced : BalancedIn pair e.flatten) :
    Bracket.Leads true pair.opening pair.closing text 0 0 := by
  cases htokens : tokenize text with
  | error error =>
      have herror : ∀ e, parse text ≠ .ok e := by simp [parse, tokensOf, htokens, bind, Except.bind]
      exact absurd h (herror e)
  | ok tokens =>
      have hread := (parse_eq_ok htokens).mp h
      obtain ⟨_, hflatten⟩ := readWhole_sound (tokenize_proper htokens) hread
      refine leads_of_tokenize htokens ?_
      rw [hflatten]
      exact hbalanced

/-- The scan for a bracket passes over an expression, in round brackets and in braces. -/
theorem leads_of_parse (pair : Bracket.Pair) {text : List Char} {e : Expr}
    (h : parse text = .ok e) :
    Bracket.Leads true pair.opening pair.closing text 0 0 := by
  cases pair with
  | round => exact leads_flatten h (closed_flatten e)
  | braces => exact leads_flatten h (balancedIn_braces e.flatten)

end Expr

end Transclude
