import Mathlib
import Transclude.Proofs.DerivedTree
import Transclude.Proofs.Header

/-! # The parser accepts its grammar and loses nothing

On every text that has tokens, the parser of expressions and that of loop headers
succeed on what the grammar derives, and return the stratified tree that flattens
to the tokens. -/

namespace Transclude.Expr

/-! ## Tokens of a text -/

theorem wordLexeme_proper (word : List Char) : (wordLexeme word).Proper := by
  unfold wordLexeme
  dsimp only
  split
  next => trivial
  next h => exact h

theorem lexeme?_proper {text : List Char} {lexeme : Lexeme} {length : Nat}
    (h : lexeme? text = some (lexeme, length)) : lexeme.Proper := by
  unfold lexeme? at h
  dsimp only at h
  split at h
  next => cases h; trivial
  next =>
    split at h
    next => cases h
    next c rest =>
      split at h
      next =>
        obtain ⟨_, _, h⟩ := Option.map_eq_some_iff.mp h
        cases h
        trivial
      next =>
        split at h
        next => cases h; trivial
        next =>
          split at h
          next => cases h; trivial
          next =>
            split at h
            next => cases h; exact wordLexeme_proper _
            next => cases h

theorem tokensFrom_proper {position : Nat} {text : List Char} {tokens : List Token}
    (h : tokensFrom position text = .ok tokens) : ProperTokens tokens := by
  fun_induction tokensFrom position text generalizing tokens with
  | case1 => cases h; exact nofun
  | case2 position c rest hblank ih => exact ih h
  | case3 position c rest hblank lexeme length hlexeme ih =>
      obtain ⟨following, hfollowing, h⟩ := bind_eq_ok.mp h
      cases h
      exact List.forall_mem_cons.mpr ⟨lexeme?_proper hlexeme, ih hfollowing⟩
  | case4 => cases h

theorem tokenize_proper {text : List Char} {tokens : Tokens} (h : tokenize text = .ok tokens) :
    ProperTokens tokens.items := by
  obtain ⟨items, hitems, h⟩ := bind_eq_ok.mp h
  cases h
  exact tokensFrom_proper hitems

/-! ## Whole expressions and headers -/

theorem readWhole_sound {tokens : List Token} {e : Expr} (hproper : ProperTokens tokens)
    (h : readWhole tokens = .ok e) : e.Stratified ∧ terminals tokens = e.flatten := by
  obtain ⟨⟨e, rest⟩, hread, h⟩ := bind_eq_ok.mp h
  obtain ⟨_, hend, h⟩ := bind_eq_ok.mp h
  obtain rfl := expectEnd_eq_ok hend
  cases h
  replace hread := readExpression_reads hread
  exact ⟨hread.stratified, hread.spans.terminals_eq hproper⟩

/-- The tokens of a stratified tree are read back as that tree. -/
theorem readWhole_of_flatten {tokens : List Token} {e : Expr} (h : e.Stratified)
    (htokens : terminals tokens = e.flatten) : readWhole tokens = .ok e := by
  simp only [readWhole, bind, Except.bind, readExpression_whole h htokens]
  rfl

theorem readWhole_eq_ok {tokens : List Token} {e : Expr} (hproper : ProperTokens tokens) :
    readWhole tokens = .ok e ↔ e.Stratified ∧ terminals tokens = e.flatten :=
  ⟨readWhole_sound hproper, fun h => readWhole_of_flatten h.1 h.2⟩

theorem readHeader_eq_ok {tokens : List Token} {header : LoopHeader}
    (hproper : ProperTokens tokens) :
    readHeader tokens = .ok header ↔ header.Stratified ∧ header.FlattensTo (terminals tokens) :=
  ⟨readHeader_sound hproper, fun h => readHeader_of_flattensTo h.1 h.2⟩

theorem map_lexeme_terminal (tokens : List Token) :
    (tokens.map Token.lexeme).map Lexeme.terminal = terminals tokens :=
  List.map_map

theorem properWord_lexemes {tokens : List Token} (h : ProperTokens tokens) :
    ProperWord (tokens.map Token.lexeme) :=
  List.forall_mem_map.mpr h

/-- The parser of tokens accepts what is derived from an expression. -/
theorem exists_readWhole_iff {tokens : List Token} (hproper : ProperTokens tokens) :
    (∃ e, readWhole tokens = .ok e) ↔
      Derives (.nonterminal .expression) (tokens.map Token.lexeme) := by
  constructor
  · rintro ⟨e, h⟩
    obtain ⟨hstratified, hflatten⟩ := readWhole_sound hproper h
    exact derives_expression hstratified ((map_lexeme_terminal tokens).trans hflatten)
  · intro h
    obtain ⟨e, hstratified, hflatten⟩ := exists_tree_of_derives (properWord_lexemes hproper) h
    exact ⟨e, readWhole_of_flatten hstratified ((map_lexeme_terminal tokens).symm.trans hflatten)⟩

/-- The parser of tokens accepts what is derived from a header. -/
theorem exists_readHeader_iff {tokens : List Token} (hproper : ProperTokens tokens) :
    (∃ header, readHeader tokens = .ok header) ↔
      Derives (.nonterminal .counted) (tokens.map Token.lexeme) ∨
        Derives (.nonterminal .foreach) (tokens.map Token.lexeme) := by
  constructor
  · rintro ⟨header, h⟩
    obtain ⟨hstratified, hflattens⟩ := readHeader_sound hproper h
    rw [← map_lexeme_terminal] at hflattens
    exact derives_header hstratified hflattens
  · intro h
    obtain ⟨header, hstratified, hflattens⟩ :=
      exists_header_of_derives (properWord_lexemes hproper) h
    rw [map_lexeme_terminal] at hflattens
    exact ⟨header, readHeader_of_flattensTo hstratified hflattens⟩

/-! ## Texts -/

/-- A parser of texts succeeds as its reader of tokens does, if that needs a token. -/
theorem parser_eq_ok {α : Type} {read : List Token → Except ReadFailure α}
    (hnil : ∀ a, read [] ≠ .ok a) (empty : SyntaxProblem) {text : List Char} {tokens : Tokens}
    (htokens : tokenize text = .ok tokens) {a : α} :
    (tokensOf empty text >>= fun tokens => (read tokens.items).mapError tokens.locate) = .ok a ↔
      read tokens.items = .ok a := by
  obtain ⟨items, stop⟩ := tokens
  cases items with
  | nil => simp [tokensOf, htokens, bind, Except.bind, hnil]
  | cons token rest =>
      cases hread : read (token :: rest) <;>
        simp [tokensOf, htokens, bind, Except.bind, hread, Except.mapError]

theorem parse_eq_ok {text : List Char} {tokens : Tokens} (htokens : tokenize text = .ok tokens)
    {e : Expr} : parse text = .ok e ↔ readWhole tokens.items = .ok e := by
  refine parser_eq_ok ?_ _ htokens
  intro e h
  obtain ⟨⟨e, rest⟩, hread, _⟩ := bind_eq_ok.mp h
  exact absurd (readExpression_reads hread).shorter (Nat.not_lt_zero _)

theorem parseHeader_eq_ok {text : List Char} {tokens : Tokens}
    (htokens : tokenize text = .ok tokens) {header : LoopHeader} :
    parseHeader text = .ok header ↔ readHeader tokens.items = .ok header :=
  parser_eq_ok nofun _ htokens

/-- On a text with tokens the parsers succeed exactly on what the grammar derives, and return
exactly the stratified tree that flattens to the tokens. Conversely the tokens of a stratified tree
or header are read back as it. -/
theorem parse_exact :
    (∀ text tokens, tokenize text = .ok tokens →
      ((∃ e, parse text = .ok e) ↔
        Derives (.nonterminal .expression) (tokens.items.map Token.lexeme)) ∧
      ((∃ header, parseHeader text = .ok header) ↔
        Derives (.nonterminal .counted) (tokens.items.map Token.lexeme) ∨
          Derives (.nonterminal .foreach) (tokens.items.map Token.lexeme)) ∧
      (∀ e, parse text = .ok e ↔ e.Stratified ∧ terminals tokens.items = e.flatten) ∧
      ∀ header, parseHeader text = .ok header ↔
        header.Stratified ∧ header.FlattensTo (terminals tokens.items)) ∧
    (∀ (e : Expr) (tokens : List Token), e.Stratified → terminals tokens = e.flatten →
      readWhole tokens = .ok e) ∧
    ∀ (header : LoopHeader) (tokens : List Token), header.Stratified →
      header.FlattensTo (terminals tokens) → readHeader tokens = .ok header := by
  refine ⟨?_, fun _ _ => readWhole_of_flatten, fun _ _ => readHeader_of_flattensTo⟩
  intro text tokens htokens
  have hproper := tokenize_proper htokens
  simp only [parse_eq_ok htokens, parseHeader_eq_ok htokens]
  exact ⟨exists_readWhole_iff hproper, exists_readHeader_iff hproper,
    fun _ => readWhole_eq_ok hproper, fun _ => readHeader_eq_ok hproper⟩

/-- A sum with a product in it has one tree, with the product below, and a header with a word of
declaration is read without the word. -/
theorem parse_exact_sum :
    tokenize "a + b * 2".toList = .ok ⟨[⟨.identifier "a", 0⟩, ⟨.operator .plus, 2⟩,
      ⟨.identifier "b", 4⟩, ⟨.operator .times, 6⟩, ⟨.number ['2'], 8⟩], 9⟩ ∧
    parse "a + b * 2".toList = .ok (.binary .add (.identifier "a")
      (.binary .mul (.identifier "b") (.literal (.number (.int 2))))) ∧
    readWhole [⟨.operator .not, 0⟩, ⟨.identifier "a", 1⟩] = .ok (.unary .not (.identifier "a")) ∧
    readHeader [⟨.keyword .letWord, 0⟩, ⟨.identifier "x", 4⟩, ⟨.keyword .ofWord, 6⟩,
      ⟨.identifier "y", 9⟩] = .ok (.forEach "x" .values (.identifier "y")) := by
  have htokens : tokenize "a + b * 2".toList = .ok ⟨[⟨.identifier "a", 0⟩, ⟨.operator .plus, 2⟩,
      ⟨.identifier "b", 4⟩, ⟨.operator .times, 6⟩, ⟨.number ['2'], 8⟩], 9⟩ := by cbv
  have hstratified : (Expr.binary .add (.identifier "a")
      (.binary .mul (.identifier "b") (.literal (.number (.int 2))))).Stratified := by
    simp only [Stratified, rank, BinaryOp.level, true_and]
    exact ⟨by decide, by decide, by decide, by decide, .number ['2'], by cbv⟩
  refine ⟨htokens, ((parse_exact.1 _ _ htokens).2.2.1 _).mpr ⟨hstratified, by cbv⟩,
    parse_exact.2.1 _ _ ⟨by decide, trivial⟩ (by cbv), parse_exact.2.2 _ _ trivial ?_⟩
  exact ⟨[.keyword .letWord], by decide, [.identifier "x", .keyword .ofWord, .identifier "y"],
    by decide, by cbv⟩

end Transclude.Expr
