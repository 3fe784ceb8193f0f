import Mathlib
import Transclude.Proofs.Completion
import Transclude.Proofs.Lookahead
import Transclude.Proofs.Slicing

/-! # Syntax errors point at the first impossible token

The text in front of that token goes on to a text that is accepted, with what completes
its tokens behind a blank. No accepted text has the tokens up to that token, since a
reader looks no further before it fails. -/

namespace Transclude.Expr

/-! ## Texts that go on -/

/-- The words of lexemes with a blank behind each. -/
def spelled (lexemes : List Lexeme) : List Char :=
  lexemes.flatMap fun lexeme => lexeme.text.toList ++ [' ']

theorem word_completing {lexeme : Lexeme} (h : lexeme ∈ completing) (rest : List Char) :
    Word lexeme.text.toList lexeme (' ' :: rest) := by
  have halone : (∃ c more, lexeme.text.toList = c :: more ∧ Text.isBlank c = false) ∧
      lexeme? lexeme.text.toList = some (lexeme, lexeme.text.toList.length) := by
    simp only [completing, List.mem_cons, List.not_mem_nil, or_false] at h
    rcases h with rfl | rfl | rfl | rfl | rfl | rfl | rfl
    all_goals exact ⟨⟨_, _, rfl, by decide⟩, by cbv⟩
  exact ⟨halone.1, lexeme?_append (by decide) halone.2 rest⟩

theorem spells_spelled {lexemes : List Lexeme} (h : lexemes ⊆ completing) :
    Spells (spelled lexemes) lexemes := by
  induction lexemes with
  | nil => exact .nil
  | cons lexeme rest ih =>
      obtain ⟨hlexeme, hrest⟩ := List.cons_subset.mp h
      rw [spelled, List.flatMap_cons, List.append_assoc]
      exact .word (word_completing hlexeme (spelled rest)) (ih hrest).space

/-- A text cut at one of its tokens can go on with what completes tokens. -/
theorem exists_continued {text : List Char} {tokens : Tokens} {before after : List Token}
    (htokens : tokenize text = .ok tokens) (hsplit : tokens.items = before ++ after)
    {more : List Lexeme} (hmore : more ⊆ completing) :
    ∃ text' behind, tokenize text' = .ok ⟨before ++ behind, text'.length⟩ ∧
      behind.map Token.lexeme = more := by
  obtain ⟨items, hitems, htokens⟩ := bind_eq_ok.mp htokens
  cases htokens
  dsimp only at hsplit
  subst hsplit
  have htake := tokensFrom_take hitems
  generalize text.take _ = front at htake
  obtain ⟨behind, hbehind, hlexemes⟩ :=
    (spells_spelled hmore).exists_tokensFrom (0 + front.length + 1)
  refine ⟨front ++ ' ' :: spelled more, behind, ?_, hlexemes⟩
  rw [tokenize, tokensFrom_append (by decide) htake, hbehind]
  rfl

theorem allBlank_of_tokensFrom {position : Nat} {text : List Char}
    (h : tokensFrom position text = .ok []) : Text.AllBlank text := by
  fun_induction tokensFrom position text with
  | case1 => intro c hc; cases hc
  | case2 position c rest hblank ih => exact List.forall_mem_cons.mpr ⟨hblank, ih h⟩
  | case3 position c rest hblank lexeme length hlexeme ih =>
      obtain ⟨following, _, h⟩ := bind_eq_ok.mp h
      cases h
  | case4 => cases h

/-! ## The first impossible token -/

variable {α : Type}

/-- A reader of all tokens and the words that it accepts. -/
structure Recognizes (read : List Token → Except ReadFailure α) (language : List Terminal → Prop) :
    Prop where
  looksAtAll : LooksAtAll read
  completes {tokens problem rest} : read tokens = .error (problem, rest) →
    Completes language tokens rest
  accepts {tokens} : ProperTokens tokens →
    ((∃ a, read tokens = .ok a) ↔ language (terminals tokens))
  nonempty (a : α) : read [] ≠ .ok a

theorem recognizes_readWhole : Recognizes readWhole (TreeOf 8) where
  looksAtAll := looksAtAll_readWhole
  completes := readWhole_completes
  accepts hproper := by
    simp only [readWhole_eq_ok hproper, TreeOf]
    exact exists_congr fun e => and_congr_right fun _ =>
      ⟨fun h => ⟨rank_le e, h.symm⟩, fun h => h.2.symm⟩
  nonempty e h := by
    obtain ⟨⟨e, rest⟩, hread, _⟩ := bind_eq_ok.mp h
    exact absurd (readExpression_reads hread).shorter (Nat.not_lt_zero _)

theorem recognizes_readHeader : Recognizes readHeader HeaderOf where
  looksAtAll := looksAtAll_readHeader
  completes := readHeader_completes
  accepts hproper := exists_congr fun _ => readHeader_eq_ok hproper
  nonempty _ h := by cases h

/-- Tokens are the beginning of an accepted text up to a place, and of none beyond it. -/
structure FirstImpossible (accepted : List Char → Prop) (tokens : Tokens)
    (before after : List Token) : Prop where
  split : tokens.items = before ++ after
  possible : ∃ text continued, accepted text ∧ tokenize text = .ok continued ∧
    before <+: continued.items
  impossible : ∀ token ∈ after.head?, ∀ text continued, tokenize text = .ok continued →
    (before ++ [token]).map Token.lexeme <+: continued.items.map Token.lexeme → ¬ accepted text
  incomplete : after = [] → ∀ text continued, tokenize text = .ok continued →
    continued.items.map Token.lexeme = before.map Token.lexeme → ¬ accepted text

section

variable {read : List Token → Except ReadFailure α} {language : List Terminal → Prop}
  (h : Recognizes read language) {parser : List Char → Except ParseError α} {empty : SyntaxProblem}
  (hparser : ∀ text, parser text =
    tokensOf empty text >>= fun tokens => (read tokens.items).mapError tokens.locate)

include hparser in
theorem exists_failure {text : List Char} {tokens : Tokens} {error : ParseError}
    (htokens : tokenize text = .ok tokens) (hblank : ¬ Text.AllBlank text)
    (herror : parser text = .error error) :
    ∃ problem rest, read tokens.items = .error (problem, rest) ∧
      error = .grammatical ⟨problem, headPosition tokens.stop rest⟩ := by
  obtain ⟨items, hitems, heq⟩ := bind_eq_ok.mp htokens
  cases heq
  cases items with
  | nil => exact absurd (allBlank_of_tokensFrom hitems) hblank
  | cons first items =>
      have hof : tokensOf empty text = .ok ⟨first :: items, text.length⟩ := by
        rw [tokensOf, htokens]
        rfl
      rw [hparser, hof, ok_bind] at herror
      dsimp only at herror
      cases hread : read (first :: items) with
      | ok a =>
          rw [hread] at herror
          cases herror
      | error failure =>
          obtain ⟨problem, rest⟩ := failure
          rw [hread] at herror
          cases herror
          refine ⟨problem, rest, rfl, ?_⟩
          cases rest <;> rfl

include h hparser

theorem accepted_iff {text : List Char} {tokens : Tokens} (htokens : tokenize text = .ok tokens) :
    (∃ a, parser text = .ok a) ↔ ∃ a, read tokens.items = .ok a := by
  simp only [hparser]
  exact exists_congr fun a => parser_eq_ok h.nonempty empty htokens

/-- Where a parser fails, acceptance becomes impossible. -/
theorem firstImpossible_of_failure {text : List Char} {tokens : Tokens} {problem : SyntaxProblem}
    {after : List Token} (htokens : tokenize text = .ok tokens)
    (hread : read tokens.items = .error (problem, after)) :
    ∃ before, FirstImpossible (fun text => ∃ a, parser text = .ok a) tokens before after := by
  obtain ⟨before, hsplit, hmore⟩ := h.completes hread
  have hproper := tokenize_proper htokens
  refine ⟨before, hsplit, ?_, ?_, ?_⟩
  · obtain ⟨more, hsubset, hword⟩ :=
      hmore fun token htoken => hproper token (by simp [hsplit, htoken])
    obtain ⟨text', behind, htext', rfl⟩ := exists_continued htokens hsplit hsubset
    refine ⟨text', _, (accepted_iff h hparser htext').mpr ?_, htext', List.prefix_append _ _⟩
    rw [h.accepts (tokenize_proper htext'), terminals_append]
    rwa [map_lexeme_terminal] at hword
  · rintro token htoken text' continued htext' ⟨lexemes, hlexemes⟩ haccepted
    obtain ⟨back, rfl⟩ : ∃ back, after = token :: back := List.head?_eq_some_iff.mp htoken
    have haround : continued.items.map Token.lexeme =
        before.map Token.lexeme ++ token.lexeme :: lexemes := by
      rw [← hlexemes]
      simp
    obtain ⟨front', token', back', hitems, hfront, htoken', -⟩ := map_eq_around haround
    rw [hsplit] at hread
    obtain ⟨a, ha⟩ := (accepted_iff h hparser htext').mp haccepted
    rw [hitems, h.looksAtAll.fails hread hfront htoken'] at ha
    cases ha
  · rintro rfl text' continued htext' hlexemes haccepted
    -- the same lexemes are the same word
    have hsame : terminals continued.items = terminals tokens.items := by
      rw [← map_lexeme_terminal, hlexemes, hsplit, List.append_nil, map_lexeme_terminal]
    rw [accepted_iff h hparser htext', h.accepts (tokenize_proper htext'), hsame,
      ← h.accepts hproper, hread] at haccepted
    obtain ⟨a, ha⟩ := haccepted
    cases ha

theorem exists_firstImpossible {text : List Char} {tokens : Tokens} {error : ParseError}
    (htokens : tokenize text = .ok tokens) (hblank : ¬ Text.AllBlank text)
    (herror : parser text = .error error) :
    ∃ problem before after, error = .grammatical ⟨problem, headPosition tokens.stop after⟩ ∧
      FirstImpossible (fun text => ∃ a, parser text = .ok a) tokens before after := by
  obtain ⟨problem, after, hread, heq⟩ := exists_failure hparser htokens hblank herror
  obtain ⟨before, hfirst⟩ := firstImpossible_of_failure h hparser htokens hread
  exact ⟨problem, before, after, heq, hfirst⟩

end

/-- On a text that has tokens, a parser fails at the position of the first token, or of the end,
with which the tokens before it begin no accepted text. -/
theorem errors_at_first_impossible {text : List Char} {tokens : Tokens}
    (htokens : tokenize text = .ok tokens) (hblank : ¬ Text.AllBlank text) :
    (∀ error, parse text = .error error → ∃ problem before after,
      error = .grammatical ⟨problem, headPosition tokens.stop after⟩ ∧
        FirstImpossible (fun text => ∃ e, parse text = .ok e) tokens before after) ∧
    ∀ error, parseHeader text = .error error → ∃ problem before after,
      error = .grammatical ⟨problem, headPosition tokens.stop after⟩ ∧
        FirstImpossible (fun text => ∃ header, parseHeader text = .ok header) tokens before
          after :=
  ⟨fun _ => exists_firstImpossible recognizes_readWhole (fun _ => rfl) htokens hblank,
    fun _ => exists_firstImpossible recognizes_readHeader (fun _ => rfl) htokens hblank⟩

/-- In a group that is not closed the second name is impossible; as a header the same text is
impossible from the start. -/
theorem errors_at_first_impossible_group :
    tokenize "(a b".toList = .ok ⟨[⟨.symbol .openParen, 0⟩, ⟨.identifier "a", 1⟩,
      ⟨.identifier "b", 3⟩], 4⟩ ∧ ¬ Text.AllBlank "(a b".toList ∧
    parse "(a b".toList = .error (.grammatical ⟨.expectedGroupEnd, 3⟩) ∧
    parseHeader "(a b".toList = .error (.grammatical ⟨.expectedVariable, 0⟩) ∧
    (∃ before after, headPosition 4 after = 3 ∧
      FirstImpossible (fun text => ∃ e, parse text = .ok e) ⟨[⟨.symbol .openParen, 0⟩,
        ⟨.identifier "a", 1⟩, ⟨.identifier "b", 3⟩], 4⟩ before after) ∧
    ∃ before after, headPosition 4 after = 0 ∧
      FirstImpossible (fun text => ∃ header, parseHeader text = .ok header)
        ⟨[⟨.symbol .openParen, 0⟩, ⟨.identifier "a", 1⟩, ⟨.identifier "b", 3⟩], 4⟩ before
          after := by
  have htokens : tokenize "(a b".toList = .ok ⟨[⟨.symbol .openParen, 0⟩, ⟨.identifier "a", 1⟩,
      ⟨.identifier "b", 3⟩], 4⟩ := by cbv
  have hblank : ¬ Text.AllBlank "(a b".toList := by
    intro hall
    exact absurd (hall '(' (by decide)) (by decide)
  have hparse : parse "(a b".toList = .error (.grammatical ⟨.expectedGroupEnd, 3⟩) := by cbv
  have hheader : parseHeader "(a b".toList = .error (.grammatical ⟨.expectedVariable, 0⟩) := by cbv
  obtain ⟨hexpression, hloop⟩ := errors_at_first_impossible htokens hblank
  obtain ⟨problem, before, after, heq, hfirst⟩ := hexpression _ hparse
  obtain ⟨problem', before', after', heq', hfirst'⟩ := hloop _ hheader
  simp only [ParseError.grammatical.injEq, SyntaxError.mk.injEq] at heq heq'
  exact ⟨htokens, hblank, hparse, hheader, ⟨before, after, heq.2.symm, hfirst⟩, before', after',
    heq'.2.symm, hfirst'⟩

end Transclude.Expr
