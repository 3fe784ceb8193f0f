import Mathlib
import Transclude.Proofs.Parsing

/-! # Completing what has been read

Where a reader fails, the tokens that it has taken are the beginning of what it reads.
A name, the other half of an operator with three operands and closing brackets complete
them. -/

namespace Transclude.Expr

/-- The lexemes that complete unfinished tokens. -/
def completing : List Lexeme :=
  [.identifier "x", .keyword .ofWord, .operator .colon, .operator .increment,
    .symbol .closeParen, .symbol .closeBracket, .symbol .semicolon]

/-- The tokens in front of a rest can be completed to a word of a language. Only of proper tokens
are the words known. -/
def Completes (language : List Terminal → Prop) (tokens rest : List Token) : Prop :=
  ∃ used, tokens = used ++ rest ∧ (ProperTokens used →
    ∃ more ⊆ completing, language (terminals used ++ more.map Lexeme.terminal))

namespace Completes

variable {language language' : List Terminal → Prop} {tokens middle rest : List Token}

theorem of_word (more : List Lexeme) (hmore : more ⊆ completing)
    (h : language (more.map Lexeme.terminal)) : Completes language tokens tokens :=
  ⟨[], rfl, fun _ => ⟨more, hmore, h⟩⟩

/-- What is in front of tokens that can be completed is part of the word. -/
theorem after {front : List Terminal} (hfront : Spans tokens front middle)
    (h : Completes (fun word => language (front ++ word)) middle rest) :
    Completes language tokens rest := by
  obtain ⟨used, rfl, hused⟩ := hfront
  obtain ⟨taken, rfl, htaken⟩ := h
  refine ⟨used ++ taken, (List.append_assoc used taken rest).symm, fun hproper => ?_⟩
  obtain ⟨more, hmore, hword⟩ := htaken fun token htoken => hproper token (by simp [htoken])
  refine ⟨more, hmore, ?_⟩
  rwa [terminals_append, hused fun token htoken => hproper token (by simp [htoken]),
    List.append_assoc]

/-- A completion can go on. -/
theorem followed (more : List Lexeme) (hmore : more ⊆ completing)
    (h : Completes language tokens rest)
    (hnext : ∀ word, language word → language' (word ++ more.map Lexeme.terminal)) :
    Completes language' tokens rest := by
  obtain ⟨used, rfl, hused⟩ := h
  refine ⟨used, rfl, fun hproper => ?_⟩
  obtain ⟨first, hfirst, hword⟩ := hused hproper
  refine ⟨first ++ more, List.append_subset.mpr ⟨hfirst, hmore⟩, ?_⟩
  simpa using hnext _ hword

theorem mono (h : Completes language tokens rest) (hle : ∀ word, language word → language' word) :
    Completes language' tokens rest :=
  h.followed [] (List.nil_subset _) fun word hword => by simpa using hle word hword

end Completes

/-! ## Expressions -/

/-- The words of the trees that bind as tightly as asked. -/
def TreeOf (bound : Nat) (word : List Terminal) : Prop :=
  ∃ e : Expr, e.Stratified ∧ rank e ≤ bound ∧ e.flatten = word

/-- The words of lists of trees. -/
def ItemsOf (word : List Terminal) : Prop :=
  ∃ items, StratifiedItems items ∧ items ≠ [] ∧ flattenItems items = word

theorem treeOf_name (bound : Nat) : TreeOf bound [.identifier "x"] :=
  ⟨.identifier "x", trivial, Nat.zero_le bound, rfl⟩

theorem TreeOf.mono {bound bound' : Nat} {word : List Terminal} (h : TreeOf bound word)
    (hle : bound ≤ bound') : TreeOf bound' word := by
  obtain ⟨e, hstratified, htight, rfl⟩ := h
  exact ⟨e, hstratified, htight.trans hle, rfl⟩

theorem treeOf_conditional {test : Expr} (htest : test.Stratified) (htight : rank test ≤ 7)
    {middle back : List Terminal} (hmiddle : TreeOf 8 middle) (hback : TreeOf 8 back) :
    TreeOf 8 (test.flatten ++ .operator .question :: middle ++ .operator .colon :: back) := by
  obtain ⟨consequent, hconsequent, -, rfl⟩ := hmiddle
  obtain ⟨alternate, halternate, -, rfl⟩ := hback
  exact ⟨.conditional test consequent alternate, ⟨htight, htest, hconsequent, halternate⟩,
    Nat.le_refl 8, rfl⟩

theorem treeOf_index {object : Expr} (hobject : object.Stratified) (hrank : rank object = 0)
    {word : List Terminal} (hkey : TreeOf 8 word) :
    TreeOf 0 (object.flatten ++ .symbol .openBracket :: word ++ [.symbol .closeBracket]) := by
  obtain ⟨key, hkey, -, rfl⟩ := hkey
  exact ⟨.index object key, ⟨hrank, hobject, hkey⟩, Nat.le_refl 0, rfl⟩

theorem treeOf_group {word : List Terminal} (h : TreeOf 8 word) :
    TreeOf 0 (.symbol .openParen :: word ++ [.symbol .closeParen]) := by
  obtain ⟨inner, hinner, -, rfl⟩ := h
  exact ⟨.group inner, hinner, Nat.le_refl 0, rfl⟩

theorem treeOf_array {word : List Terminal} (h : ItemsOf word) :
    TreeOf 0 (.symbol .openBracket :: word ++ [.symbol .closeBracket]) := by
  obtain ⟨items, hitems, -, rfl⟩ := h
  exact ⟨.array items, hitems, Nat.le_refl 0, rfl⟩

theorem itemsOf_tree {word : List Terminal} (h : TreeOf 8 word) : ItemsOf word := by
  obtain ⟨item, hitem, -, rfl⟩ := h
  exact ⟨[item], ⟨hitem, trivial⟩, by simp, rfl⟩

/-- Where the readers with a given depth fail, the tokens taken so far can be completed. -/
structure ReadersComplete (fuel : Nat) : Prop where
  expr {tokens problem rest} : readExpr fuel tokens = .error (problem, rest) →
    Completes (TreeOf 8) tokens rest
  binary {level tokens problem rest} : readBinary fuel level tokens = .error (problem, rest) →
    Completes (TreeOf (level + 1)) tokens rest
  binaryRest {level left tokens problem rest} : left.Stratified → rank left ≤ level + 2 →
    readBinaryRest fuel level left tokens = .error (problem, rest) →
    Completes (fun word => TreeOf (level + 2) (left.flatten ++ word)) tokens rest
  unary {tokens problem rest} : readUnary fuel tokens = .error (problem, rest) →
    Completes (TreeOf 1) tokens rest
  access {object tokens problem rest} : object.Stratified → rank object = 0 →
    readAccess fuel object tokens = .error (problem, rest) →
    Completes (fun word => TreeOf 0 (object.flatten ++ word)) tokens rest
  primary {tokens problem rest} : readPrimary fuel tokens = .error (problem, rest) →
    Completes (TreeOf 0) tokens rest
  items {tokens problem rest} : readItems fuel tokens = .error (problem, rest) →
    Completes ItemsOf tokens rest

theorem expectSymbol_eq_error {symbol : Symbol} {problem problem' : SyntaxProblem}
    {tokens rest : List Token} (h : expectSymbol symbol problem tokens = .error (problem', rest)) :
    rest = tokens := by
  unfold expectSymbol at h
  split at h
  next =>
    split at h
    next => cases h
    next => cases h; rfl
  next => cases h; rfl

/-- Where no operand begins, a name completes the tokens to an expression. -/
theorem completes_of_noOperand {α : Type} {bound : Nat} {tokens rest : List Token}
    {problem : SyntaxProblem}
    (h : (.error (noOperand tokens) : Except ReadFailure α) = .error (problem, rest)) :
    Completes (TreeOf bound) tokens rest := by
  obtain rfl : rest = tokens := by
    cases tokens with
    | nil => cases h; rfl
    | cons token tokens => cases h; rfl
  exact .of_word [.identifier "x"] (by simp [completing]) (treeOf_name bound)

namespace ReadersComplete

variable {fuel : Nat} {tokens rest : List Token} {problem : SyntaxProblem}

theorem expr_succ (h : ReadersComplete fuel)
    (hread : readExpr (fuel + 1) tokens = .error (problem, rest)) :
    Completes (TreeOf 8) tokens rest := by
  rw [readExpr] at hread
  obtain hread | ⟨⟨test, middle⟩, htest, hread⟩ := bind_eq_error.mp hread
  · exact (h.binary hread).mono fun word hword => hword.mono (by omega)
  replace htest := (readers_sound fuel).binary htest
  dsimp only at hread
  split at hread
  next position behind =>
    obtain hread | ⟨⟨consequent, middle⟩, hconsequent, hread⟩ := bind_eq_error.mp hread
    · refine .after (htest.spans.trans (.cons _ (.refl behind))) ((h.expr hread).followed
        [.operator .colon, .identifier "x"] (by simp [completing]) fun word hword => ?_)
      simpa using treeOf_conditional htest.stratified htest.tight hword (treeOf_name 8)
    replace hconsequent := (readers_sound fuel).expr hconsequent
    have hmiddle : TreeOf 8 consequent.flatten :=
      ⟨consequent, hconsequent.stratified, hconsequent.tight, rfl⟩
    dsimp only at hread
    split at hread
    next position' after =>
      obtain hread | ⟨⟨alternate, final⟩, halternate, hread⟩ := bind_eq_error.mp hread
      · have hcolon := hconsequent.spans.trans (.cons ⟨.operator .colon, position'⟩ (.refl after))
        refine .after (htest.spans.trans (.cons _ hcolon)) ((h.expr hread).mono fun word hword => ?_)
        simpa using treeOf_conditional htest.stratified htest.tight hmiddle hword
      · cases hread
    next =>
      cases hread
      refine .after (htest.spans.trans (.cons _ hconsequent.spans))
        (.of_word [.operator .colon, .identifier "x"] (by simp [completing]) ?_)
      simpa using treeOf_conditional htest.stratified htest.tight hmiddle (treeOf_name 8)
  next => cases hread

theorem binary_succ (h : ReadersComplete fuel) {level : Nat}
    (hread : readBinary (fuel + 1) level tokens = .error (problem, rest)) :
    Completes (TreeOf (level + 1)) tokens rest := by
  cases level with
  | zero =>
      rw [readBinary] at hread
      exact h.unary hread
  | succ level =>
      rw [readBinary] at hread
      obtain hread | ⟨⟨left, middle⟩, hleft, hread⟩ := bind_eq_error.mp hread
      · exact (h.binary hread).mono fun word hword => hword.mono (by omega)
      · replace hleft := (readers_sound fuel).binary hleft
        exact .after hleft.spans
          (h.binaryRest hleft.stratified (by have := hleft.tight; omega) hread)

theorem binaryRest_succ (h : ReadersComplete fuel) {level : Nat} {left : Expr}
    (hleft : left.Stratified) (htight : rank left ≤ level + 2)
    (hread : readBinaryRest (fuel + 1) level left tokens = .error (problem, rest)) :
    Completes (fun word => TreeOf (level + 2) (left.flatten ++ word)) tokens rest := by
  rw [readBinaryRest.eq_def] at hread
  dsimp only at hread
  split at hread
  next token behind =>
    split at hread
    next op hop =>
      split at hread
      next hlevel =>
        have hterminal := binaryOp?_eq_some.mp hop
        obtain hread | ⟨⟨right, middle⟩, hright, hread⟩ := bind_eq_error.mp hread
        · refine .after (.cons token (.refl behind)) ((h.binary hread).mono ?_)
          rintro _ ⟨right, hright, hrank, rfl⟩
          refine ⟨.binary op left right, ⟨by omega, by omega, hleft, hright⟩, ?_, ?_⟩
          · simp only [rank]
            omega
          · rw [flatten, ← hterminal]
            rfl
        · replace hright := (readers_sound fuel).binary hright
          have hrank := hright.tight
          have hwhole : (Expr.binary op left right).Stratified :=
            ⟨by omega, by omega, hleft, hright.stratified⟩
          refine .after (.cons token hright.spans)
            ((h.binaryRest hwhole (by simp only [rank]; omega) hread).mono fun word hword => ?_)
          rwa [flatten, ← hterminal, List.append_assoc] at hword
      next => cases hread
    next => cases hread
  next => cases hread

theorem unary_succ (h : ReadersComplete fuel)
    (hread : readUnary (fuel + 1) tokens = .error (problem, rest)) :
    Completes (TreeOf 1) tokens rest := by
  rw [readUnary.eq_def] at hread
  dsimp only at hread
  split at hread
  next token behind =>
    split at hread
    next op hop =>
      obtain hread | ⟨⟨operand, middle⟩, _, hread⟩ := bind_eq_error.mp hread
      · refine .after (.cons token (.refl behind)) ((h.unary hread).mono ?_)
        rintro _ ⟨operand, hoperand, htight, rfl⟩
        refine ⟨.unary op operand, ⟨htight, hoperand⟩, Nat.le_refl 1, ?_⟩
        rw [flatten, ← unaryOp?_eq_some.mp hop]
        rfl
      · cases hread
    next =>
      obtain hread | ⟨⟨object, middle⟩, hobject, hread⟩ := bind_eq_error.mp hread
      · exact (h.primary hread).mono fun word hword => hword.mono (Nat.zero_le 1)
      · replace hobject := (readers_sound fuel).primary hobject
        exact .after hobject.spans
          ((h.access hobject.stratified (Nat.le_zero.mp hobject.tight) hread).mono
            fun word hword => hword.mono (Nat.zero_le 1))
  next => exact completes_of_noOperand hread

theorem access_succ (h : ReadersComplete fuel) {object : Expr} (hobject : object.Stratified)
    (hrank : rank object = 0)
    (hread : readAccess (fuel + 1) object tokens = .error (problem, rest)) :
    Completes (fun word => TreeOf 0 (object.flatten ++ word)) tokens rest := by
  have hmember (name : String) : (Expr.member object name).Stratified := ⟨hrank, hobject⟩
  have hname : TreeOf 0 (object.flatten ++ [.symbol .dot, .identifier "x"]) :=
    ⟨.member object "x", hmember "x", Nat.le_refl 0, rfl⟩
  rw [readAccess.eq_def] at hread
  dsimp only at hread
  split at hread
  next position behind =>
    split at hread
    next token after =>
      split at hread
      next name hproperty =>
        have hspans : Spans (⟨.symbol .dot, position⟩ :: token :: after)
            [.symbol .dot, nameTerminal name] after :=
          .cons _ (.cons_of_proper (fun hproper => terminal_of_propertyName? hproper hproperty)
            (.refl after))
        refine .after hspans ((h.access (hmember name) rfl hread).mono fun word hword => ?_)
        simpa [flatten] using hword
      next =>
        cases hread
        exact .after (.cons _ (.refl _)) (.of_word [.identifier "x"] (by simp [completing]) hname)
    next =>
      cases hread
      exact .after (.cons _ (.refl _)) (.of_word [.identifier "x"] (by simp [completing]) hname)
  next position behind =>
    obtain hread | ⟨⟨key, middle⟩, hkey, hread⟩ := bind_eq_error.mp hread
    · refine .after (.cons _ (.refl behind)) ((h.expr hread).followed [.symbol .closeBracket]
        (by simp [completing]) fun word hword => ?_)
      simpa using treeOf_index hobject hrank hword
    replace hkey := (readers_sound fuel).expr hkey
    obtain hread | ⟨after, hafter, hread⟩ := bind_eq_error.mp hread
    · obtain rfl := expectSymbol_eq_error hread
      refine .after (.cons _ hkey.spans)
        (.of_word [.symbol .closeBracket] (by simp [completing]) ?_)
      simpa using treeOf_index hobject hrank ⟨key, hkey.stratified, hkey.tight, rfl⟩
    · have hindex : (Expr.index object key).Stratified := ⟨hrank, hobject, hkey.stratified⟩
      refine .after (.cons _ (hkey.spans.trans (expectSymbol_spans hafter)))
        ((h.access hindex rfl hread).mono fun word hword => ?_)
      simpa [flatten] using hword
  next => cases hread

theorem primary_succ (h : ReadersComplete fuel)
    (hread : readPrimary (fuel + 1) tokens = .error (problem, rest)) :
    Completes (TreeOf 0) tokens rest := by
  rw [readPrimary.eq_def] at hread
  dsimp only at hread
  split at hread
  next => cases hread
  next position behind =>
    obtain hread | ⟨⟨inner, middle⟩, hinner, hread⟩ := bind_eq_error.mp hread
    · exact .after (.cons _ (.refl behind)) ((h.expr hread).followed [.symbol .closeParen]
        (by simp [completing]) fun word hword => treeOf_group hword)
    replace hinner := (readers_sound fuel).expr hinner
    obtain hread | ⟨after, _, hread⟩ := bind_eq_error.mp hread
    · obtain rfl := expectSymbol_eq_error hread
      exact .after (.cons _ hinner.spans) (.of_word [.symbol .closeParen] (by simp [completing])
        (treeOf_group ⟨inner, hinner.stratified, hinner.tight, rfl⟩))
    · cases hread
  next => cases hread
  next position behind _ =>
    obtain hread | ⟨⟨items, middle⟩, hitems, hread⟩ := bind_eq_error.mp hread
    · exact .after (.cons _ (.refl behind)) ((h.items hread).followed [.symbol .closeBracket]
        (by simp [completing]) fun word hword => treeOf_array hword)
    obtain ⟨hspans, -, hstratified, hne⟩ := (readers_sound fuel).items hitems
    obtain hread | ⟨after, _, hread⟩ := bind_eq_error.mp hread
    · obtain rfl := expectSymbol_eq_error hread
      exact .after (.cons _ hspans) (.of_word [.symbol .closeBracket] (by simp [completing])
        (treeOf_array ⟨items, hstratified, hne, rfl⟩))
    · cases hread
  next =>
    split at hread
    next => cases hread
    next => exact completes_of_noOperand hread
  next => exact completes_of_noOperand hread

theorem items_succ (h : ReadersComplete fuel)
    (hread : readItems (fuel + 1) tokens = .error (problem, rest)) :
    Completes ItemsOf tokens rest := by
  rw [readItems] at hread
  obtain hread | ⟨⟨item, middle⟩, hitem, hread⟩ := bind_eq_error.mp hread
  · exact (h.expr hread).mono fun _ => itemsOf_tree
  replace hitem := (readers_sound fuel).expr hitem
  dsimp only at hread
  split at hread
  next position behind =>
    obtain hread | ⟨⟨more, final⟩, _, hread⟩ := bind_eq_error.mp hread
    · refine .after (hitem.spans.trans (.cons _ (.refl behind))) ((h.items hread).mono ?_)
      rintro _ ⟨items, hitems, hne, rfl⟩
      refine ⟨item :: items, ⟨hitem.stratified, hitems⟩, by simp, ?_⟩
      simp [flattenItems_cons item hne]
    · cases hread
  next => cases hread

end ReadersComplete

/-- Whatever depth they are given, the readers fail only behind tokens that can be completed. -/
theorem readers_complete (fuel : Nat) : ReadersComplete fuel := by
  induction fuel with
  | zero =>
      exact {
        expr := completes_of_noOperand
        binary := completes_of_noOperand
        binaryRest := nofun
        unary := completes_of_noOperand
        access := nofun
        primary := completes_of_noOperand
        items := fun hread => (completes_of_noOperand hread).mono fun _ => itemsOf_tree }
  | succ fuel ih =>
      exact ⟨ih.expr_succ, ih.binary_succ, ih.binaryRest_succ, ih.unary_succ, ih.access_succ,
        ih.primary_succ, ih.items_succ⟩

/-! ## Whole expressions and headers -/

variable {tokens rest : List Token} {problem : SyntaxProblem}

theorem readExpression_completes (h : readExpression tokens = .error (problem, rest)) :
    Completes (TreeOf 8) tokens rest :=
  (readers_complete _).expr h

/-- In front of what may not follow, the tokens are complete. -/
theorem completes_of_expectEnd {language : List Terminal → Prop}
    (h : expectEnd tokens = .error (problem, rest)) (hword : language []) :
    Completes language tokens rest := by
  cases tokens with
  | nil => cases h
  | cons token behind =>
      cases h
      exact .of_word [] (List.nil_subset _) hword

theorem readWhole_completes (h : readWhole tokens = .error (problem, rest)) :
    Completes (TreeOf 8) tokens rest := by
  obtain h | ⟨⟨e, behind⟩, he, h⟩ := bind_eq_error.mp h
  · exact readExpression_completes h
  replace he := readExpression_reads he
  obtain h | ⟨_, _, h⟩ := bind_eq_error.mp h
  · refine .after he.spans (completes_of_expectEnd h ?_)
    rw [List.append_nil]
    exact ⟨e, he.stratified, he.tight, rfl⟩
  · cases h

/-- The words of steps. -/
def UpdateOf (word : List Terminal) : Prop :=
  ∃ update : LoopUpdate, update.Stratified ∧ word ∈ update.flattenings

/-- The words of tests, with their semicolon. -/
def TestOf (word : List Terminal) : Prop :=
  ∃ test : Option Expr, (∀ e ∈ test, e.Stratified) ∧
    test.elim [] flatten ++ [.symbol .semicolon] = word

/-- The words of headers without a word of declaration. -/
def BodyOf (word : List Terminal) : Prop :=
  ∃ header : LoopHeader, header.Stratified ∧ word ∈ header.flattenings

/-- The words of headers. -/
def HeaderOf (word : List Terminal) : Prop :=
  ∃ header : LoopHeader, header.Stratified ∧ header.FlattensTo word

theorem expectName_eq_error {problem' : SyntaxProblem}
    (h : expectName problem tokens = .error (problem', rest)) : rest = tokens := by
  unfold expectName at h
  split at h
  next => cases h
  next => cases h; rfl

theorem updateOf_counting {name : String} {op : Operator}
    (hop : op ∈ [Operator.increment, .decrement]) :
    UpdateOf [.operator op, .identifier name] ∧ UpdateOf [.identifier name, .operator op] := by
  simp only [List.mem_cons, List.not_mem_nil, or_false] at hop
  obtain rfl | rfl := hop
  · exact ⟨⟨⟨name, .increment⟩, by simp [LoopUpdate.Stratified, Change.operand?],
      by simp [LoopUpdate.flattenings]⟩, ⟨⟨name, .increment⟩,
      by simp [LoopUpdate.Stratified, Change.operand?], by simp [LoopUpdate.flattenings]⟩⟩
  · exact ⟨⟨⟨name, .decrement⟩, by simp [LoopUpdate.Stratified, Change.operand?],
      by simp [LoopUpdate.flattenings]⟩, ⟨⟨name, .decrement⟩,
      by simp [LoopUpdate.Stratified, Change.operand?], by simp [LoopUpdate.flattenings]⟩⟩

/-- The signs of assignments and what they make of an expression. -/
def assignments : List (Operator × (Expr → Change)) :=
  [(.addAssign, .addAssign), (.subAssign, .subAssign), (.assign, .assign)]

theorem updateOf_assignment {name : String} {op : Operator} {change : Expr → Change}
    (h : (op, change) ∈ assignments) {word : List Terminal} (hword : TreeOf 8 word) :
    UpdateOf (.identifier name :: .operator op :: word) := by
  obtain ⟨e, he, -, rfl⟩ := hword
  refine ⟨⟨name, change e⟩, ?_, ?_⟩
  all_goals
    simp only [assignments, List.mem_cons, List.not_mem_nil, or_false, Prod.mk.injEq] at h
    obtain ⟨rfl, rfl⟩ | ⟨rfl, rfl⟩ | ⟨rfl, rfl⟩ := h
    all_goals simp [LoopUpdate.Stratified, Change.operand?, LoopUpdate.flattenings, he]

/-- The expression of an assignment can be completed. -/
theorem completes_of_assignment {name : String} {position : Nat} {behind : List Token}
    {op : Operator} {change : Expr → Change} (hassignment : (op, change) ∈ assignments)
    (hname : Spans tokens [.identifier name] (⟨.operator op, position⟩ :: behind))
    (h : (do
      let (e, rest) ← readExpression behind
      return (⟨name, change e⟩, rest) : Except ReadFailure (LoopUpdate × List Token)) =
        .error (problem, rest)) : Completes UpdateOf tokens rest := by
  obtain h | ⟨⟨e, behind⟩, _, h⟩ := bind_eq_error.mp h
  · exact .after (hname.trans (.cons _ (.refl behind)))
      ((readExpression_completes h).mono fun word hword => updateOf_assignment hassignment hword)
  · cases h

theorem readUpdate_completes (h : readUpdate tokens = .error (problem, rest)) :
    Completes UpdateOf tokens rest := by
  unfold readUpdate at h
  split at h
  next position behind =>
    obtain h | ⟨⟨name, behind⟩, _, h⟩ := bind_eq_error.mp h
    · obtain rfl := expectName_eq_error h
      exact .after (.cons _ (.refl _)) (.of_word [.identifier "x"] (by simp [completing])
        (updateOf_counting (by simp)).1)
    · cases h
  next position behind =>
    obtain h | ⟨⟨name, behind⟩, _, h⟩ := bind_eq_error.mp h
    · obtain rfl := expectName_eq_error h
      exact .after (.cons _ (.refl _)) (.of_word [.identifier "x"] (by simp [completing])
        (updateOf_counting (by simp)).1)
    · cases h
  next =>
    obtain h | ⟨⟨name, behind⟩, hname, h⟩ := bind_eq_error.mp h
    · obtain rfl := expectName_eq_error h
      exact .of_word [.identifier "x", .operator .increment] (by simp [completing])
        (updateOf_counting (by simp)).2
    replace hname := expectName_spans hname
    dsimp only at h
    split at h
    next => cases h
    next => cases h
    next position behind =>
      exact completes_of_assignment (by simp [assignments]) hname h
    next position behind =>
      exact completes_of_assignment (by simp [assignments]) hname h
    next position behind =>
      exact completes_of_assignment (by simp [assignments]) hname h
    next =>
      cases h
      exact .after hname (.of_word [.operator .increment] (by simp [completing])
        (updateOf_counting (by simp)).2)

theorem readTest_completes (h : readTest tokens = .error (problem, rest)) :
    Completes TestOf tokens rest := by
  unfold readTest at h
  split at h
  next => cases h
  next =>
    obtain h | ⟨⟨e, behind⟩, he, h⟩ := bind_eq_error.mp h
    · refine (readExpression_completes h).followed [.symbol .semicolon] (by simp [completing]) ?_
      rintro _ ⟨e, he, -, rfl⟩
      exact ⟨some e, by simpa using he, rfl⟩
    replace he := readExpression_reads he
    obtain h | ⟨after, _, h⟩ := bind_eq_error.mp h
    · obtain rfl := expectSymbol_eq_error h
      exact .after he.spans (.of_word [.symbol .semicolon] (by simp [completing])
        ⟨some e, by simpa using he.stratified, rfl⟩)
    · cases h

theorem bodyOf_forEach {name : String} (mode : Enumeration) {word : List Terminal}
    (h : TreeOf 8 word) : BodyOf (.identifier name :: mode.terminal :: word) := by
  obtain ⟨e, he, -, rfl⟩ := h
  exact ⟨.forEach name mode e, he, List.mem_singleton.mpr rfl⟩

theorem bodyOf_counted {name : String} {init test : List Terminal} (hinit : TreeOf 8 init)
    (htest : TestOf test) :
    BodyOf (.identifier name :: .operator .assign :: init ++ .symbol .semicolon :: test) ∧
      ∀ update, UpdateOf update →
        BodyOf (.identifier name :: .operator .assign :: init ++ .symbol .semicolon :: test ++
          update) := by
  obtain ⟨e, he, -, rfl⟩ := hinit
  obtain ⟨test, htest, rfl⟩ := htest
  constructor
  · exact ⟨.counted name e test none, ⟨he, htest, by simp⟩, by simp [LoopHeader.flattenings]⟩
  · rintro _ ⟨update, hupdate, hword⟩
    refine ⟨.counted name e test (some update), ⟨he, htest, by simpa using hupdate⟩, ?_⟩
    simpa [LoopHeader.flattenings] using hword

theorem testOf_none : TestOf [.symbol .semicolon] := ⟨none, by simp, rfl⟩

/-- A loop over a collection can be completed behind its word. -/
theorem completes_of_forEach {name : String} (mode : Enumeration) {word : Keyword}
    {position : Nat} {behind : List Token} (hmode : mode.terminal = .keyword word)
    (hname : Spans tokens [.identifier name] (⟨.keyword word, position⟩ :: behind))
    (h : (do
      let (collection, rest) ← readExpression behind
      expectEnd rest
      return LoopHeader.forEach name mode collection) = .error (problem, rest)) :
    Completes BodyOf tokens rest := by
  have hfront : Spans tokens [.identifier name, mode.terminal] behind := by
    rw [hmode]
    exact hname.trans (.cons _ (.refl behind))
  obtain h | ⟨⟨e, final⟩, he, h⟩ := bind_eq_error.mp h
  · exact .after hfront
      ((readExpression_completes h).mono fun word hword => bodyOf_forEach mode hword)
  replace he := readExpression_reads he
  obtain h | ⟨_, _, h⟩ := bind_eq_error.mp h
  · refine .after (hfront.trans he.spans) (completes_of_expectEnd h ?_)
    simpa using bodyOf_forEach mode ⟨e, he.stratified, he.tight, rfl⟩
  · cases h

theorem readHeader_completes (h : readHeader tokens = .error (problem, rest)) :
    Completes HeaderOf tokens rest := by
  obtain ⟨declaration, hdeclaration, hskipped⟩ := skipDeclaration_spans tokens
  -- the body of the header, behind a word of declaration
  suffices hbody : Completes BodyOf (skipDeclaration tokens) rest by
    refine .after hskipped (hbody.mono ?_)
    rintro word ⟨header, hheader, hword⟩
    exact ⟨header, hheader, declaration, hdeclaration, word, hword, rfl⟩
  unfold readHeader at h
  obtain h | ⟨⟨name, behind⟩, hname, h⟩ := bind_eq_error.mp h
  · obtain rfl := expectName_eq_error h
    exact .of_word [.identifier "x", .keyword .ofWord, .identifier "x"] (by simp [completing])
      (bodyOf_forEach .values (treeOf_name 8))
  replace hname := expectName_spans hname
  dsimp only at h
  split at h
  next position behind => exact completes_of_forEach .values rfl hname h
  next position behind => exact completes_of_forEach .keys rfl hname h
  next position behind =>
    have hassign := hname.trans (.cons ⟨.operator .assign, position⟩ (.refl behind))
    obtain h | ⟨⟨init, middle⟩, hinit, h⟩ := bind_eq_error.mp h
    · refine .after hassign ((readExpression_completes h).followed
        [.symbol .semicolon, .symbol .semicolon] (by simp [completing]) fun word hword => ?_)
      exact (bodyOf_counted hword testOf_none).1
    replace hinit := readExpression_reads hinit
    have htree : TreeOf 8 init.flatten := ⟨init, hinit.stratified, hinit.tight, rfl⟩
    obtain h | ⟨after, hafter, h⟩ := bind_eq_error.mp h
    · obtain rfl := expectSymbol_eq_error h
      refine .after (hassign.trans hinit.spans) (.of_word [.symbol .semicolon, .symbol .semicolon]
        (by simp [completing]) ?_)
      exact (bodyOf_counted htree testOf_none).1
    have hfront := hassign.trans (hinit.spans.trans (expectSymbol_spans hafter))
    obtain h | ⟨⟨test, last⟩, htest, h⟩ := bind_eq_error.mp h
    · refine .after hfront ((readTest_completes h).mono fun word hword => ?_)
      simpa using (bodyOf_counted htree hword).1
    obtain ⟨htestStratified, htest⟩ := readTest_sound htest
    have htestOf : TestOf (test.elim [] flatten ++ [.symbol .semicolon]) :=
      ⟨test, htestStratified, rfl⟩
    dsimp only at h htest
    split at h
    next => cases h
    next =>
      obtain h | ⟨⟨update, final⟩, hupdate, h⟩ := bind_eq_error.mp h
      · refine .after (hfront.trans htest) ((readUpdate_completes h).mono fun word hword => ?_)
        simpa using (bodyOf_counted htree htestOf).2 word hword
      obtain ⟨hupdateStratified, word, hword, hupdate⟩ := readUpdate_sound hupdate
      obtain h | ⟨_, _, h⟩ := bind_eq_error.mp h
      · refine .after ((hfront.trans htest).trans hupdate) (completes_of_expectEnd h ?_)
        simpa using (bodyOf_counted htree htestOf).2 word ⟨update, hupdateStratified, hword⟩
      · cases h
  next =>
    cases h
    exact .after hname (.of_word [.keyword .ofWord, .identifier "x"] (by simp [completing])
      (bodyOf_forEach .values (treeOf_name 8)))

end Transclude.Expr
