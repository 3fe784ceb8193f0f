import Transclude.Proofs.Flattening
import Transclude.Proofs.Outcome

/-! # Reading is sound -/

namespace Transclude.Expr

/-- No identifier among the tokens is spelled like a keyword. -/
def ProperTokens (tokens : List Token) : Prop := ∀ token ∈ tokens, token.lexeme.Proper

/-- The tokens begin with those of a word, and a rest follows. Only of proper tokens is the word
known, since a property name does not tell an identifier from a keyword. -/
def Spans (tokens : List Token) (word : List Terminal) (rest : List Token) : Prop :=
  ∃ used, tokens = used ++ rest ∧ (ProperTokens used → terminals used = word)

namespace Spans

variable {tokens middle rest : List Token} {front back word : List Terminal}

theorem refl (tokens : List Token) : Spans tokens [] tokens := ⟨[], rfl, fun _ => rfl⟩

theorem cons_of_proper {token : Token} {terminal : Terminal}
    (htoken : token.lexeme.Proper → token.lexeme.terminal = terminal)
    (h : Spans tokens word rest) : Spans (token :: tokens) (terminal :: word) rest := by
  obtain ⟨used, rfl, hused⟩ := h
  refine ⟨token :: used, rfl, fun hproper => ?_⟩
  rw [terminals_cons, htoken (hproper token (by simp)),
    hused fun other hother => hproper other (by simp [hother])]

theorem cons (token : Token) (h : Spans tokens word rest) :
    Spans (token :: tokens) (token.lexeme.terminal :: word) rest :=
  cons_of_proper (fun _ => rfl) h

theorem trans (hfront : Spans tokens front middle) (hback : Spans middle back rest) :
    Spans tokens (front ++ back) rest := by
  obtain ⟨used, rfl, hused⟩ := hfront
  obtain ⟨more, rfl, hmore⟩ := hback
  refine ⟨used ++ more, by simp, fun hproper => ?_⟩
  rw [terminals_append, hused fun token htoken => hproper token (by simp [htoken]),
    hmore fun token htoken => hproper token (by simp [htoken])]

theorem length_le (h : Spans tokens word rest) : rest.length ≤ tokens.length := by
  obtain ⟨used, rfl, _⟩ := h
  simp

/-- When nothing is left, the word is that of all tokens. -/
theorem terminals_eq (h : Spans tokens word []) (hproper : ProperTokens tokens) :
    terminals tokens = word := by
  obtain ⟨used, rfl, hused⟩ := h
  rw [List.append_nil] at hproper ⊢
  exact hused hproper

end Spans

/-! ## What single lexemes are -/

@[simp] theorem terminal_eq_string {lexeme : Lexeme} {content : String} :
    lexeme.terminal = .string content ↔ lexeme = .string content := by
  cases lexeme <;> simp

@[simp] theorem terminal_eq_keyword {lexeme : Lexeme} {word : Keyword} :
    lexeme.terminal = .keyword word ↔ lexeme = .keyword word := by
  cases lexeme <;> simp

@[simp] theorem terminal_eq_identifier {lexeme : Lexeme} {name : String} :
    lexeme.terminal = .identifier name ↔ lexeme = .identifier name := by
  cases lexeme <;> simp

@[simp] theorem terminal_eq_operator {lexeme : Lexeme} {op : Operator} :
    lexeme.terminal = .operator op ↔ lexeme = .operator op := by
  cases lexeme <;> simp

@[simp] theorem terminal_eq_symbol {lexeme : Lexeme} {mark : Symbol} :
    lexeme.terminal = .symbol mark ↔ lexeme = .symbol mark := by
  cases lexeme <;> simp

theorem binaryOp?_eq_some {lexeme : Lexeme} {op : BinaryOp} :
    binaryOp? lexeme = some op ↔ lexeme.terminal = op.terminal := by
  constructor
  · intro h
    unfold binaryOp? at h
    split at h <;> cases h <;> rfl
  · intro h
    cases op <;> simp only [BinaryOp.terminal, terminal_eq_operator, terminal_eq_keyword] at h <;>
      subst h <;> rfl

theorem unaryOp?_eq_some {lexeme : Lexeme} {op : UnaryOp} :
    unaryOp? lexeme = some op ↔ lexeme.terminal = op.terminal := by
  constructor
  · intro h
    unfold unaryOp? at h
    split at h <;> cases h <;> rfl
  · intro h
    cases op <;> simp only [UnaryOp.terminal, terminal_eq_operator, terminal_eq_keyword] at h <;>
      subst h <;> rfl

theorem terminal_of_propertyName? {lexeme : Lexeme} {name : String} (hproper : lexeme.Proper)
    (h : propertyName? lexeme = some name) : lexeme.terminal = nameTerminal name := by
  unfold propertyName? at h
  split at h
  next =>
    cases h
    rw [nameTerminal, show Keyword.ofWord? _ = none from hproper, Lexeme.terminal]
  next word =>
    cases h
    rw [nameTerminal, Keyword.ofWord?_spelling, Lexeme.terminal]
  next => cases h

theorem literalTerminal?_of_literal? {lexeme : Lexeme} {value : Scalar}
    (h : literal? lexeme = some value) : literalTerminal? value = some lexeme.terminal := by
  unfold literal? at h
  split at h <;> cases h <;> rfl

/-! ## What a reader returns -/

/-- An expression has been read from the front of the tokens: it is stratified, binds as tightly as
asked, and flattens to what has been taken. -/
structure Reads (tokens : List Token) (bound : Nat) (e : Expr) (rest : List Token) : Prop where
  spans : Spans tokens e.flatten rest
  shorter : rest.length < tokens.length
  tight : rank e ≤ bound
  stratified : e.Stratified

/-- What is read behind a left operand is added to it. -/
structure Extends (left : Expr) (tokens : List Token) (bound : Nat) (e : Expr)
    (rest : List Token) : Prop where
  spans : ∃ word, Spans tokens word rest ∧ e.flatten = left.flatten ++ word
  tight : rank e ≤ bound
  stratified : e.Stratified

/-- The readers with a given depth are sound. -/
structure ReadersSound (fuel : Nat) : Prop where
  expr {tokens e rest} : readExpr fuel tokens = .ok (e, rest) → Reads tokens 8 e rest
  binary {level tokens e rest} : readBinary fuel level tokens = .ok (e, rest) →
    Reads tokens (level + 1) e rest
  binaryRest {level left tokens e rest} : left.Stratified → rank left ≤ level + 2 →
    readBinaryRest fuel level left tokens = .ok (e, rest) →
    Extends left tokens (level + 2) e rest
  unary {tokens e rest} : readUnary fuel tokens = .ok (e, rest) → Reads tokens 1 e rest
  access {object tokens e rest} : object.Stratified → rank object = 0 →
    readAccess fuel object tokens = .ok (e, rest) → Extends object tokens 0 e rest
  primary {tokens e rest} : readPrimary fuel tokens = .ok (e, rest) → Reads tokens 0 e rest
  items {tokens items rest} : readItems fuel tokens = .ok (items, rest) →
    Spans tokens (flattenItems items) rest ∧ rest.length < tokens.length ∧
      StratifiedItems items ∧ items ≠ []

namespace Extends

variable {left e : Expr} {tokens rest : List Token} {bound : Nat}

theorem refl (h : left.Stratified) (htight : rank left ≤ bound) :
    Extends left tokens bound left tokens :=
  ⟨⟨[], .refl tokens, by simp⟩, htight, h⟩

theorem length_le (h : Extends left tokens bound e rest) : rest.length ≤ tokens.length := by
  obtain ⟨⟨word, hspans, _⟩, _, _⟩ := h
  exact hspans.length_le

/-- Reading on behind a larger left operand. -/
theorem of_spans {whole : Expr} {middle : List Token} {word : List Terminal}
    (h : Extends whole middle bound e rest) (hspans : Spans tokens word middle)
    (hflatten : whole.flatten = left.flatten ++ word) : Extends left tokens bound e rest := by
  obtain ⟨⟨more, hmore, heq⟩, htight, hstratified⟩ := h
  refine ⟨⟨word ++ more, hspans.trans hmore, ?_⟩, htight, hstratified⟩
  rw [heq, hflatten, List.append_assoc]

end Extends

theorem Reads.extend {left e : Expr} {tokens middle rest : List Token} {bound bound' : Nat}
    (hleft : Reads tokens bound left middle) (h : Extends left middle bound' e rest) :
    Reads tokens bound' e rest := by
  obtain ⟨⟨word, hspans, heq⟩, htight, hstratified⟩ := h
  have hshorter := hleft.shorter
  have hle := hspans.length_le
  refine ⟨?_, by omega, htight, hstratified⟩
  rw [heq]
  exact hleft.spans.trans hspans

theorem expectSymbol_spans {symbol : Symbol} {problem : SyntaxProblem} {tokens rest : List Token}
    (h : expectSymbol symbol problem tokens = .ok rest) : Spans tokens [.symbol symbol] rest := by
  unfold expectSymbol at h
  split at h
  next mark position after =>
    split at h
    next heq =>
      cases h
      subst heq
      exact .cons _ (.refl _)
    next => cases h
  next => cases h

namespace ReadersSound

variable {fuel : Nat} {tokens rest : List Token} {e : Expr}

theorem expr_succ (h : ReadersSound fuel)
    (hread : readExpr (fuel + 1) tokens = .ok (e, rest)) : Reads tokens 8 e rest := by
  rw [readExpr] at hread
  obtain ⟨⟨test, middle⟩, htest, hread⟩ := bind_eq_ok.mp hread
  replace htest := h.binary htest
  have htestShorter := htest.shorter
  dsimp only at hread
  split at hread
  next position behind =>
    obtain ⟨⟨consequent, middle⟩, hconsequent, hread⟩ := bind_eq_ok.mp hread
    replace hconsequent := h.expr hconsequent
    have hconsequentShorter := hconsequent.shorter
    dsimp only at hread
    split at hread
    next position after =>
      obtain ⟨⟨alternate, final⟩, halternate, hread⟩ := bind_eq_ok.mp hread
      replace halternate := h.expr halternate
      have halternateShorter := halternate.shorter
      cases hread
      simp only [List.length_cons] at htestShorter hconsequentShorter
      refine ⟨?_, by dsimp only; omega, Nat.le_refl 8, htest.tight, htest.stratified,
        hconsequent.stratified, halternate.stratified⟩
      rw [flatten, List.append_assoc]
      exact htest.spans.trans (.cons _ (hconsequent.spans.trans (.cons _ halternate.spans)))
    next => cases hread
  next =>
    cases hread
    exact ⟨htest.spans, htest.shorter, by have := htest.tight; omega, htest.stratified⟩

theorem binary_succ (h : ReadersSound fuel) {level : Nat}
    (hread : readBinary (fuel + 1) level tokens = .ok (e, rest)) :
    Reads tokens (level + 1) e rest := by
  cases level with
  | zero =>
      rw [readBinary] at hread
      exact h.unary hread
  | succ level =>
      rw [readBinary] at hread
      obtain ⟨⟨left, middle⟩, hleft, hread⟩ := bind_eq_ok.mp hread
      replace hleft := h.binary hleft
      exact hleft.extend (h.binaryRest hleft.stratified (by have := hleft.tight; omega) hread)

theorem binaryRest_succ (h : ReadersSound fuel) {level : Nat} {left : Expr}
    (hleft : left.Stratified) (htight : rank left ≤ level + 2)
    (hread : readBinaryRest (fuel + 1) level left tokens = .ok (e, rest)) :
    Extends left tokens (level + 2) e rest := by
  rw [readBinaryRest.eq_def] at hread
  dsimp only at hread
  split at hread
  next token behind =>
    split at hread
    next op hop =>
      split at hread
      next hlevel =>
        obtain ⟨⟨right, middle⟩, hright, hread⟩ := bind_eq_ok.mp hread
        replace hright := h.binary hright
        have hwhole : (Expr.binary op left right).Stratified :=
          ⟨by omega, by have := hright.tight; omega, hleft, hright.stratified⟩
        have hextends := h.binaryRest hwhole (by simp only [rank]; omega) hread
        refine hextends.of_spans (.cons token hright.spans) ?_
        rw [flatten, binaryOp?_eq_some.mp hop]
      next => cases hread; exact .refl hleft htight
    next => cases hread; exact .refl hleft htight
  next => cases hread; exact .refl hleft htight

theorem unary_succ (h : ReadersSound fuel)
    (hread : readUnary (fuel + 1) tokens = .ok (e, rest)) : Reads tokens 1 e rest := by
  rw [readUnary.eq_def] at hread
  dsimp only at hread
  split at hread
  next token behind =>
    split at hread
    next op hop =>
      obtain ⟨⟨operand, middle⟩, hoperand, hread⟩ := bind_eq_ok.mp hread
      replace hoperand := h.unary hoperand
      cases hread
      refine ⟨?_, Nat.lt_succ_of_lt hoperand.shorter, Nat.le_refl 1, hoperand.tight,
        hoperand.stratified⟩
      rw [flatten, ← unaryOp?_eq_some.mp hop]
      exact .cons token hoperand.spans
    next =>
      obtain ⟨⟨object, middle⟩, hobject, hread⟩ := bind_eq_ok.mp hread
      replace hobject := h.primary hobject
      have hwhole := hobject.extend
        (h.access hobject.stratified (Nat.le_zero.mp hobject.tight) hread)
      exact ⟨hwhole.spans, hwhole.shorter, by have := hwhole.tight; omega, hwhole.stratified⟩
  next => cases hread

theorem access_succ (h : ReadersSound fuel) {object : Expr} (hobject : object.Stratified)
    (hrank : rank object = 0) (hread : readAccess (fuel + 1) object tokens = .ok (e, rest)) :
    Extends object tokens 0 e rest := by
  rw [readAccess.eq_def] at hread
  dsimp only at hread
  split at hread
  next position behind =>
    split at hread
    next token after =>
      split at hread
      next name hname =>
        have hextends := h.access
          (show (Expr.member object name).Stratified from ⟨hrank, hobject⟩) rfl hread
        have hspans : Spans (⟨.symbol .dot, position⟩ :: token :: after)
            [.symbol .dot, nameTerminal name] after :=
          .cons _ (.cons_of_proper (fun hproper => terminal_of_propertyName? hproper hname)
            (.refl after))
        exact hextends.of_spans hspans rfl
      next => cases hread
    next => cases hread
  next position behind =>
    obtain ⟨⟨key, middle⟩, hkey, hread⟩ := bind_eq_ok.mp hread
    replace hkey := h.expr hkey
    obtain ⟨after, hafter, hread⟩ := bind_eq_ok.mp hread
    replace hafter := hkey.spans.trans (expectSymbol_spans hafter)
    have hextends := h.access
      (show (Expr.index object key).Stratified from ⟨hrank, hobject, hkey.stratified⟩) rfl hread
    refine hextends.of_spans (.cons _ hafter) ?_
    simp [flatten]
  next => cases hread; exact .refl hobject (by omega)

theorem items_succ (h : ReadersSound fuel) {items : List Expr}
    (hread : readItems (fuel + 1) tokens = .ok (items, rest)) :
    Spans tokens (flattenItems items) rest ∧ rest.length < tokens.length ∧
      StratifiedItems items ∧ items ≠ [] := by
  rw [readItems] at hread
  obtain ⟨⟨item, middle⟩, hitem, hread⟩ := bind_eq_ok.mp hread
  replace hitem := h.expr hitem
  have hshorter := hitem.shorter
  dsimp only at hread
  split at hread
  next position behind =>
    obtain ⟨⟨more, final⟩, hmore, hread⟩ := bind_eq_ok.mp hread
    obtain ⟨hspans, hmoreShorter, hstratified, hne⟩ := h.items hmore
    cases hread
    rw [List.length_cons] at hshorter
    refine ⟨?_, by dsimp only; omega, ⟨hitem.stratified, hstratified⟩, by simp⟩
    rw [flattenItems_cons item hne]
    exact hitem.spans.trans (.cons _ hspans)
  next =>
    cases hread
    exact ⟨hitem.spans, hshorter, ⟨hitem.stratified, trivial⟩, by simp⟩

theorem primary_succ (h : ReadersSound fuel)
    (hread : readPrimary (fuel + 1) tokens = .ok (e, rest)) : Reads tokens 0 e rest := by
  rw [readPrimary.eq_def] at hread
  dsimp only at hread
  split at hread
  next name position behind =>
    cases hread
    exact ⟨.cons _ (.refl _), by simp, Nat.le_refl 0, trivial⟩
  next position behind =>
    obtain ⟨⟨inner, middle⟩, hinner, hread⟩ := bind_eq_ok.mp hread
    replace hinner := h.expr hinner
    obtain ⟨after, hafter, hread⟩ := bind_eq_ok.mp hread
    cases hread
    have hspans := hinner.spans.trans (expectSymbol_spans hafter)
    exact ⟨.cons _ hspans, Nat.lt_succ_of_le hspans.length_le, Nat.le_refl 0, hinner.stratified⟩
  next position position' behind =>
    cases hread
    exact ⟨.cons _ (.cons _ (.refl _)), by simp only [List.length_cons]; omega, Nat.le_refl 0,
      trivial⟩
  next position behind hnot =>
    obtain ⟨⟨items, middle⟩, hitems, hread⟩ := bind_eq_ok.mp hread
    obtain ⟨hspans, _, hstratified, _⟩ := h.items hitems
    obtain ⟨after, hafter, hread⟩ := bind_eq_ok.mp hread
    cases hread
    replace hspans := hspans.trans (expectSymbol_spans hafter)
    exact ⟨.cons _ hspans, Nat.lt_succ_of_le hspans.length_le, Nat.le_refl 0, hstratified⟩
  next token behind _ _ _ _ =>
    split at hread
    next value hvalue =>
      cases hread
      refine ⟨?_, by simp, Nat.le_refl 0, ⟨token.lexeme, hvalue⟩⟩
      rw [flatten, literalTerminal?_of_literal? hvalue]
      exact .cons token (.refl _)
    next => cases hread
  next => cases hread

end ReadersSound

/-- Whatever depth they are given, the readers return only what the tokens say. -/
theorem readers_sound (fuel : Nat) : ReadersSound fuel := by
  induction fuel with
  | zero =>
      exact {
        expr := nofun
        binary := nofun
        binaryRest := fun hleft htight hread => by
          cases hread
          exact .refl hleft htight
        unary := nofun
        access := fun hobject hrank hread => by
          cases hread
          exact .refl hobject (by omega)
        primary := nofun
        items := nofun }
  | succ fuel ih =>
      exact ⟨ih.expr_succ, ih.binary_succ, ih.binaryRest_succ, ih.unary_succ, ih.access_succ,
        ih.primary_succ, ih.items_succ⟩

end Transclude.Expr
