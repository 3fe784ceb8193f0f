import Transclude.Proofs.ReadingDepth

/-! # Reading gives back what flattens to the tokens

A stratified tree is read from every sequence of tokens that it flattens to, when
nothing follows that would make it larger. How far a lexeme reaches back tells
what it makes larger: a point or a bracket any operand, an operator the operands
of its level and below, a question mark everything but a conditional. -/

namespace Transclude.Expr

/-- The level up to which a lexeme goes on with the operand before it. -/
def reach (lexeme : Lexeme) : Nat :=
  match lexeme with
  | .symbol .dot | .symbol .openBracket => 0
  | .operator .question => 7
  | lexeme => ((binaryOp? lexeme).map BinaryOp.level).getD 8

/-- No operand of the level goes on with the tokens. -/
def Stops (level : Nat) (rest : List Token) : Prop := ∀ token ∈ rest.head?, level < reach token.lexeme

theorem Stops.mono {level level' : Nat} {rest : List Token} (h : Stops level' rest)
    (hle : level ≤ level') : Stops level rest :=
  fun token htoken => Nat.lt_of_le_of_lt hle (h token htoken)

theorem stops_nil (level : Nat) : Stops level [] := nofun

theorem stops_cons {level : Nat} {token : Token} {rest : List Token} :
    Stops level (token :: rest) ↔ level < reach token.lexeme := by
  simp [Stops]

/-- A lexeme that goes on with no operand at all stops every expression. -/
theorem stops_of_reach {lexeme : Lexeme} {position : Nat} {rest : List Token}
    (h : reach lexeme = 8) : Stops 7 (⟨lexeme, position⟩ :: rest) :=
  stops_cons.mpr (by dsimp only; omega)

theorem reach_of_binaryOp? {lexeme : Lexeme} {op : BinaryOp} (h : binaryOp? lexeme = some op) :
    reach lexeme = op.level := by
  unfold binaryOp? at h
  split at h <;> cases h <;> rfl

/-- An expression comes back from a reader with enough depth, up to a rest that stops it. -/
def ComesBack (reader : Nat → List Token → Except ReadFailure (Expr × List Token))
    (cost level : Nat) (used : List Token) (e : Expr) : Prop :=
  ∀ rest fuel, Stops level rest → 11 * (used.length + rest.length) + cost ≤ fuel →
    reader fuel (used ++ rest) = .ok (e, rest)

/-- What the readers make of the tokens of an expression, each for the trees that it can return. A
chain of operators comes back as the left operand of the operators behind it, and an operand as
the object of the accesses behind it. -/
structure ReadsBack (used : List Token) (e : Expr) : Prop where
  expr : ComesBack readExpr 10 7 used e
  binary {level} : level ≤ 6 → rank e ≤ level + 1 →
    ComesBack (fun fuel => readBinary fuel level) (level + 3) level used e
  chain {level} : level ≤ 5 → rank e ≤ level + 2 → ∀ rest fuel, Stops level rest →
    11 * (used.length + rest.length) + level + 4 ≤ fuel →
    readBinary fuel (level + 1) (used ++ rest) = readBinaryRest fuel level e rest
  unary : rank e ≤ 1 → ComesBack readUnary 2 0 used e
  access : rank e = 0 → ∀ rest fuel, 11 * (used.length + rest.length) + 1 ≤ fuel →
    (readPrimary fuel (used ++ rest) >>= fun read => readAccess fuel read.1 read.2) =
      readAccess fuel e rest

/-! ## From each reader to the next looser one -/

theorem readAccess_of_stops {fuel : Nat} {object : Expr} {rest : List Token} (h : Stops 0 rest) :
    readAccess fuel object rest = .ok (object, rest) := by
  cases fuel with
  | zero => rfl
  | succ fuel =>
      rw [readAccess.eq_def]
      dsimp only
      split
      next => simp [stops_cons, reach] at h
      next => simp [stops_cons, reach] at h
      next => rfl

theorem readBinaryRest_of_stops {fuel level : Nat} {left : Expr} {rest : List Token}
    (h : Stops (level + 1) rest) : readBinaryRest fuel level left rest = .ok (left, rest) := by
  cases fuel with
  | zero => rfl
  | succ fuel =>
      rw [readBinaryRest.eq_def]
      dsimp only
      split
      next token behind =>
        split
        next op hop =>
          rw [stops_cons, reach_of_binaryOp? hop] at h
          rw [if_neg (by omega)]
        next => rfl
      next => rfl

section

variable {used : List Token} {e : Expr}

/-- An operand that begins with no prefix operator comes back from the reader of prefix
operators. -/
theorem comesBack_unary_of_access
    (hhead : ∀ token ∈ used.head?, unaryOp? token.lexeme = none) (hne : used ≠ [])
    (h : ∀ rest fuel, 11 * (used.length + rest.length) + 1 ≤ fuel →
      (readPrimary fuel (used ++ rest) >>= fun read => readAccess fuel read.1 read.2) =
        readAccess fuel e rest) : ComesBack readUnary 2 0 used e := by
  intro rest fuel hstops hfuel
  obtain ⟨fuel, rfl⟩ : ∃ less, fuel = less + 1 := ⟨fuel - 1, by omega⟩
  cases used with
  | nil => exact absurd rfl hne
  | cons token used =>
      have hread := h rest fuel (by omega)
      rw [readAccess_of_stops hstops] at hread
      rw [List.cons_append, readUnary.eq_def]
      dsimp only
      rw [hhead token rfl]
      exact hread

theorem comesBack_binary_zero (h : ComesBack readUnary 2 0 used e) :
    ComesBack (fun fuel => readBinary fuel 0) 3 0 used e := by
  intro rest fuel hstops hfuel
  obtain ⟨fuel, rfl⟩ : ∃ less, fuel = less + 1 := ⟨fuel - 1, by omega⟩
  dsimp only
  rw [readBinary]
  exact h rest fuel hstops (by omega)

/-- A single operand is the beginning of a chain. -/
theorem chain_of_binary {level : Nat} (hlevel : level ≤ 5)
    (h : ComesBack (fun fuel => readBinary fuel level) (level + 3) level used e)
    (rest : List Token) (fuel : Nat) (hstops : Stops level rest)
    (hfuel : 11 * (used.length + rest.length) + level + 4 ≤ fuel) :
    readBinary fuel (level + 1) (used ++ rest) = readBinaryRest fuel level e rest := by
  obtain ⟨fuel, rfl⟩ : ∃ less, fuel = less + 1 := ⟨fuel - 1, by omega⟩
  have hread : readBinary fuel level (used ++ rest) = .ok (e, rest) :=
    h rest fuel hstops (by omega)
  rw [readBinary, hread]
  exact ((readers_settled fuel).binaryRest (by omega) (by omega)).symm

theorem comesBack_of_chain {level : Nat}
    (h : ∀ rest fuel, Stops level rest → 11 * (used.length + rest.length) + level + 4 ≤ fuel →
      readBinary fuel (level + 1) (used ++ rest) = readBinaryRest fuel level e rest) :
    ComesBack (fun fuel => readBinary fuel (level + 1)) (level + 4) (level + 1) used e := by
  intro rest fuel hstops hfuel
  dsimp only
  rw [h rest fuel (hstops.mono (by omega)) (by omega)]
  exact readBinaryRest_of_stops hstops

theorem comesBack_expr_of_binary
    (h : ComesBack (fun fuel => readBinary fuel 6) 9 6 used e) :
    ComesBack readExpr 10 7 used e := by
  intro rest fuel hstops hfuel
  obtain ⟨fuel, rfl⟩ : ∃ less, fuel = less + 1 := ⟨fuel - 1, by omega⟩
  have hread := h rest fuel (hstops.mono (by omega)) (by omega)
  dsimp only at hread
  rw [readExpr, hread]
  cases rest with
  | nil => rfl
  | cons token rest =>
      rw [stops_cons] at hstops
      simp only [bind, Except.bind]
      split
      next heq =>
        cases heq
        simp [reach] at hstops
      next => rfl

/-- What comes back at one level does so at all looser ones. -/
theorem comesBack_binary_mono {level level' : Nat} (hle : level ≤ level') (hlevel : level' ≤ 6)
    (h : ComesBack (fun fuel => readBinary fuel level) (level + 3) level used e) :
    ComesBack (fun fuel => readBinary fuel level') (level' + 3) level' used e := by
  induction hle with
  | refl => exact h
  | step _ ih => exact comesBack_of_chain (chain_of_binary (by omega) (ih (by omega)))

end

namespace ReadsBack

variable {used : List Token} {e : Expr}

/-- A conditional only comes back from the reader of expressions. -/
theorem of_expr (hrank : rank e = 8) (h : ComesBack readExpr 10 7 used e) : ReadsBack used e where
  expr := h
  binary := by omega
  chain := by omega
  unary := by omega
  access := by omega

/-- An expression with an operator of a level comes back as a chain of that level. -/
theorem of_chain (level : Nat) (hlevel : level ≤ 5) (hrank : rank e = level + 2)
    (h : ∀ rest fuel, Stops level rest → 11 * (used.length + rest.length) + level + 4 ≤ fuel →
      readBinary fuel (level + 1) (used ++ rest) = readBinaryRest fuel level e rest) :
    ReadsBack used e := by
  have hbinary {level'} (hlevel' : level' ≤ 6) (htight : rank e ≤ level' + 1) :
      ComesBack (fun fuel => readBinary fuel level') (level' + 3) level' used e :=
    comesBack_binary_mono (by omega) hlevel' (comesBack_of_chain h)
  refine ⟨comesBack_expr_of_binary (hbinary (Nat.le_refl 6) (by omega)), hbinary, ?_, by omega,
    by omega⟩
  intro level' hlevel' htight
  -- at a looser level the whole expression is the first operand of a chain
  by_cases heq : level' = level
  · rw [heq]
    exact h
  · exact chain_of_binary hlevel' (hbinary (by omega) (by omega))

/-- What comes back from the reader of prefix operators does so from all looser ones. -/
theorem of_unary (hrank : rank e = 1) (h : ComesBack readUnary 2 0 used e) : ReadsBack used e := by
  have hbinary {level} (hlevel : level ≤ 6) :
      ComesBack (fun fuel => readBinary fuel level) (level + 3) level used e :=
    comesBack_binary_mono (Nat.zero_le level) hlevel (comesBack_binary_zero h)
  exact ⟨comesBack_expr_of_binary (hbinary (Nat.le_refl 6)), fun hlevel _ => hbinary hlevel,
    fun hlevel _ => chain_of_binary hlevel (hbinary (by omega)), fun _ => h, by omega⟩

/-- What comes back with its accesses does so from all readers. -/
theorem of_access
    (hhead : ∀ token ∈ used.head?, unaryOp? token.lexeme = none) (hne : used ≠ [])
    (h : ∀ rest fuel, 11 * (used.length + rest.length) + 1 ≤ fuel →
      (readPrimary fuel (used ++ rest) >>= fun read => readAccess fuel read.1 read.2) =
        readAccess fuel e rest) : ReadsBack used e := by
  have hunary := comesBack_unary_of_access hhead hne h
  have hbinary {level} (hlevel : level ≤ 6) :
      ComesBack (fun fuel => readBinary fuel level) (level + 3) level used e :=
    comesBack_binary_mono (Nat.zero_le level) hlevel (comesBack_binary_zero hunary)
  exact ⟨comesBack_expr_of_binary (hbinary (Nat.le_refl 6)), fun hlevel _ => hbinary hlevel,
    fun hlevel _ => chain_of_binary hlevel (hbinary (by omega)), fun _ => hunary, fun _ => h⟩

end ReadsBack

/-! ## The tokens of each kind of tree -/

theorem terminals_eq_cons {tokens : List Token} {terminal : Terminal} {word : List Terminal} :
    terminals tokens = terminal :: word ↔
      ∃ token rest, tokens = token :: rest ∧ token.lexeme.terminal = terminal ∧
        terminals rest = word :=
  List.map_eq_cons_iff

theorem terminals_eq_append {tokens : List Token} {front back : List Terminal} :
    terminals tokens = front ++ back ↔
      ∃ used rest, tokens = used ++ rest ∧ terminals used = front ∧ terminals rest = back :=
  List.map_eq_append_iff

/-- What is mapped to a word around a middle is a word around one that is mapped there. -/
theorem map_eq_around {α β : Type} {f : α → β} {whole : List α} {front back : List β} {middle : β}
    (h : whole.map f = front ++ middle :: back) :
    ∃ left a right, whole = left ++ a :: right ∧ left.map f = front ∧ f a = middle ∧
      right.map f = back := by
  obtain ⟨left, rest, rfl, hleft, hrest⟩ := List.map_eq_append_iff.mp h
  obtain ⟨a, right, rfl, ha, hright⟩ := List.map_eq_cons_iff.mp hrest
  exact ⟨left, a, right, rfl, hleft, ha, hright⟩

/-- The tokens of an operator between operands are those of the operands around that of the
operator. -/
theorem terminals_eq_around {tokens : List Token} {terminal : Terminal}
    {front back : List Terminal} (h : terminals tokens = front ++ terminal :: back) :
    ∃ left token right, tokens = left ++ token :: right ∧ terminals left = front ∧
      token.lexeme.terminal = terminal ∧ terminals right = back :=
  map_eq_around h

/-- The tokens between two symbols. -/
theorem terminals_eq_between {tokens : List Token} {opening closing : Symbol}
    {inner : List Terminal}
    (h : terminals tokens = .symbol opening :: inner ++ [.symbol closing]) :
    ∃ position middle position', tokens = ⟨.symbol opening, position⟩ ::
      (middle ++ [⟨.symbol closing, position'⟩]) ∧ terminals middle = inner := by
  obtain ⟨⟨_, position⟩, back, rfl, hopening, hback⟩ := terminals_eq_cons.mp h
  obtain ⟨middle, ⟨_, position'⟩, _, rfl, hmiddle, hclosing, hlast⟩ := terminals_eq_around hback
  obtain rfl := terminal_eq_symbol.mp hopening
  obtain rfl := terminal_eq_symbol.mp hclosing
  obtain rfl := List.map_eq_nil_iff.mp hlast
  exact ⟨position, middle, position', rfl, hmiddle⟩

/-- What an expression may begin with: no closing bracket and no semicolon, and when it has no
operator outside of brackets no prefix operator either. -/
theorem flatten_head (e : Expr) (h : e.Stratified) : ∃ terminal word,
    e.flatten = terminal :: word ∧ terminal ≠ .symbol .closeBracket ∧
      terminal ≠ .symbol .semicolon ∧ (rank e = 0 → ∀ op : UnaryOp, terminal ≠ op.terminal) := by
  induction e using Expr.induction with
  | literal value =>
      obtain ⟨lexeme, hlexeme⟩ := h
      rw [flatten, literalTerminal?_of_literal? hlexeme]
      refine ⟨lexeme.terminal, [], rfl, ?_⟩
      unfold literal? at hlexeme
      split at hlexeme <;> cases hlexeme
      all_goals
        refine ⟨by simp, by simp, ?_⟩
        intro _ op
        cases op <;> simp [UnaryOp.terminal]
  | array items =>
      refine ⟨_, _, rfl, by simp, by simp, ?_⟩
      intro _ op
      cases op <;> simp [UnaryOp.terminal]
  | identifier name =>
      refine ⟨_, _, rfl, by simp, by simp, ?_⟩
      intro _ op
      cases op <;> simp [UnaryOp.terminal]
  | member object name ih =>
      obtain ⟨terminal, word, heq, hbracket, hsemicolon, hunary⟩ := ih h.2
      exact ⟨terminal, _, by rw [flatten, heq]; rfl, hbracket, hsemicolon, fun _ => hunary h.1⟩
  | index object key ih _ =>
      obtain ⟨terminal, word, heq, hbracket, hsemicolon, hunary⟩ := ih h.2.1
      exact ⟨terminal, _, by rw [flatten, heq]; rfl, hbracket, hsemicolon, fun _ => hunary h.1⟩
  | unary op operand _ =>
      refine ⟨op.terminal, _, rfl, ?_, ?_, by simp [rank]⟩
      all_goals cases op <;> simp [UnaryOp.terminal]
  | binary op left right ih _ =>
      obtain ⟨terminal, word, heq, hbracket, hsemicolon, _⟩ := ih h.2.2.1
      exact ⟨terminal, _, by rw [flatten, heq]; rfl, hbracket, hsemicolon, by simp [rank]⟩
  | conditional test consequent alternate ih _ _ =>
      obtain ⟨terminal, word, heq, hbracket, hsemicolon, _⟩ := ih h.2.1
      exact ⟨terminal, _, by rw [flatten, heq]; rfl, hbracket, hsemicolon, by simp [rank]⟩
  | group inner _ =>
      refine ⟨_, _, rfl, by simp, by simp, ?_⟩
      intro _ op
      cases op <;> simp [UnaryOp.terminal]

/-- No list begins with a closing bracket behind its opening one, unless it is empty. -/
theorem flattenItems_head (item : Expr) (rest : List Expr) (h : item.Stratified) :
    ∃ terminal word, flattenItems (item :: rest) = terminal :: word ∧
      terminal ≠ .symbol .closeBracket := by
  obtain ⟨terminal, word, heq, hbracket, _, _⟩ := flatten_head item h
  cases rest with
  | nil => exact ⟨terminal, word, heq, hbracket⟩
  | cons next rest =>
      rw [flattenItems_cons item (by simp), heq]
      exact ⟨terminal, _, rfl, hbracket⟩

/-- An operand with its accesses comes back from all readers when it comes back as their object. -/
theorem ReadsBack.of_object {used : List Token} {e : Expr} (hrank : rank e = 0)
    (hstratified : e.Stratified) (hused : terminals used = e.flatten)
    (h : ∀ rest fuel, 11 * (used.length + rest.length) + 1 ≤ fuel →
      (readPrimary fuel (used ++ rest) >>= fun read => readAccess fuel read.1 read.2) =
        readAccess fuel e rest) : ReadsBack used e := by
  obtain ⟨terminal, word, heq, _, _, hunary⟩ := flatten_head e hstratified
  rw [heq] at hused
  obtain ⟨token, more, rfl, htoken, _⟩ := terminals_eq_cons.mp hused
  refine .of_access ?_ (by simp) h
  rintro _ ⟨⟩
  cases hop : unaryOp? token.lexeme with
  | none => rfl
  | some op => exact absurd (htoken.symm.trans (unaryOp?_eq_some.mp hop)) (hunary hrank op)

theorem literal?_congr {lexeme lexeme' : Lexeme} (h : lexeme.terminal = lexeme'.terminal) :
    literal? lexeme = literal? lexeme' := by
  cases lexeme with
  | number digits => cases lexeme' <;> simp_all [literal?]
  | string content => rw [terminal_eq_string.mp h.symm]
  | keyword word => rw [terminal_eq_keyword.mp h.symm]
  | identifier name => rw [terminal_eq_identifier.mp h.symm]
  | operator op => rw [terminal_eq_operator.mp h.symm]
  | symbol mark => rw [terminal_eq_symbol.mp h.symm]

theorem propertyName?_of_terminal {lexeme : Lexeme} {name : String}
    (h : lexeme.terminal = nameTerminal name) : propertyName? lexeme = some name := by
  unfold nameTerminal at h
  split at h
  next word hword =>
    rw [terminal_eq_keyword.mp h]
    exact congrArg some (Keyword.spelling_of_ofWord? hword)
  next => rw [terminal_eq_identifier.mp h]; rfl

theorem expectSymbol_self (symbol : Symbol) (problem : SyntaxProblem) (position : Nat)
    (rest : List Token) :
    expectSymbol symbol problem (⟨.symbol symbol, position⟩ :: rest) = .ok rest :=
  if_pos rfl

theorem readAccess_settled {fuel : Nat} {object : Expr} {rest : List Token}
    (h : 11 * rest.length + 1 ≤ fuel) :
    readAccess fuel object rest = readAccess (fuel + 1) object rest :=
  ((readers_settled fuel).access h).symm

end Transclude.Expr
