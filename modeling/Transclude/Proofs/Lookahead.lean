import Mathlib
import Transclude.Proofs.Parsing

/-! # How far readers look

A reader takes tokens from the front and looks at no more than the token behind them.
So it does the same on other tokens as long as these agree with the first ones up to
there, wherever they stand: it returns the same, or fails for the same reason. -/

namespace Transclude.Expr

variable {α β : Type}

/-- The tokens in front of which a reader stops, with a result or with a failure. -/
def remaining : Except ReadFailure (α × List Token) → List Token
  | .ok (_, rest) => rest
  | .error (_, rest) => rest

/-- The same outcome in front of other tokens. -/
def infrontOf (rest : List Token) :
    Except ReadFailure (α × List Token) → Except ReadFailure (α × List Token)
  | .ok (a, _) => .ok (a, rest)
  | .error (problem, _) => .error (problem, rest)

/-- A reader looks at no token behind the one in front of which it stops, and at no position. -/
structure LooksOneAhead (read : List Token → Except ReadFailure (α × List Token)) : Prop where
  suffix (tokens : List Token) : remaining (read tokens) <:+ tokens
  congr {front back front' back' : List Token} {token token' : Token}
    (hstop : remaining (read (front ++ token :: back)) = token :: back)
    (hfront : front'.map Token.lexeme = front.map Token.lexeme)
    (htoken : token'.lexeme = token.lexeme) :
    read (front' ++ token' :: back') =
      infrontOf (token' :: back') (read (front ++ token :: back))

namespace LooksOneAhead

/-- The reader may stop earlier. -/
theorem congr_append {read : List Token → Except ReadFailure (α × List Token)}
    (h : LooksOneAhead read) {front middle back front' middle' back' : List Token}
    {token token' : Token}
    (hstop : remaining (read (front ++ (middle ++ token :: back))) = middle ++ token :: back)
    (hfront : front'.map Token.lexeme = front.map Token.lexeme)
    (hmiddle : middle'.map Token.lexeme = middle.map Token.lexeme)
    (htoken : token'.lexeme = token.lexeme) :
    read (front' ++ (middle' ++ token' :: back')) =
      infrontOf (middle' ++ token' :: back') (read (front ++ (middle ++ token :: back))) := by
  cases middle with
  | nil =>
      obtain rfl := List.map_eq_nil_iff.mp hmiddle
      exact h.congr hstop hfront htoken
  | cons first more =>
      obtain ⟨first', more', rfl, hfirst, hmore⟩ := List.map_eq_cons_iff.mp hmiddle
      exact h.congr hstop hfront hfirst

/-- Returning without a look at the tokens. -/
theorem ok (a : α) : LooksOneAhead fun tokens => .ok (a, tokens) where
  suffix := List.suffix_refl
  congr hstop hfront _ := by
    have hnil := List.append_left_eq_self.mp hstop
    rw [hnil, List.map_nil] at hfront
    rw [List.map_eq_nil_iff.mp hfront]
    rfl

/-- Failing at the first token for a reason that may depend on it. -/
theorem error {read : List Token → Except ReadFailure (α × List Token)}
    (problem : Option Lexeme → SyntaxProblem)
    (h : ∀ tokens, read tokens = .error (problem (tokens.head?.map Token.lexeme), tokens)) :
    LooksOneAhead read where
  suffix tokens := by
    rw [h]
    exact List.suffix_refl tokens
  congr hstop hfront htoken := by
    rw [h] at hstop
    have hnil := List.append_left_eq_self.mp hstop
    rw [hnil, List.map_nil] at hfront
    rw [hnil, List.map_eq_nil_iff.mp hfront, h, h]
    simp [infrontOf, htoken]

/-- Reading on with what has been read. -/
theorem bind {first : List Token → Except ReadFailure (α × List Token)} (h : LooksOneAhead first)
    {next : α × List Token → Except ReadFailure (β × List Token)}
    (hnext : ∀ a, LooksOneAhead fun rest => next (a, rest)) :
    LooksOneAhead fun tokens => first tokens >>= next where
  suffix tokens := by
    have hsuffix := h.suffix tokens
    cases hfirst : first tokens with
    | error failure => simpa [hfirst, remaining] using hsuffix
    | ok result =>
        rw [hfirst] at hsuffix
        exact ((hnext result.1).suffix result.2).trans hsuffix
  congr {front back front' back' token token'} hstop hfront htoken := by
    cases hfirst : first (front ++ token :: back) with
    | error failure =>
        rw [hfirst] at hstop
        have hcongr : first (front' ++ token' :: back') = _ :=
          h.congr (by rw [hfirst]; exact hstop) hfront htoken
        rw [hcongr, hfirst]
        rfl
    | ok result =>
        obtain ⟨a, rest⟩ := result
        obtain ⟨used, hused⟩ := h.suffix (front ++ token :: back)
        obtain ⟨middle, hmiddle⟩ := (hnext a).suffix rest
        simp only [hfirst] at hstop hused
        change remaining (next (a, rest)) = token :: back at hstop
        change used ++ rest = front ++ token :: back at hused
        rw [hstop] at hmiddle
        subst hmiddle
        -- the first reader stops in front of the middle, which the second one takes
        obtain rfl : used ++ middle = front :=
          List.append_cancel_right ((List.append_assoc used middle _).trans hused)
        rw [List.map_append] at hfront
        obtain ⟨used', middle', rfl, hused', hmiddle'⟩ := List.map_eq_append_iff.mp hfront
        rw [List.append_assoc] at hfirst ⊢
        have hcongr : first (used' ++ (middle' ++ token' :: back')) = _ :=
          h.congr_append (by rw [hfirst]; rfl) hused' hmiddle' htoken
        rw [hcongr, hfirst]
        exact (hnext a).congr hstop hmiddle' htoken

/-- How a reader goes on at a first token: it takes it or leaves it. -/
inductive GoesOn (read : List Token → Except ReadFailure (α × List Token)) (lexeme : Lexeme) : Prop
  | taken {next : List Token → Except ReadFailure (α × List Token)} (hnext : LooksOneAhead next)
    (h : ∀ position rest, read (⟨lexeme, position⟩ :: rest) = next rest) : GoesOn read lexeme
  | left {stay : List Token → Except ReadFailure (α × List Token)} (hstay : LooksOneAhead stay)
    (h : ∀ position rest, read (⟨lexeme, position⟩ :: rest) = stay (⟨lexeme, position⟩ :: rest)) :
    GoesOn read lexeme

/-- A reader may decide by the first token. -/
theorem of_head {read : List Token → Except ReadFailure (α × List Token)}
    (hnil : remaining (read []) = []) (h : ∀ lexeme, GoesOn read lexeme) : LooksOneAhead read where
  suffix tokens := by
    cases tokens with
    | nil => rw [hnil]
    | cons token rest =>
        cases h token.lexeme with
        | taken hnext heq =>
            have hsuffix := (hnext.suffix rest).trans (List.suffix_cons token rest)
            rwa [← heq token.position] at hsuffix
        | left hstay heq =>
            rw [heq token.position]
            exact hstay.suffix _
  congr {front back front' back' token token'} hstop hfront htoken := by
    cases front with
    | nil =>
        obtain rfl := List.map_eq_nil_iff.mp hfront
        obtain ⟨lexeme, position⟩ := token
        obtain ⟨lexeme', position'⟩ := token'
        obtain rfl : lexeme' = lexeme := htoken
        cases h lexeme' with
        | taken hnext heq =>
            -- what has been taken is not in front of the reader any more
            have hlength := (hnext.suffix back).length_le
            rw [← heq position, List.nil_append] at *
            rw [hstop, List.length_cons] at hlength
            omega
        | left hstay heq =>
            rw [List.nil_append, heq] at hstop
            rw [List.nil_append, List.nil_append, heq, heq]
            exact @hstay.congr [] back [] back' _ _ hstop rfl rfl
    | cons first front =>
        obtain ⟨first', front', rfl, hfirst, hrest⟩ := List.map_eq_cons_iff.mp hfront
        obtain ⟨lexeme, position⟩ := first
        obtain ⟨lexeme', position'⟩ := first'
        obtain rfl : lexeme' = lexeme := hfirst
        rw [List.cons_append] at hstop
        rw [List.cons_append, List.cons_append]
        cases h lexeme' with
        | taken hnext heq =>
            rw [heq] at hstop
            rw [heq, heq]
            exact hnext.congr hstop hrest htoken
        | left hstay heq =>
            rw [heq, ← List.cons_append] at hstop
            rw [heq, heq, ← List.cons_append, ← List.cons_append]
            exact hstay.congr hstop hfront htoken

theorem expectSymbol {symbol : Symbol} {problem : SyntaxProblem}
    {next : List Token → Except ReadFailure (α × List Token)} (h : LooksOneAhead next) :
    LooksOneAhead fun tokens => expectSymbol symbol problem tokens >>= next := by
  refine .of_head rfl fun lexeme => ?_
  by_cases hsymbol : lexeme = .symbol symbol
  · subst hsymbol
    refine .taken h fun position rest => ?_
    rw [Expr.expectSymbol, if_pos rfl]
    rfl
  · refine .left (.error (fun _ => problem) fun _ => rfl) fun position rest => ?_
    have hfails : Expr.expectSymbol symbol problem (⟨lexeme, position⟩ :: rest) =
        .error (problem, ⟨lexeme, position⟩ :: rest) := by
      unfold Expr.expectSymbol
      split
      next mark position' rest' heq =>
        cases heq
        rw [if_neg fun heq => hsymbol (congrArg Lexeme.symbol heq)]
      next => rfl
    rw [hfails]
    rfl

theorem noOperand : LooksOneAhead fun tokens => (.error (noOperand tokens) :
    Except ReadFailure (α × List Token)) :=
  .error (fun lexeme => lexeme.elim .unexpectedEnd fun lexeme => .unexpectedToken lexeme.text)
    fun tokens => by cases tokens <;> rfl

end LooksOneAhead

/-- The readers with a given depth look one token ahead. -/
structure ReadersLookOneAhead (fuel : Nat) : Prop where
  expr : LooksOneAhead (readExpr fuel)
  binary (level : Nat) : LooksOneAhead (readBinary fuel level)
  binaryRest (level : Nat) (left : Expr) : LooksOneAhead (readBinaryRest fuel level left)
  unary : LooksOneAhead (readUnary fuel)
  access (object : Expr) : LooksOneAhead (readAccess fuel object)
  primary : LooksOneAhead (readPrimary fuel)
  items : LooksOneAhead (readItems fuel)

namespace ReadersLookOneAhead

variable {fuel : Nat}

theorem expr_succ (h : ReadersLookOneAhead fuel) : LooksOneAhead (readExpr (fuel + 1)) := by
  change LooksOneAhead fun tokens => readExpr (fuel + 1) tokens
  simp only [readExpr]
  refine (h.binary 6).bind fun test => .of_head rfl fun lexeme => ?_
  dsimp only
  by_cases hquestion : lexeme = .operator .question
  · subst hquestion
    refine .taken (h.expr.bind fun consequent => ?_) fun _ _ => rfl
    refine .of_head rfl fun lexeme => ?_
    dsimp only
    by_cases hcolon : lexeme = .operator .colon
    · subst hcolon
      exact .taken (h.expr.bind fun alternate => .ok (Expr.conditional test consequent alternate))
        fun _ _ => rfl
    · refine .left (.error (fun _ => .expectedColon) fun _ => rfl) fun position rest => ?_
      split
      next heq => cases heq; exact absurd rfl hcolon
      next => rfl
  · refine .left (.ok test) fun position rest => ?_
    split
    next heq => cases heq; exact absurd rfl hquestion
    next => rfl

theorem binary_succ (h : ReadersLookOneAhead fuel) (level : Nat) :
    LooksOneAhead (readBinary (fuel + 1) level) := by
  change LooksOneAhead fun tokens => readBinary (fuel + 1) level tokens
  cases level with
  | zero =>
      simp only [readBinary]
      exact h.unary
  | succ level =>
      simp only [readBinary]
      exact (h.binary level).bind fun left => h.binaryRest level left

theorem binaryRest_succ (h : ReadersLookOneAhead fuel) (level : Nat) (left : Expr) :
    LooksOneAhead (readBinaryRest (fuel + 1) level left) := by
  refine .of_head (by rw [readBinaryRest]; rfl) fun lexeme => ?_
  cases hop : binaryOp? lexeme with
  | none => exact .left (.ok left) fun position rest => by simp only [readBinaryRest, hop]
  | some op =>
      by_cases hlevel : op.level = level + 1
      · have hnext : LooksOneAhead fun rest => readBinary fuel level rest >>= fun read =>
            readBinaryRest fuel level (.binary op left read.1) read.2 :=
          (h.binary level).bind fun right => h.binaryRest level (.binary op left right)
        refine .taken hnext fun position rest => ?_
        simp only [readBinaryRest, hop, if_pos hlevel]
      · exact .left (.ok left) fun position rest => by
          simp only [readBinaryRest, hop, if_neg hlevel]

theorem unary_succ (h : ReadersLookOneAhead fuel) : LooksOneAhead (readUnary (fuel + 1)) := by
  refine .of_head (by rw [readUnary]; rfl) fun lexeme => ?_
  cases hop : unaryOp? lexeme with
  | none =>
      have hstay : LooksOneAhead fun tokens =>
          readPrimary fuel tokens >>= fun read => readAccess fuel read.1 read.2 :=
        h.primary.bind fun object => h.access object
      refine .left hstay fun position rest => ?_
      simp only [readUnary, hop]
  | some op =>
      have hnext : LooksOneAhead fun rest =>
          readUnary fuel rest >>= fun read => .ok (Expr.unary op read.1, read.2) :=
        h.unary.bind fun operand => .ok (Expr.unary op operand)
      refine .taken hnext fun position rest => ?_
      simp only [readUnary, hop]
      rfl

theorem access_succ (h : ReadersLookOneAhead fuel) (object : Expr) :
    LooksOneAhead (readAccess (fuel + 1) object) := by
  refine .of_head (by rw [readAccess.eq_def]; rfl) fun lexeme => ?_
  by_cases hdot : lexeme = .symbol .dot
  · subst hdot
    refine .taken (.of_head ?_ fun lexeme => ?_) fun _ _ => by rw [readAccess.eq_def]
    · rfl
    cases hname : propertyName? lexeme with
    | none =>
        exact .left (.error (fun _ => .expectedPropertyName) fun _ => rfl)
          fun position rest => by simp only [hname]
    | some name =>
        exact .taken (h.access (.member object name)) fun position rest => by simp only [hname]
  by_cases hbracket : lexeme = .symbol .openBracket
  · subst hbracket
    have hnext : LooksOneAhead fun rest => readExpr fuel rest >>= fun read =>
        expectSymbol .closeBracket .expectedIndexEnd read.2 >>= fun rest =>
          readAccess fuel (.index object read.1) rest :=
      h.expr.bind fun key => .expectSymbol (h.access (.index object key))
    exact .taken hnext fun _ _ => by rw [readAccess]
  · refine .left (.ok object) fun position rest => ?_
    rw [readAccess.eq_def]
    dsimp only
    split
    next heq => cases heq; exact absurd rfl hdot
    next heq => cases heq; exact absurd rfl hbracket
    next => rfl

/-- Where a list stands does not matter. -/
theorem readPrimary_position {position : Nat} {tokens : List Token} :
    readPrimary (fuel + 1) (⟨.symbol .openBracket, position⟩ :: tokens) =
      readPrimary (fuel + 1) (⟨.symbol .openBracket, 0⟩ :: tokens) := by
  cases tokens with
  | nil => rfl
  | cons token rest =>
      by_cases hclose : token.lexeme = .symbol .closeBracket
      · obtain ⟨_, place⟩ := token
        subst hclose
        rfl
      · have hhead : ∀ other ∈ (token :: rest).head?, other.lexeme ≠ .symbol .closeBracket := by
          rintro _ ⟨⟩
          exact hclose
        rw [readPrimary_of_items hhead, readPrimary_of_items hhead]

theorem primary_succ (h : ReadersLookOneAhead fuel) : LooksOneAhead (readPrimary (fuel + 1)) := by
  refine .of_head (by rw [readPrimary]; rfl) fun lexeme => ?_
  by_cases hopen : lexeme = .symbol .openBracket
  · subst hopen
    have hitems : LooksOneAhead fun tokens => readItems fuel tokens >>= fun read =>
        expectSymbol .closeBracket .expectedListEnd read.2 >>= fun rest =>
          .ok (Expr.array read.1, rest) :=
      h.items.bind fun items => .expectSymbol (.ok (Expr.array items))
    -- the list may close at once
    have hnext : LooksOneAhead fun tokens =>
        readPrimary (fuel + 1) (⟨.symbol .openBracket, 0⟩ :: tokens) := by
      refine .of_head ?_ fun lexeme => ?_
      · rw [readPrimary_of_items (by simp)]
        exact List.suffix_nil.mp (hitems.suffix [])
      by_cases hclose : lexeme = .symbol .closeBracket
      · subst hclose
        exact .taken (.ok (Expr.array [])) fun _ _ => rfl
      · refine .left hitems fun position rest => readPrimary_of_items ?_
        rintro _ ⟨⟩
        exact hclose
    exact .taken hnext fun position rest => readPrimary_position
  by_cases hparen : lexeme = .symbol .openParen
  · subst hparen
    exact .taken (h.expr.bind fun inner => .expectSymbol (.ok (Expr.group inner))) fun _ _ => rfl
  cases hvalue : literal? lexeme with
  | some value =>
      exact .taken (.ok (Expr.literal value)) fun position rest =>
        readPrimary_of_literal? hvalue fuel rest
  | none =>
      by_cases hname : ∃ name, lexeme = .identifier name
      · obtain ⟨name, rfl⟩ := hname
        exact .taken (.ok (Expr.identifier name)) fun _ _ => rfl
      · refine .left .noOperand fun position rest => ?_
        rw [readPrimary.eq_def]
        dsimp only
        split
        next heq => cases heq; exact absurd ⟨_, rfl⟩ hname
        next heq => cases heq; exact absurd rfl hparen
        next heq => cases heq; exact absurd rfl hopen
        next heq => cases heq; exact absurd rfl hopen
        next heq => cases heq; rw [hvalue]
        next heq => cases heq

theorem items_succ (h : ReadersLookOneAhead fuel) : LooksOneAhead (readItems (fuel + 1)) := by
  change LooksOneAhead fun tokens => readItems (fuel + 1) tokens
  simp only [readItems]
  refine h.expr.bind fun item => .of_head rfl fun lexeme => ?_
  dsimp only
  by_cases hcomma : lexeme = .symbol .comma
  · subst hcomma
    exact .taken (h.items.bind fun items => .ok (item :: items)) fun _ _ => rfl
  · refine .left (.ok [item]) fun position rest => ?_
    split
    next heq => cases heq; exact absurd rfl hcomma
    next => rfl

end ReadersLookOneAhead

/-- Whatever depth they are given, the readers look one token ahead. -/
theorem readers_lookOneAhead (fuel : Nat) : ReadersLookOneAhead fuel := by
  induction fuel with
  | zero =>
      exact {
        expr := .noOperand
        binary := fun _ => .noOperand
        binaryRest := fun _ left => .ok left
        unary := .noOperand
        access := fun object => .ok object
        primary := .noOperand
        items := .noOperand }
  | succ fuel ih =>
      exact ⟨ih.expr_succ, ih.binary_succ, ih.binaryRest_succ, ih.unary_succ, ih.access_succ,
        ih.primary_succ, ih.items_succ⟩

/-- So does the reader with the depth that its tokens need. -/
theorem looksOneAhead_readExpression : LooksOneAhead readExpression where
  suffix tokens := (readers_lookOneAhead (depthFor tokens)).expr.suffix tokens
  congr {front back front' back' token token'} hstop hfront htoken := by
    have hread {tokens : List Token} {fuel : Nat} (hfuel : 11 * tokens.length + 10 ≤ fuel) :
        readExpression tokens = readExpr fuel tokens :=
      (readExpr_eq_readExpression hfuel).symm
    -- one depth that is enough for both
    obtain ⟨fuel, hfuel, hfuel'⟩ : ∃ fuel, 11 * (front ++ token :: back).length + 10 ≤ fuel ∧
        11 * (front' ++ token' :: back').length + 10 ≤ fuel :=
      ⟨_, Nat.le_max_left _ _, Nat.le_max_right _ _⟩
    rw [hread hfuel] at hstop ⊢
    rw [hread hfuel']
    exact (readers_lookOneAhead fuel).expr.congr hstop hfront htoken

/-! ## Whole expressions and headers -/

/-- A reader of all tokens fails at the same place however the tokens go on behind it. -/
def LooksAtAll (read : List Token → Except ReadFailure α) : Prop :=
  LooksOneAhead fun tokens => (read tokens).map fun a => (a, [])

namespace LooksAtAll

theorem map_bind (first : Except ReadFailure α) (next : α → Except ReadFailure β) :
    ((first >>= next).map fun b => (b, ([] : List Token))) =
      first >>= fun a => (next a).map fun b => (b, []) := by
  cases first <;> rfl

theorem bind {first : List Token → Except ReadFailure (α × List Token)} (h : LooksOneAhead first)
    {next : α × List Token → Except ReadFailure β}
    (hnext : ∀ a, LooksAtAll fun rest => next (a, rest)) :
    LooksAtAll fun tokens => first tokens >>= next := by
  unfold LooksAtAll
  simp only [map_bind]
  exact h.bind hnext

theorem expectSymbol {symbol : Symbol} {problem : SyntaxProblem}
    {next : List Token → Except ReadFailure α} (h : LooksAtAll next) :
    LooksAtAll fun tokens => expectSymbol symbol problem tokens >>= next := by
  unfold LooksAtAll
  simp only [map_bind]
  exact LooksOneAhead.expectSymbol h

/-- Nothing may follow what has been read. -/
theorem expectEnd (a : α) : LooksAtAll fun tokens => (do expectEnd tokens; return a) :=
  .of_head rfl fun _ => .left .noOperand fun _ _ => rfl

end LooksAtAll

theorem looksAtAll_readWhole : LooksAtAll readWhole :=
  .bind looksOneAhead_readExpression fun e => .expectEnd e

theorem looksOneAhead_expectName (problem : SyntaxProblem) :
    LooksOneAhead (expectName problem) := by
  refine .of_head rfl fun lexeme => ?_
  cases lexeme with
  | identifier name => exact .taken (.ok name) fun _ _ => rfl
  | _ => exact .left (.error (fun _ => problem) fun _ => rfl) fun _ _ => rfl

theorem looksOneAhead_readUpdate : LooksOneAhead readUpdate := by
  have hname (name : String) :
      LooksOneAhead fun rest => readUpdate (⟨.identifier name, 0⟩ :: rest) := by
    have hassign (change : Expr → Change) : LooksOneAhead fun rest =>
        readExpression rest >>= fun read => .ok (LoopUpdate.mk name (change read.1), read.2) :=
      looksOneAhead_readExpression.bind fun amount => .ok (LoopUpdate.mk name (change amount))
    refine .of_head rfl fun lexeme => ?_
    cases lexeme with
    | operator op =>
        cases op with
        | increment => exact .taken (.ok ⟨name, .increment⟩) fun _ _ => rfl
        | decrement => exact .taken (.ok ⟨name, .decrement⟩) fun _ _ => rfl
        | addAssign => exact .taken (hassign .addAssign) fun _ _ => rfl
        | subAssign => exact .taken (hassign .subAssign) fun _ _ => rfl
        | assign => exact .taken (hassign .assign) fun _ _ => rfl
        | _ => exact .left (.error (fun _ => .expectedUpdateForm) fun _ => rfl) fun _ _ => rfl
    | _ => exact .left (.error (fun _ => .expectedUpdateForm) fun _ => rfl) fun _ _ => rfl
  have hsign (problem : SyntaxProblem) (change : Change) : LooksOneAhead fun rest =>
      expectName problem rest >>= fun read => .ok (LoopUpdate.mk read.1 change, read.2) :=
    (looksOneAhead_expectName problem).bind fun name => .ok (LoopUpdate.mk name change)
  refine .of_head rfl fun lexeme => ?_
  cases lexeme with
  | identifier name => exact .taken (hname name) fun _ _ => rfl
  | operator op =>
      cases op with
      | increment =>
          exact .taken (hsign (.expectedUpdateVariable "++") .increment) fun _ _ => rfl
      | decrement =>
          exact .taken (hsign (.expectedUpdateVariable "--") .decrement) fun _ _ => rfl
      | _ => exact .left (.error (fun _ => .expectedUpdate) fun _ => rfl) fun _ _ => rfl
  | _ => exact .left (.error (fun _ => .expectedUpdate) fun _ => rfl) fun _ _ => rfl

theorem looksOneAhead_readTest : LooksOneAhead readTest := by
  have hstay : LooksOneAhead fun tokens => readExpression tokens >>= fun read =>
      expectSymbol .semicolon .expectedTestEnd read.2 >>= fun rest => .ok (some read.1, rest) :=
    looksOneAhead_readExpression.bind fun test => .expectSymbol (.ok (some test))
  refine .of_head (List.suffix_nil.mp (hstay.suffix [])) fun lexeme => ?_
  by_cases hsemicolon : lexeme = .symbol .semicolon
  · subst hsemicolon
    exact .taken (.ok none) fun _ _ => rfl
  · refine .left hstay fun position rest => ?_
    unfold readTest
    split
    next heq => cases heq; exact absurd rfl hsemicolon
    next => rfl

/-- Behind the name of the variable. -/
theorem looksAtAll_readHeader_name (name : String) :
    LooksAtAll fun rest => readHeader (⟨.identifier name, 0⟩ :: rest) := by
  have hforEach (mode : Enumeration) : LooksAtAll fun rest => readExpression rest >>= fun read =>
      expectEnd read.2 >>= fun _ => .ok (LoopHeader.forEach name mode read.1) :=
    .bind looksOneAhead_readExpression fun collection =>
      .expectEnd (LoopHeader.forEach name mode collection)
  have hcounted : LooksAtAll fun rest =>
      readHeader (⟨.identifier name, 0⟩ :: ⟨.operator .assign, 0⟩ :: rest) := by
    refine .bind looksOneAhead_readExpression fun init => .expectSymbol ?_
    refine .bind looksOneAhead_readTest fun test => .of_head rfl fun lexeme => ?_
    have hupdate : LooksAtAll fun rest => readUpdate rest >>= fun read =>
        expectEnd read.2 >>= fun _ => .ok (LoopHeader.counted name init test (some read.1)) :=
      .bind looksOneAhead_readUpdate fun update =>
        .expectEnd (LoopHeader.counted name init test (some update))
    exact .left hupdate fun _ _ => rfl
  refine .of_head rfl fun lexeme => ?_
  cases lexeme with
  | keyword word =>
      cases word with
      | ofWord => exact .taken (hforEach .values) fun _ _ => rfl
      | inWord => exact .taken (hforEach .keys) fun _ _ => rfl
      | _ => exact .left (.error (fun _ => .expectedHeaderForm) fun _ => rfl) fun _ _ => rfl
  | operator op =>
      cases op with
      | assign => exact .taken hcounted fun _ _ => rfl
      | _ => exact .left (.error (fun _ => .expectedHeaderForm) fun _ => rfl) fun _ _ => rfl
  | _ => exact .left (.error (fun _ => .expectedHeaderForm) fun _ => rfl) fun _ _ => rfl

theorem looksAtAll_readHeader : LooksAtAll readHeader := by
  -- behind a word of declaration, whichever it is
  have hdeclared : LooksAtAll fun rest => readHeader (⟨.keyword .varWord, 0⟩ :: rest) := by
    refine .of_head rfl fun lexeme => ?_
    cases lexeme with
    | identifier name => exact .taken (looksAtAll_readHeader_name name) fun _ _ => rfl
    | _ => exact .left (.error (fun _ => .expectedVariable) fun _ => rfl) fun _ _ => rfl
  refine .of_head rfl fun lexeme => ?_
  cases lexeme with
  | identifier name => exact .taken (looksAtAll_readHeader_name name) fun _ _ => rfl
  | keyword word =>
      cases word with
      | varWord | letWord | constWord => exact .taken hdeclared fun _ _ => rfl
      | _ => exact .left (.error (fun _ => .expectedVariable) fun _ => rfl) fun _ _ => rfl
  | _ => exact .left (.error (fun _ => .expectedVariable) fun _ => rfl) fun _ _ => rfl

/-- Tokens that fail at one of them fail at it however they go on. -/
theorem LooksAtAll.fails {read : List Token → Except ReadFailure α} (h : LooksAtAll read)
    {front back front' back' : List Token} {token token' : Token} {problem : SyntaxProblem}
    (hread : read (front ++ token :: back) = .error (problem, token :: back))
    (hfront : front'.map Token.lexeme = front.map Token.lexeme)
    (htoken : token'.lexeme = token.lexeme) :
    read (front' ++ token' :: back') = .error (problem, token' :: back') := by
  have hcongr : (read (front' ++ token' :: back')).map (fun a => (a, [])) =
      infrontOf (token' :: back') ((read (front ++ token :: back)).map fun a => (a, [])) :=
    LooksOneAhead.congr h (by rw [hread]; rfl) hfront htoken
  rw [hread] at hcongr
  cases hread' : read (front' ++ token' :: back') with
  | error failure =>
      rw [hread'] at hcongr
      exact congrArg Except.error (Except.error.inj hcongr)
  | ok a =>
      rw [hread'] at hcongr
      cases hcongr

end Transclude.Expr
