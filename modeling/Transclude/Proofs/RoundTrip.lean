import Transclude.Proofs.ReadingBack

/-! # Every stratified tree comes back

One lemma for each kind of tree, and from them the round trip for whole
expressions by induction on the tree. -/

namespace Transclude.Expr

/-- A token that is an operand by itself comes back. -/
theorem readsBack_single {token : Token} {e : Expr} (hrank : rank e = 0) (hstratified : e.Stratified)
    (hused : terminals [token] = e.flatten)
    (hread : ∀ fuel rest, readPrimary (fuel + 1) (token :: rest) = .ok (e, rest)) :
    ReadsBack [token] e := by
  refine .of_object hrank hstratified hused ?_
  intro rest fuel hfuel
  obtain ⟨fuel, rfl⟩ : ∃ less, fuel = less + 1 := ⟨fuel - 1, by omega⟩
  rw [List.singleton_append, hread]
  rfl

theorem readPrimary_of_literal? {token : Token} {value : Scalar}
    (h : literal? token.lexeme = some value) (fuel : Nat) (rest : List Token) :
    readPrimary (fuel + 1) (token :: rest) = .ok (.literal value, rest) := by
  rw [readPrimary.eq_def]
  dsimp only
  split
  next heq => cases heq; cases h
  next heq => cases heq; cases h
  next heq => cases heq; cases h
  next heq => cases heq; cases h
  next heq => cases heq; rw [h]
  next heq => cases heq

theorem readsBack_literal {value : Scalar} {used : List Token}
    (hstratified : (Expr.literal value).Stratified)
    (hused : terminals used = (Expr.literal value).flatten) : ReadsBack used (.literal value) := by
  obtain ⟨lexeme, hlexeme⟩ := hstratified
  have hflatten : (Expr.literal value).flatten = [lexeme.terminal] := by
    rw [flatten, literalTerminal?_of_literal? hlexeme]
    rfl
  obtain ⟨token, rest, rfl, htoken, hrest⟩ := terminals_eq_cons.mp (hused.trans hflatten)
  obtain rfl := List.map_eq_nil_iff.mp hrest
  refine readsBack_single rfl ⟨lexeme, hlexeme⟩ hused ?_
  rw [← literal?_congr htoken] at hlexeme
  exact readPrimary_of_literal? hlexeme

theorem readsBack_identifier {name : String} {used : List Token}
    (hused : terminals used = (Expr.identifier name).flatten) :
    ReadsBack used (.identifier name) := by
  obtain ⟨⟨lexeme, position⟩, rest, rfl, htoken, hrest⟩ := terminals_eq_cons.mp hused
  obtain rfl := List.map_eq_nil_iff.mp hrest
  obtain rfl := terminal_eq_identifier.mp htoken
  exact readsBack_single rfl trivial hused fun _ _ => rfl

/-- A larger operand comes back when the accesses behind its object make it. -/
theorem readsBack_of_access {object e : Expr} {front back : List Token} (hrank : rank e = 0)
    (hstratified : e.Stratified) (hused : terminals (front ++ back) = e.flatten)
    (hobject : rank object = 0) (hfront : ReadsBack front object)
    (h : ∀ fuel rest, 11 * (back.length + rest.length) + 1 ≤ fuel + 1 →
      readAccess (fuel + 1) object (back ++ rest) = readAccess fuel e rest)
    (hback : back ≠ []) : ReadsBack (front ++ back) e := by
  refine .of_object hrank hstratified hused ?_
  intro rest fuel hfuel
  obtain ⟨fuel, rfl⟩ : ∃ less, fuel = less + 1 := ⟨fuel - 1, by omega⟩
  have hpositive := List.length_pos_iff.mpr hback
  rw [List.length_append] at hfuel
  rw [List.append_assoc, hfront.access hobject _ _ (by rw [List.length_append]; omega),
    h fuel rest (by omega), readAccess_settled (by omega)]

theorem readsBack_member {object : Expr} {name : String} {used : List Token}
    (hstratified : (Expr.member object name).Stratified)
    (hused : terminals used = (Expr.member object name).flatten)
    (ih : ∀ front, terminals front = object.flatten → ReadsBack front object) :
    ReadsBack used (.member object name) := by
  rw [flatten] at hused
  obtain ⟨front, back, rfl, hfront, hback⟩ := terminals_eq_append.mp hused
  obtain ⟨⟨dot, position⟩, back, rfl, hdot, hback⟩ := terminals_eq_cons.mp hback
  obtain ⟨token, back, rfl, htoken, hback⟩ := terminals_eq_cons.mp hback
  obtain rfl := List.map_eq_nil_iff.mp hback
  obtain rfl := terminal_eq_symbol.mp hdot
  refine readsBack_of_access rfl hstratified hused hstratified.1 (ih front hfront) ?_ (by simp)
  intro fuel rest _
  simp only [List.cons_append, List.nil_append]
  rw [readAccess]
  simp only [propertyName?_of_terminal htoken]

theorem readsBack_index {object key : Expr} {used : List Token}
    (hstratified : (Expr.index object key).Stratified)
    (hused : terminals used = (Expr.index object key).flatten)
    (ihobject : ∀ front, terminals front = object.flatten → ReadsBack front object)
    (ihkey : ∀ middle, terminals middle = key.flatten → ReadsBack middle key) :
    ReadsBack used (.index object key) := by
  have hshape : (Expr.index object key).flatten =
      object.flatten ++ (.symbol .openBracket :: key.flatten ++ [.symbol .closeBracket]) := by
    simp [flatten]
  obtain ⟨front, back, rfl, hfront, hback⟩ := terminals_eq_append.mp (hused.trans hshape)
  obtain ⟨position, middle, position', rfl, hmiddle⟩ := terminals_eq_between hback
  refine readsBack_of_access rfl hstratified hused hstratified.1 (ihobject front hfront) ?_
    (by simp)
  intro fuel rest hfuel
  simp only [List.length_cons, List.length_append, List.length_nil] at hfuel
  simp only [List.cons_append, List.append_assoc, List.nil_append]
  rw [readAccess, (ihkey middle hmiddle).expr (⟨.symbol .closeBracket, position'⟩ :: rest) fuel
    (stops_of_reach rfl) (by rw [List.length_cons]; omega)]
  simp only [bind, Except.bind, expectSymbol_self]

theorem readsBack_group {inner : Expr} {used : List Token}
    (hstratified : (Expr.group inner).Stratified)
    (hused : terminals used = (Expr.group inner).flatten)
    (ih : ∀ middle, terminals middle = inner.flatten → ReadsBack middle inner) :
    ReadsBack used (.group inner) := by
  obtain ⟨position, middle, position', rfl, hmiddle⟩ := terminals_eq_between hused
  refine .of_object rfl hstratified hused ?_
  intro rest fuel hfuel
  obtain ⟨fuel, rfl⟩ : ∃ less, fuel = less + 1 := ⟨fuel - 1, by omega⟩
  simp only [List.length_cons, List.length_append, List.length_nil] at hfuel
  simp only [List.cons_append, List.append_assoc, List.nil_append]
  rw [readPrimary, (ih middle hmiddle).expr (⟨.symbol .closeParen, position'⟩ :: rest) fuel
    (stops_of_reach rfl) (by rw [List.length_cons]; omega)]
  simp only [bind, Except.bind, expectSymbol_self]
  rfl

/-- The reader of lists goes on to the items when the list does not close at once. -/
theorem readPrimary_of_items {fuel position : Nat} {tokens : List Token}
    (h : ∀ token ∈ tokens.head?, token.lexeme ≠ .symbol .closeBracket) :
    readPrimary (fuel + 1) (⟨.symbol .openBracket, position⟩ :: tokens) =
      (do
        let (items, rest) ← readItems fuel tokens
        let rest ← expectSymbol .closeBracket .expectedListEnd rest
        return (.array items, rest)) := by
  rw [readPrimary.eq_def]
  dsimp only
  split
  next heq => cases heq
  next heq => cases heq
  next heq => cases heq; exact absurd rfl (h _ rfl)
  next heq => cases heq; rfl
  next hnot heq => cases heq; exact absurd rfl (hnot _)
  next heq => cases heq

/-- The items of a list come back up to its closing bracket. -/
theorem readItems_of_flatten {items : List Expr} (hne : items ≠ [])
    (ih : ∀ item ∈ items, ∀ used, terminals used = item.flatten → ReadsBack used item)
    (used rest : List Token) (fuel position : Nat) (hused : terminals used = flattenItems items)
    (hfuel : 11 * (used.length + rest.length) + 22 ≤ fuel) :
    readItems fuel (used ++ ⟨.symbol .closeBracket, position⟩ :: rest) =
      .ok (items, ⟨.symbol .closeBracket, position⟩ :: rest) := by
  induction items generalizing used fuel with
  | nil => exact absurd rfl hne
  | cons item more ihmore =>
      obtain ⟨fuel, rfl⟩ : ∃ less, fuel = less + 1 := ⟨fuel - 1, by omega⟩
      cases more with
      | nil =>
          have hread := (ih item (by simp) used hused).expr
            (⟨.symbol .closeBracket, position⟩ :: rest) fuel (stops_of_reach rfl)
            (by rw [List.length_cons]; omega)
          rw [readItems, hread]
          rfl
      | cons next more =>
          rw [flattenItems_cons item (by simp)] at hused
          obtain ⟨front, ⟨comma, place⟩, back, rfl, hfront, hcomma, hback⟩ :=
            terminals_eq_around hused
          obtain rfl := terminal_eq_symbol.mp hcomma
          simp only [List.length_append, List.length_cons] at hfuel
          have hread := (ih item (by simp) front hfront).expr
            (⟨.symbol .comma, place⟩ :: (back ++ ⟨.symbol .closeBracket, position⟩ :: rest)) fuel
            (stops_of_reach rfl) (by simp only [List.length_append, List.length_cons]; omega)
          have hmore := ihmore (by simp) (fun other hother => ih other (by simp [hother])) back fuel
            hback (by omega)
          rw [List.append_assoc, List.cons_append, readItems, hread]
          simp only [bind, Except.bind, hmore]
          rfl

theorem readsBack_array {items : List Expr} {used : List Token}
    (hstratified : (Expr.array items).Stratified)
    (hused : terminals used = (Expr.array items).flatten)
    (ih : ∀ item ∈ items, ∀ used, terminals used = item.flatten → ReadsBack used item) :
    ReadsBack used (.array items) := by
  obtain ⟨position, middle, position', rfl, hmiddle⟩ := terminals_eq_between hused
  refine .of_object rfl hstratified hused ?_
  intro rest fuel hfuel
  obtain ⟨fuel, rfl⟩ : ∃ less, fuel = less + 1 := ⟨fuel - 1, by omega⟩
  simp only [List.length_cons, List.length_append, List.length_nil] at hfuel
  simp only [List.cons_append, List.append_assoc, List.nil_append]
  cases items with
  | nil =>
      obtain rfl := List.map_eq_nil_iff.mp hmiddle
      rfl
  | cons item more =>
      have hread := readItems_of_flatten (by simp) ih middle rest fuel position' hmiddle
        (by omega)
      rw [readPrimary_of_items ?_, hread]
      · simp only [bind, Except.bind, expectSymbol_self]
        rfl
      · -- an item never begins with a closing bracket
        obtain ⟨terminal, word, hword, hnot⟩ := flattenItems_head item more hstratified.1
        obtain ⟨token, others, rfl, htoken, _⟩ := terminals_eq_cons.mp (hmiddle.trans hword)
        rintro _ ⟨⟩ heq
        exact hnot (by rw [← htoken, heq, Lexeme.terminal])

theorem readsBack_unary {op : UnaryOp} {operand : Expr} {used : List Token}
    (hstratified : (Expr.unary op operand).Stratified)
    (hused : terminals used = (Expr.unary op operand).flatten)
    (ih : ∀ back, terminals back = operand.flatten → ReadsBack back operand) :
    ReadsBack used (.unary op operand) := by
  obtain ⟨token, back, rfl, htoken, hback⟩ := terminals_eq_cons.mp hused
  refine .of_unary rfl ?_
  intro rest fuel hstops hfuel
  obtain ⟨fuel, rfl⟩ : ∃ less, fuel = less + 1 := ⟨fuel - 1, by omega⟩
  rw [List.length_cons] at hfuel
  rw [List.cons_append, readUnary.eq_def]
  dsimp only
  rw [unaryOp?_eq_some.mpr htoken]
  dsimp only
  rw [(ih back hback).unary hstratified.1 rest fuel hstops (by omega)]
  rfl

theorem readsBack_binary {op : BinaryOp} {left right : Expr} {used : List Token}
    (hstratified : (Expr.binary op left right).Stratified)
    (hused : terminals used = (Expr.binary op left right).flatten)
    (ihleft : ∀ front, terminals front = left.flatten → ReadsBack front left)
    (ihright : ∀ back, terminals back = right.flatten → ReadsBack back right) :
    ReadsBack used (.binary op left right) := by
  obtain ⟨hleft, hright, _, _⟩ := hstratified
  obtain ⟨front, token, back, rfl, hfront, htoken, hback⟩ := terminals_eq_around hused
  have hop := binaryOp?_eq_some.mpr htoken
  obtain ⟨level, hlevel⟩ : ∃ level, op.level = level + 1 := by
    cases op <;> exact ⟨_, rfl⟩
  have hsix := op.level_le
  refine .of_chain level (by omega) (by rw [rank, hlevel]) ?_
  intro rest fuel hstops hfuel
  simp only [List.length_append, List.length_cons] at hfuel
  have hread : readBinary fuel level (back ++ rest) = .ok (right, rest) :=
    (ihright back hback).binary (by omega) (by omega) rest fuel hstops (by omega)
  -- the operator goes on with no operand of the level below its own
  have hstop : Stops level (token :: (back ++ rest)) := by
    rw [stops_cons, reach_of_binaryOp? hop]
    omega
  rw [List.append_assoc, List.cons_append,
    (ihleft front hfront).chain (by omega) (by omega) (token :: (back ++ rest)) fuel hstop
      (by simp only [List.length_append, List.length_cons]; omega),
    ← (readers_settled fuel).binaryRest (by omega)
      (by simp only [List.length_append, List.length_cons]; omega),
    readBinaryRest]
  simp only [hop, hlevel, if_true, hread, bind, Except.bind]

theorem readsBack_conditional {test consequent alternate : Expr} {used : List Token}
    (hstratified : (Expr.conditional test consequent alternate).Stratified)
    (hused : terminals used = (Expr.conditional test consequent alternate).flatten)
    (ihtest : ∀ front, terminals front = test.flatten → ReadsBack front test)
    (ihconsequent : ∀ middle, terminals middle = consequent.flatten → ReadsBack middle consequent)
    (ihalternate : ∀ back, terminals back = alternate.flatten → ReadsBack back alternate) :
    ReadsBack used (.conditional test consequent alternate) := by
  have hshape : (Expr.conditional test consequent alternate).flatten =
      test.flatten ++ .operator .question ::
        (consequent.flatten ++ .operator .colon :: alternate.flatten) := by
    simp [flatten]
  obtain ⟨front, ⟨question, position⟩, behind, rfl, hfront, hquestion, hbehind⟩ :=
    terminals_eq_around (hused.trans hshape)
  obtain ⟨middle, ⟨colon, position'⟩, back, rfl, hmiddle, hcolon, hback⟩ :=
    terminals_eq_around hbehind
  obtain rfl := terminal_eq_operator.mp hquestion
  obtain rfl := terminal_eq_operator.mp hcolon
  refine .of_expr rfl ?_
  intro rest fuel hstops hfuel
  obtain ⟨fuel, rfl⟩ : ∃ less, fuel = less + 1 := ⟨fuel - 1, by omega⟩
  simp only [List.length_append, List.length_cons] at hfuel
  have htest := (ihtest front hfront).binary (Nat.le_refl 6) hstratified.1
    (⟨.operator .question, position⟩ :: (middle ++ ⟨.operator .colon, position'⟩ ::
      (back ++ rest))) fuel (stops_cons.mpr (Nat.lt_succ_self 6))
    (by simp only [List.length_append, List.length_cons]; omega)
  have hconsequent := (ihconsequent middle hmiddle).expr
    (⟨.operator .colon, position'⟩ :: (back ++ rest)) fuel (stops_of_reach rfl)
    (by simp only [List.length_append, List.length_cons]; omega)
  have halternate := (ihalternate back hback).expr rest fuel hstops (by omega)
  dsimp only at htest
  simp only [List.append_assoc, List.cons_append]
  rw [readExpr, htest]
  simp only [bind, Except.bind, hconsequent, halternate]
  rfl

/-- A stratified tree is read from all tokens that it flattens to. -/
theorem readsBack (e : Expr) (hstratified : e.Stratified) (used : List Token)
    (hused : terminals used = e.flatten) : ReadsBack used e := by
  induction e using Expr.induction generalizing used with
  | literal value => exact readsBack_literal hstratified hused
  | array items ih =>
      exact readsBack_array hstratified hused fun item hitem =>
        ih item hitem (stratifiedItems_iff.mp hstratified item hitem)
  | identifier name => exact readsBack_identifier hused
  | member object name ih => exact readsBack_member hstratified hused (ih hstratified.2)
  | index object key ihobject ihkey =>
      exact readsBack_index hstratified hused (ihobject hstratified.2.1) (ihkey hstratified.2.2)
  | unary op operand ih => exact readsBack_unary hstratified hused (ih hstratified.2)
  | binary op left right ihleft ihright =>
      exact readsBack_binary hstratified hused (ihleft hstratified.2.2.1)
        (ihright hstratified.2.2.2)
  | conditional test consequent alternate ihtest ihconsequent ihalternate =>
      exact readsBack_conditional hstratified hused (ihtest hstratified.2.1)
        (ihconsequent hstratified.2.2.1) (ihalternate hstratified.2.2.2)
  | group inner ih => exact readsBack_group hstratified hused (ih hstratified)

/-- Reading an expression takes back the whole of a stratified tree, up to a rest that stops it. -/
theorem readExpression_of_flatten {e : Expr} (hstratified : e.Stratified) {used : List Token}
    (hused : terminals used = e.flatten) (rest : List Token) (hstops : Stops 7 rest) :
    readExpression (used ++ rest) = .ok (e, rest) := by
  rw [← readExpr_eq_readExpression (Nat.le_refl _)]
  exact (readsBack e hstratified used hused).expr rest _ hstops (by simp)

end Transclude.Expr
