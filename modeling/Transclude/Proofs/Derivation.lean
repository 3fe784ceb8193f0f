import Transclude.Proofs.Grammar
import Transclude.Proofs.ReadingBack

/-! # Trees and derivations

The lexemes of a stratified tree are derived from the nonterminal of its rank, and
whatever the rules derive from an expression is the flattening of such a tree. -/

namespace Transclude.Expr

/-- The nonterminal of the expressions up to a rank. -/
def ofRank : Nat → Nonterminal
  | 0 => .access
  | 1 => .unary
  | 2 => .multiplicative
  | 3 => .additive
  | 4 => .relational
  | 5 => .equality
  | 6 => .and
  | 7 => .or
  | _ => .ternary

/-- The levels of operators are chains of operands that are one rank tighter. -/
theorem rule_ofRank {level : Nat} (hpos : 1 ≤ level) (hle : level ≤ 6) :
    rule (ofRank (level + 1)) =
      Ebnf.chain (ofRank level) (operatorsOf (ofRank (level + 1))) := by
  obtain rfl | rfl | rfl | rfl | rfl | rfl :
      level = 1 ∨ level = 2 ∨ level = 3 ∨ level = 4 ∨ level = 5 ∨ level = 6 := by omega
  all_goals rfl

theorem mem_operatorsOf_of_binaryOp? {lexeme : Lexeme} {op : BinaryOp}
    (h : binaryOp? lexeme = some op) : lexeme ∈ operatorsOf (ofRank (op.level + 1)) := by
  unfold binaryOp? at h
  split at h <;> cases h <;> decide

theorem binaryOp?_of_mem_operatorsOf {lexeme : Lexeme} {level : Nat} (hpos : 1 ≤ level)
    (hle : level ≤ 6) (h : lexeme ∈ operatorsOf (ofRank (level + 1))) :
    ∃ op, binaryOp? lexeme = some op ∧ op.level = level := by
  obtain rfl | rfl | rfl | rfl | rfl | rfl :
      level = 1 ∨ level = 2 ∨ level = 3 ∨ level = 4 ∨ level = 5 ∨ level = 6 := by omega
  all_goals
    simp only [ofRank, operatorsOf, List.mem_cons, List.not_mem_nil, or_false] at h
    rcases h with rfl | rfl | rfl | rfl | rfl <;> exact ⟨_, rfl, rfl⟩

/-! ## From trees to derivations -/

namespace Derives

variable {word front back : List Lexeme}

theorem rank_succ {rank : Nat} (hle : rank ≤ 7) (h : Derives (.nonterminal (ofRank rank)) word) :
    Derives (.nonterminal (ofRank (rank + 1))) word := by
  refine .nonterminal ?_
  by_cases hlevel : 1 ≤ rank ∧ rank ≤ 6
  · rw [rule_ofRank hlevel.1 hlevel.2]
    exact .chain_single h
  · obtain rfl | rfl : rank = 0 ∨ rank = 7 := by omega
    · exact .right h
    · rw [← List.append_nil word]
      exact .sequence h .absent

theorem rank_mono {rank rank' : Nat} (hle : rank ≤ rank') (hrank' : rank' ≤ 8)
    (h : Derives (.nonterminal (ofRank rank)) word) :
    Derives (.nonterminal (ofRank rank')) word := by
  induction hle with
  | refl => exact h
  | step _ ih => exact (ih (by omega)).rank_succ (by omega)

theorem expression_of_rank {rank : Nat} (hrank : rank ≤ 8)
    (h : Derives (.nonterminal (ofRank rank)) word) : Derives (.nonterminal .expression) word :=
  .nonterminal (h.rank_mono hrank (Nat.le_refl 8))

theorem access_of_primary (h : Derives (rule .primary) word) :
    Derives (.nonterminal .access) word := by
  refine .nonterminal ?_
  rw [← List.append_nil word]
  exact .sequence (.nonterminal h) .none

/-- A property access behind an operand with accesses is another one. -/
theorem access_snoc (hfront : Derives (.nonterminal .access) front)
    (hback : Derives (Ebnf.symbol .dot ++ (Ebnf.identifier ||| Ebnf.keyword) |||
      Ebnf.symbol .openBracket ++ Ebnf.nonterminal .expression ++ Ebnf.symbol .closeBracket)
      back) : Derives (.nonterminal .access) (front ++ back) := by
  cases hfront with
  | nonterminal hfront =>
      cases hfront with
      | @sequence _ _ head tail hhead htail =>
          rw [List.append_assoc]
          exact .nonterminal (.sequence hhead (htail.snoc hback))

/-- Something between two symbols. -/
theorem between {form : Ebnf} {opening closing : Symbol} (h : Derives form word) :
    Derives (Ebnf.symbol opening ++ form ++ Ebnf.symbol closing)
      (.symbol opening :: word ++ [.symbol closing]) :=
  .append (.append (.symbol opening) h) (.symbol closing)

end Derives

theorem map_terminal_eq_symbol {word : List Lexeme} {mark : Symbol}
    (h : word.map Lexeme.terminal = [.symbol mark]) : word = [.symbol mark] := by
  obtain ⟨lexeme, back, rfl, hlexeme, hback⟩ := List.map_eq_cons_iff.mp h
  rw [terminal_eq_symbol.mp hlexeme, List.map_eq_nil_iff.mp hback]

/-- The lexemes between two symbols. -/
theorem map_terminal_eq_between {word : List Lexeme} {opening closing : Symbol}
    {inner : List Terminal}
    (h : word.map Lexeme.terminal = .symbol opening :: inner ++ [.symbol closing]) :
    ∃ middle, word = .symbol opening :: middle ++ [.symbol closing] ∧
      middle.map Lexeme.terminal = inner := by
  obtain ⟨first, back, rfl, hfirst, hback⟩ := List.map_eq_cons_iff.mp h
  obtain ⟨middle, last, rfl, hmiddle, hlast⟩ := List.map_eq_append_iff.mp hback
  rw [terminal_eq_symbol.mp hfirst, map_terminal_eq_symbol hlast]
  exact ⟨middle, rfl, hmiddle⟩

theorem derives_literal {lexeme : Lexeme} {value : Scalar} (h : literal? lexeme = some value) :
    Derives (rule .primary) [lexeme] := by
  unfold literal? at h
  split at h
  next digits => exact .left (.left (.left (.left (.left (.terminal ⟨digits, rfl⟩)))))
  next content => exact .left (.left (.left (.left (.right (.terminal ⟨content, rfl⟩)))))
  next => exact .left (.left (.left (.right (.oneOf (by simp)))))
  next => exact .left (.left (.left (.right (.oneOf (by simp)))))
  next => exact .left (.left (.left (.right (.oneOf (by simp)))))
  next => exact .left (.left (.left (.right (.oneOf (by simp)))))
  next => cases h

theorem derives_items {items : List Expr} (hne : items ≠ [])
    (ih : ∀ item ∈ items, ∀ word : List Lexeme, word.map Lexeme.terminal = item.flatten →
      Derives (.nonterminal .expression) word) (word : List Lexeme)
    (hword : word.map Lexeme.terminal = flattenItems items) :
    Derives (.nonterminal .list) word := by
  -- the items behind the first one, each with its comma
  suffices h : ∃ front back, word = front ++ back ∧ Derives (.nonterminal .expression) front ∧
      Derives (.repeated (Ebnf.symbol .comma ++ .nonterminal .expression)) back by
    obtain ⟨front, back, rfl, hfront, hback⟩ := h
    exact .nonterminal (.sequence hfront hback)
  induction items generalizing word with
  | nil => exact absurd rfl hne
  | cons item more ihmore =>
      cases more with
      | nil => exact ⟨word, [], by simp, ih item (by simp) word hword, .none⟩
      | cons next more =>
          rw [flattenItems_cons item (by simp)] at hword
          obtain ⟨front, comma, rest, rfl, hfront, hcomma, hrest⟩ := map_eq_around hword
          obtain rfl := terminal_eq_symbol.mp hcomma
          obtain ⟨middle, back, rfl, hmiddle, hback⟩ :=
            ihmore (by simp) (fun other hother => ih other (by simp [hother])) rest hrest
          refine ⟨front, _, rfl, ih item (by simp) front hfront, ?_⟩
          rw [← List.singleton_append, ← List.append_assoc]
          exact .more (.append (.symbol .comma) hmiddle) hback

/-- The lexemes of a stratified tree are derived from the nonterminal of its rank. -/
theorem derives_of_flatten (e : Expr) (h : e.Stratified) (word : List Lexeme)
    (hword : word.map Lexeme.terminal = e.flatten) :
    Derives (.nonterminal (ofRank (rank e))) word := by
  induction e using Expr.induction generalizing word with
  | literal value =>
      obtain ⟨lexeme, hlexeme⟩ := h
      rw [flatten, literalTerminal?_of_literal? hlexeme] at hword
      obtain ⟨other, back, rfl, hother, hback⟩ := List.map_eq_cons_iff.mp hword
      rw [List.map_eq_nil_iff.mp hback]
      exact .access_of_primary (derives_literal ((literal?_congr hother).trans hlexeme))
  | array items ih =>
      obtain ⟨middle, rfl, hmiddle⟩ := map_terminal_eq_between hword
      refine .access_of_primary (.right (.between ?_))
      by_cases hne : items = []
      · rw [hne] at hmiddle
        rw [List.map_eq_nil_iff.mp hmiddle]
        exact .absent
      · refine .present (derives_items hne ?_ middle hmiddle)
        intro item hitem word hword
        exact (ih item hitem (stratifiedItems_iff.mp h item hitem) word hword).expression_of_rank
          (rank_le item)
  | identifier name =>
      obtain ⟨lexeme, back, rfl, hlexeme, hback⟩ := List.map_eq_cons_iff.mp hword
      rw [List.map_eq_nil_iff.mp hback]
      exact .access_of_primary (.left (.left (.right (.terminal
        ⟨name, terminal_eq_identifier.mp hlexeme⟩))))
  | member object name ih =>
      obtain ⟨front, dot, back, rfl, hfront, hdot, hback⟩ := map_eq_around hword
      obtain ⟨lexeme, rest, rfl, hlexeme, hrest⟩ := List.map_eq_cons_iff.mp hback
      have hobject := ih h.2 front hfront
      rw [h.1] at hobject
      rw [terminal_eq_symbol.mp hdot, List.map_eq_nil_iff.mp hrest]
      refine hobject.access_snoc (.left (.append (.symbol .dot) ?_))
      unfold nameTerminal at hlexeme
      split at hlexeme
      next word _ => exact .right (.terminal ⟨word, terminal_eq_keyword.mp hlexeme⟩)
      next => exact .left (.terminal ⟨name, terminal_eq_identifier.mp hlexeme⟩)
  | index object key ihobject ihkey =>
      rw [flatten, List.append_assoc] at hword
      obtain ⟨front, back, rfl, hfront, hback⟩ := List.map_eq_append_iff.mp hword
      obtain ⟨middle, rfl, hmiddle⟩ := map_terminal_eq_between hback
      have hobject := ihobject h.2.1 front hfront
      rw [h.1] at hobject
      have hkey := (ihkey h.2.2 middle hmiddle).expression_of_rank (rank_le key)
      exact hobject.access_snoc (.right (.between hkey))
  | unary op operand ih =>
      obtain ⟨lexeme, back, rfl, hlexeme, hback⟩ := List.map_eq_cons_iff.mp hword
      have hoperand := (ih h.2 back hback).rank_mono h.1 (by omega)
      refine .nonterminal (.left (.append (.oneOf (show lexeme ∈ _ from ?_)) hoperand))
      cases op <;>
        simp only [UnaryOp.terminal, terminal_eq_operator, terminal_eq_keyword] at hlexeme <;>
        simp [hlexeme]
  | binary op left right ihleft ihright =>
      obtain ⟨hleft, hright, hleftStratified, hrightStratified⟩ := h
      obtain ⟨front, lexeme, back, rfl, hfront, hlexeme, hback⟩ := map_eq_around hword
      have hsix := op.level_le
      replace ihleft := (ihleft hleftStratified front hfront).rank_mono hleft (by omega)
      replace ihright := (ihright hrightStratified back hback).rank_mono hright (by omega)
      -- the left operand is a chain of the same level, which the operator makes longer
      cases ihleft with
      | nonterminal hchain =>
          refine .nonterminal ?_
          rw [rank]
          rw [rule_ofRank op.level_pos hsix] at hchain ⊢
          exact hchain.chain_snoc (mem_operatorsOf_of_binaryOp? (binaryOp?_eq_some.mpr hlexeme))
            ihright
  | conditional test consequent alternate ihtest ihconsequent ihalternate =>
      rw [flatten, List.append_assoc] at hword
      obtain ⟨front, question, rest, rfl, hfront, hquestion, hrest⟩ := map_eq_around hword
      obtain ⟨middle, colon, back, rfl, hmiddle, hcolon, hback⟩ := map_eq_around hrest
      rw [terminal_eq_operator.mp hquestion, terminal_eq_operator.mp hcolon]
      have htest := (ihtest h.2.1 front hfront).rank_mono h.1 (by omega)
      have hconsequent :=
        (ihconsequent h.2.2.1 middle hmiddle).expression_of_rank (rank_le consequent)
      have halternate :=
        (ihalternate h.2.2.2 back hback).expression_of_rank (rank_le alternate)
      have hbranches := Derives.append (Derives.append (Derives.append (.operator .question)
        hconsequent) (.operator .colon)) halternate
      rw [← List.append_cons] at hbranches
      exact .nonterminal (.sequence htest (.present hbranches))
  | group inner ih =>
      obtain ⟨middle, rfl, hmiddle⟩ := map_terminal_eq_between hword
      have hinner := (ih h middle hmiddle).expression_of_rank (rank_le inner)
      exact .access_of_primary (.left (.right (.between hinner)))

/-! ## From headers to derivations -/

theorem derives_expression {e : Expr} (h : e.Stratified) {word : List Lexeme}
    (hword : word.map Lexeme.terminal = e.flatten) : Derives (.nonterminal .expression) word :=
  (derives_of_flatten e h word hword).expression_of_rank (rank_le e)

/-- A counting sign is derived on either side of the name. -/
theorem derives_counting {name : String} {op : Operator}
    (hop : Lexeme.operator op ∈ [Lexeme.operator .increment, .operator .decrement])
    {word : List Lexeme} (hword : word.map Lexeme.terminal ∈
      [[Terminal.identifier name, .operator op], [.operator op, .identifier name]]) :
    Derives (.nonterminal .update) word := by
  simp only [List.mem_cons, List.not_mem_nil, or_false] at hword
  obtain hword | hword := hword
  all_goals
    obtain ⟨first, _, rfl, hfirst, hword⟩ := List.map_eq_cons_iff.mp hword
    obtain ⟨second, _, rfl, hsecond, hword⟩ := List.map_eq_cons_iff.mp hword
    rw [List.map_eq_nil_iff.mp hword]
  · rw [terminal_eq_operator.mp hsecond]
    exact .nonterminal (.left (.sequence (.terminal ⟨name, terminal_eq_identifier.mp hfirst⟩)
      (.left (.oneOf hop))))
  · rw [terminal_eq_operator.mp hfirst]
    exact .nonterminal (.right (.sequence (.oneOf hop)
      (.terminal ⟨name, terminal_eq_identifier.mp hsecond⟩)))

/-- An assignment of an expression is derived. -/
theorem derives_assignment {name : String} {op : Operator} {e : Expr}
    (hop : Lexeme.operator op ∈
      [Lexeme.operator .addAssign, .operator .subAssign, .operator .assign])
    (h : e.Stratified) {word : List Lexeme}
    (hword : word.map Lexeme.terminal ∈ [Terminal.identifier name :: .operator op :: e.flatten]) :
    Derives (.nonterminal .update) word := by
  obtain ⟨first, _, rfl, hfirst, hword⟩ := List.map_eq_cons_iff.mp (List.mem_singleton.mp hword)
  obtain ⟨second, back, rfl, hsecond, hback⟩ := List.map_eq_cons_iff.mp hword
  rw [terminal_eq_operator.mp hsecond]
  exact .nonterminal (.left (.sequence (.terminal ⟨name, terminal_eq_identifier.mp hfirst⟩)
    (.right (.sequence (.oneOf hop) (derives_expression h hback)))))

theorem derives_update {update : LoopUpdate} (h : update.Stratified) {word : List Lexeme}
    (hword : word.map Lexeme.terminal ∈ update.flattenings) :
    Derives (.nonterminal .update) word := by
  obtain ⟨name, change⟩ := update
  cases change with
  | increment => exact derives_counting (by simp) hword
  | decrement => exact derives_counting (by simp) hword
  | addAssign amount => exact derives_assignment (by simp) (h amount rfl) hword
  | subAssign amount => exact derives_assignment (by simp) (h amount rfl) hword
  | assign value => exact derives_assignment (by simp) (h value rfl) hword

theorem derives_declaration {word : List Lexeme}
    (hword : word.map Lexeme.terminal ∈ LoopHeader.declarations) :
    Derives (.optional (.nonterminal .declaration)) word := by
  simp only [LoopHeader.declarations, List.mem_cons, List.not_mem_nil, or_false] at hword
  obtain hword | hword | hword | hword := hword
  · rw [List.map_eq_nil_iff.mp hword]
    exact .absent
  all_goals
    obtain ⟨lexeme, back, rfl, hlexeme, hback⟩ := List.map_eq_cons_iff.mp hword
    rw [List.map_eq_nil_iff.mp hback, terminal_eq_keyword.mp hlexeme]
    exact .present (.nonterminal (.oneOf (by simp)))

/-- The lexemes of a stratified header are derived from its kind. -/
theorem derives_header {header : LoopHeader} (h : header.Stratified) {word : List Lexeme}
    (hword : header.FlattensTo (word.map Lexeme.terminal)) :
    Derives (.nonterminal .counted) word ∨ Derives (.nonterminal .foreach) word := by
  obtain ⟨declaration, hdeclaration, body, hbody, hword⟩ := hword
  obtain ⟨front, back, rfl, rfl, rfl⟩ := List.map_eq_append_iff.mp hword
  cases header with
  | counted name init test update =>
      refine .inl (.nonterminal ?_)
      obtain ⟨step, hstep, hback⟩ := List.mem_map.mp hbody
      simp only [List.cons_append, List.append_assoc, List.nil_append] at hback
      obtain ⟨name', _, rfl, hvariable, hback⟩ := List.map_eq_cons_iff.mp hback.symm
      obtain ⟨assign, _, rfl, hassign, hback⟩ := List.map_eq_cons_iff.mp hback
      obtain ⟨initial, semicolon, _, rfl, hinitial, hsemicolon, hback⟩ := map_eq_around hback
      obtain ⟨condition, semicolon', last, rfl, hcondition, hsemicolon', rfl⟩ :=
        map_eq_around hback
      rw [terminal_eq_identifier.mp hvariable, terminal_eq_operator.mp hassign,
        terminal_eq_symbol.mp hsemicolon, terminal_eq_symbol.mp hsemicolon']
      have htest : Derives (.optional (.nonterminal .expression)) condition := by
        cases test with
        | none =>
            rw [List.map_eq_nil_iff.mp hcondition]
            exact .absent
        | some test => exact .present (derives_expression (h.2.1 test rfl) hcondition)
      have hupdate : Derives (.optional (.nonterminal .update)) last := by
        cases update with
        | none =>
            rw [List.map_eq_nil_iff.mp (List.mem_singleton.mp hstep)]
            exact .absent
        | some update => exact .present (derives_update (h.2.2 update rfl) hstep)
      have hwhole := Derives.append (Derives.append (Derives.append (Derives.append (Derives.append
        (Derives.append (Derives.append (derives_declaration hdeclaration)
          (.identifier name)) (.operator .assign))
        (derives_expression h.1 hinitial)) (.symbol .semicolon)) htest) (.symbol .semicolon))
        hupdate
      rw [rule]
      simpa using hwhole
  | forEach name mode collection =>
      refine .inr (.nonterminal ?_)
      obtain ⟨name', _, rfl, hvariable, hback⟩ :=
        List.map_eq_cons_iff.mp (List.mem_singleton.mp hbody)
      obtain ⟨word, back, rfl, hword, hback⟩ := List.map_eq_cons_iff.mp hback
      have hmode : word ∈ [Lexeme.keyword .ofWord, .keyword .inWord] := by
        cases mode <;> simp [terminal_eq_keyword.mp hword]
      have hwhole := Derives.append (Derives.append (Derives.append
        (derives_declaration hdeclaration) (.identifier name)) (.oneOf hmode))
        (derives_expression h hback)
      rw [terminal_eq_identifier.mp hvariable]
      rw [rule]
      simpa using hwhole

end Transclude.Expr
