import Transclude.Proofs.Derivation

/-! # The trees of derived words

The words that flatten stratified trees are closed under the rules of the grammar,
so that every derived word flattens one. -/

namespace Transclude.Expr

/-- No identifier of a word is spelled like a keyword. -/
def ProperWord (word : List Lexeme) : Prop := ∀ lexeme ∈ word, lexeme.Proper

@[simp] theorem properWord_cons {lexeme : Lexeme} {word : List Lexeme} :
    ProperWord (lexeme :: word) ↔ lexeme.Proper ∧ ProperWord word :=
  List.forall_mem_cons

@[simp] theorem properWord_append {front back : List Lexeme} :
    ProperWord (front ++ back) ↔ ProperWord front ∧ ProperWord back :=
  List.forall_mem_append

/-- The words of the stratified trees up to a rank, as far as they are proper. -/
def TreeWords (bound : Nat) : Language := fun word =>
  ProperWord word →
    ∃ e : Expr, e.Stratified ∧ rank e ≤ bound ∧ word.map Lexeme.terminal = e.flatten

theorem TreeWords.mono {bound bound' : Nat} (hle : bound ≤ bound') {word : List Lexeme}
    (h : TreeWords bound word) : TreeWords bound' word := by
  intro hproper
  obtain ⟨e, hstratified, hrank, hflatten⟩ := h hproper
  exact ⟨e, hstratified, Nat.le_trans hrank hle, hflatten⟩

/-- The words of stratified steps. -/
def UpdateWords : Language := fun word =>
  ProperWord word →
    ∃ update : LoopUpdate, update.Stratified ∧ word.map Lexeme.terminal ∈ update.flattenings

/-- The words of stratified headers. -/
def HeaderWords : Language := fun word =>
  ProperWord word →
    ∃ header : LoopHeader, header.Stratified ∧ header.FlattensTo (word.map Lexeme.terminal)

/-- The words of lists that are not empty. -/
def ItemWords : Language := fun word =>
  ProperWord word →
    ∃ items : List Expr, items ≠ [] ∧ StratifiedItems items ∧
      word.map Lexeme.terminal = flattenItems items

/-- The words that each nonterminal stands for. -/
def treeWords : Nonterminal → Language
  | .expression | .ternary => TreeWords 8
  | .or => TreeWords 7
  | .and => TreeWords 6
  | .equality => TreeWords 5
  | .relational => TreeWords 4
  | .additive => TreeWords 3
  | .multiplicative => TreeWords 2
  | .unary => TreeWords 1
  | .access | .primary => TreeWords 0
  | .list => ItemWords
  | .counted | .foreach => HeaderWords
  | .update => UpdateWords
  | .declaration => fun word => word.map Lexeme.terminal ∈ LoopHeader.declarations

/-- A word between two symbols. -/
theorem exists_between {meaning : Nonterminal → Language} {form : Ebnf} {opening closing : Symbol}
    {word : List Lexeme}
    (h : (Ebnf.symbol opening ++ form ++ Ebnf.symbol closing).language meaning word) :
    ∃ middle, form.language meaning middle ∧
      word = .symbol opening :: middle ++ [.symbol closing] := by
  obtain ⟨_, _, ⟨_, middle, ⟨first, hfirst, rfl⟩, hmiddle, rfl⟩, ⟨last, hlast, rfl⟩, rfl⟩ := h
  rw [List.mem_singleton.mp hfirst, List.mem_singleton.mp hlast]
  exact ⟨middle, hmiddle, rfl⟩

/-- Parts that each make a tree of a rank larger do so when they are repeated. -/
theorem exists_extended_tree {bound : Nat} {part : Language}
    (hpart : ∀ e : Expr, e.Stratified → rank e ≤ bound → ∀ word, ProperWord word → part word →
      ∃ whole : Expr, whole.Stratified ∧ rank whole ≤ bound ∧
        whole.flatten = e.flatten ++ word.map Lexeme.terminal)
    {words : List (List Lexeme)} (hwords : ∀ word ∈ words, part word)
    (hproper : ProperWord words.flatten) {e : Expr} (hstratified : e.Stratified)
    (hrank : rank e ≤ bound) :
    ∃ whole : Expr, whole.Stratified ∧ rank whole ≤ bound ∧
      whole.flatten = e.flatten ++ words.flatten.map Lexeme.terminal := by
  induction words generalizing e with
  | nil => exact ⟨e, hstratified, hrank, by simp⟩
  | cons word words ih =>
      rw [List.flatten_cons, properWord_append] at hproper
      obtain ⟨middle, hmiddle, hmiddleRank, hmiddleFlatten⟩ :=
        hpart e hstratified hrank word hproper.1 (hwords word (by simp))
      obtain ⟨whole, hwhole, hwholeRank, hwholeFlatten⟩ :=
        ih (fun other hother => hwords other (by simp [hother])) hproper.2 hmiddle hmiddleRank
      refine ⟨whole, hwhole, hwholeRank, ?_⟩
      rw [hwholeFlatten, hmiddleFlatten]
      simp

/-- The trees of a level of operators are closed under its rule. -/
theorem treeWords_chain (level : Nat) (hpos : 1 ≤ level) (hle : level ≤ 6)
    (hlevel : treeWords (ofRank level) = TreeWords level) {word : List Lexeme}
    (h : (rule (ofRank (level + 1))).language treeWords word) : TreeWords (level + 1) word := by
  rw [rule_ofRank hpos hle] at h
  obtain ⟨front, back, hfront, ⟨words, hwords, rfl⟩, rfl⟩ := h
  intro hproper
  rw [properWord_append] at hproper
  replace hfront : TreeWords level front := hlevel ▸ hfront
  obtain ⟨first, hfirst, hfirstRank, hfirstFlatten⟩ := hfront hproper.1
  have hwhole := @exists_extended_tree (level + 1) _ ?_ _ hwords hproper.2 _ hfirst (by omega)
  · obtain ⟨whole, hwhole, hrank, hflatten⟩ := hwhole
    refine ⟨whole, hwhole, hrank, ?_⟩
    rw [List.map_append, hfirstFlatten, hflatten]
  · -- an operator with its operand makes the tree on its left larger
    rintro left hleft hrank _ hpart ⟨_, operand, ⟨lexeme, hlexeme, rfl⟩, hoperand, rfl⟩
    rw [List.singleton_append, properWord_cons] at hpart
    replace hoperand : TreeWords level operand := hlevel ▸ hoperand
    obtain ⟨right, hright, hrightRank, hrightFlatten⟩ := hoperand hpart.2
    obtain ⟨op, hop, hopLevel⟩ := binaryOp?_of_mem_operatorsOf hpos hle hlexeme
    refine ⟨.binary op left right, ⟨by omega, by omega, hleft, hright⟩, by rw [rank]; omega, ?_⟩
    rw [flatten, ← binaryOp?_eq_some.mp hop, ← hrightFlatten]
    simp

theorem treeWords_conditional {word : List Lexeme}
    (h : (rule .ternary).language treeWords word) : TreeWords 8 word := by
  obtain ⟨front, _, hfront, rfl | ⟨_, back, ⟨_, _, ⟨_, middle, ⟨question, hquestion, rfl⟩,
    hmiddle, rfl⟩, ⟨colon, hcolon, rfl⟩, rfl⟩, hback, rfl⟩, rfl⟩ := h
  · rw [List.append_nil]
    exact TreeWords.mono (by omega) hfront
  · intro hproper
    obtain rfl := List.mem_singleton.mp hquestion
    obtain rfl := List.mem_singleton.mp hcolon
    simp only [properWord_append] at hproper
    obtain ⟨hfrontProper, ⟨⟨_, hmiddleProper⟩, _⟩, hbackProper⟩ := hproper
    obtain ⟨test, htest, hrank, htestFlatten⟩ := hfront hfrontProper
    obtain ⟨consequent, hconsequent, _, hconsequentFlatten⟩ := hmiddle hmiddleProper
    obtain ⟨alternate, halternate, _, halternateFlatten⟩ := hback hbackProper
    refine ⟨.conditional test consequent alternate, ⟨hrank, htest, hconsequent, halternate⟩,
      Nat.le_refl 8, ?_⟩
    rw [flatten, ← htestFlatten, ← hconsequentFlatten, ← halternateFlatten]
    simp

theorem treeWords_unary {word : List Lexeme} (h : (rule .unary).language treeWords word) :
    TreeWords 1 word := by
  obtain ⟨_, back, ⟨lexeme, hlexeme, rfl⟩, hback, rfl⟩ | h := h
  · intro hproper
    rw [List.singleton_append, properWord_cons] at hproper
    obtain ⟨operand, hoperand, hrank, hflatten⟩ := hback hproper.2
    obtain ⟨op, hop⟩ : ∃ op, unaryOp? lexeme = some op := by
      simp only [List.mem_cons, List.not_mem_nil, or_false] at hlexeme
      rcases hlexeme with rfl | rfl | rfl | rfl <;> exact ⟨_, rfl⟩
    refine ⟨.unary op operand, ⟨hrank, hoperand⟩, Nat.le_refl 1, ?_⟩
    rw [flatten, ← unaryOp?_eq_some.mp hop, ← hflatten]
    rfl
  · exact TreeWords.mono (Nat.zero_le 1) h

/-- A property access makes an operand larger. -/
theorem exists_access {e : Expr} (hstratified : e.Stratified) (hrank : rank e ≤ 0)
    {word : List Lexeme} (hproper : ProperWord word)
    (h : (Ebnf.symbol .dot ++ (Ebnf.identifier ||| Ebnf.keyword) |||
      Ebnf.symbol .openBracket ++ Ebnf.nonterminal .expression ++
        Ebnf.symbol .closeBracket).language treeWords word) :
    ∃ whole : Expr, whole.Stratified ∧ rank whole ≤ 0 ∧
      whole.flatten = e.flatten ++ word.map Lexeme.terminal := by
  rw [Nat.le_zero] at hrank
  obtain ⟨_, back, ⟨dot, hdot, rfl⟩, hname, rfl⟩ | h := h
  · obtain rfl := List.mem_singleton.mp hdot
    obtain ⟨lexeme, name, hproperty, rfl⟩ : ∃ lexeme name, propertyName? lexeme = some name ∧
        back = [lexeme] := by
      obtain ⟨_, ⟨name, rfl⟩, rfl⟩ | ⟨_, ⟨word, rfl⟩, rfl⟩ := hname
      · exact ⟨_, name, rfl, rfl⟩
      · exact ⟨_, word.spelling, rfl, rfl⟩
    refine ⟨.member e name, ⟨hrank, hstratified⟩, Nat.le_refl 0, ?_⟩
    rw [flatten, ← terminal_of_propertyName? (hproper lexeme (by simp)) hproperty]
    rfl
  · obtain ⟨middle, hmiddle, rfl⟩ := exists_between h
    rw [properWord_append, properWord_cons] at hproper
    obtain ⟨key, hkey, _, hkeyFlatten⟩ := hmiddle hproper.1.2
    refine ⟨.index e key, ⟨hrank, hstratified, hkey⟩, Nat.le_refl 0, ?_⟩
    rw [flatten, ← hkeyFlatten]
    simp

theorem treeWords_access {word : List Lexeme} (h : (rule .access).language treeWords word) :
    TreeWords 0 word := by
  obtain ⟨front, _, hfront, ⟨words, hwords, rfl⟩, rfl⟩ := h
  intro hproper
  rw [properWord_append] at hproper
  obtain ⟨first, hfirst, hfirstRank, hfirstFlatten⟩ := hfront hproper.1
  obtain ⟨whole, hwhole, hrank, hflatten⟩ := exists_extended_tree
    (fun _ hstratified hrank _ hproper => exists_access hstratified hrank hproper) hwords hproper.2
    hfirst hfirstRank
  refine ⟨whole, hwhole, hrank, ?_⟩
  rw [List.map_append, hfirstFlatten, hflatten]

/-- A lexeme that is a literal is the word of its tree. -/
theorem treeWords_of_literal? {lexeme : Lexeme} {value : Scalar}
    (h : literal? lexeme = some value) : TreeWords 0 [lexeme] := by
  refine fun _ => ⟨.literal value, ⟨lexeme, h⟩, Nat.le_refl 0, ?_⟩
  rw [flatten, literalTerminal?_of_literal? h]
  rfl

theorem treeWords_primary {word : List Lexeme} (h : (rule .primary).language treeWords word) :
    TreeWords 0 word := by
  obtain ((((h | h) | h) | h) | h) | h := h
  · obtain ⟨_, ⟨digits, rfl⟩, rfl⟩ := h
    exact treeWords_of_literal? rfl
  · obtain ⟨_, ⟨content, rfl⟩, rfl⟩ := h
    exact treeWords_of_literal? rfl
  · obtain ⟨lexeme, hlexeme, rfl⟩ := h
    simp only [List.mem_cons, List.not_mem_nil, or_false] at hlexeme
    rcases hlexeme with rfl | rfl | rfl | rfl <;> exact treeWords_of_literal? rfl
  · obtain ⟨_, ⟨name, rfl⟩, rfl⟩ := h
    exact fun _ => ⟨.identifier name, trivial, Nat.le_refl 0, rfl⟩
  · obtain ⟨middle, hmiddle, rfl⟩ := exists_between h
    intro hproper
    rw [properWord_append, properWord_cons] at hproper
    obtain ⟨inner, hinner, _, hflatten⟩ := hmiddle hproper.1.2
    refine ⟨.group inner, hinner, Nat.le_refl 0, ?_⟩
    rw [flatten, ← hflatten]
    simp
  · obtain ⟨middle, hmiddle, rfl⟩ := exists_between h
    intro hproper
    rw [properWord_append, properWord_cons] at hproper
    obtain ⟨items, hitems, hflatten⟩ : ∃ items, StratifiedItems items ∧
        middle.map Lexeme.terminal = flattenItems items := by
      obtain rfl | hmiddle := hmiddle
      · exact ⟨[], trivial, rfl⟩
      · obtain ⟨items, _, hitems, hflatten⟩ := hmiddle hproper.1.2
        exact ⟨items, hitems, hflatten⟩
    refine ⟨.array items, hitems, Nat.le_refl 0, ?_⟩
    rw [flatten, ← hflatten]
    simp

theorem treeWords_list {word : List Lexeme} (h : (rule .list).language treeWords word) :
    ItemWords word := by
  obtain ⟨front, _, hfront, ⟨words, hwords, rfl⟩, rfl⟩ := h
  intro hproper
  induction words generalizing front with
  | nil =>
      rw [List.flatten_nil, List.append_nil] at hproper ⊢
      obtain ⟨item, hitem, _, hflatten⟩ := hfront hproper
      exact ⟨[item], by simp, ⟨hitem, trivial⟩, hflatten⟩
  | cons next words ih =>
      obtain ⟨_, behind, ⟨comma, hcomma, rfl⟩, hbehind, rfl⟩ := hwords next (by simp)
      obtain rfl := List.mem_singleton.mp hcomma
      simp only [List.flatten_cons, properWord_append] at hproper
      obtain ⟨item, hitem, _, hflatten⟩ := hfront hproper.1
      obtain ⟨items, hne, hitems, hitemsFlatten⟩ :=
        ih behind hbehind (fun other hother => hwords other (by simp [hother]))
          (properWord_append.mpr ⟨hproper.2.1.2, hproper.2.2⟩)
      refine ⟨item :: items, by simp, ⟨hitem, hitems⟩, ?_⟩
      rw [flattenItems_cons item hne, ← hitemsFlatten, ← hflatten]
      simp

/-! ## Headers -/

theorem updateWords_closed {word : List Lexeme} (h : (rule .update).language treeWords word) :
    UpdateWords word := by
  obtain ⟨_, back, ⟨_, ⟨name, rfl⟩, rfl⟩, h, rfl⟩ |
    ⟨_, _, ⟨op, hop, rfl⟩, ⟨_, ⟨name, rfl⟩, rfl⟩, rfl⟩ := h
  · obtain ⟨op, hop, rfl⟩ | ⟨_, back, ⟨op, hop, rfl⟩, hback, rfl⟩ := h
    · intro _
      simp only [List.mem_cons, List.not_mem_nil, or_false] at hop
      obtain rfl | rfl := hop
      · exact ⟨⟨name, .increment⟩, nofun, by simp [LoopUpdate.flattenings]⟩
      · exact ⟨⟨name, .decrement⟩, nofun, by simp [LoopUpdate.flattenings]⟩
    · intro hproper
      simp only [properWord_append] at hproper
      obtain ⟨e, he, _, hflatten⟩ := hback hproper.2.2
      simp only [List.mem_cons, List.not_mem_nil, or_false] at hop
      obtain rfl | rfl | rfl := hop
      · exact ⟨⟨name, .addAssign e⟩, by rintro _ ⟨⟩; exact he,
          by simp [LoopUpdate.flattenings, hflatten]⟩
      · exact ⟨⟨name, .subAssign e⟩, by rintro _ ⟨⟩; exact he,
          by simp [LoopUpdate.flattenings, hflatten]⟩
      · exact ⟨⟨name, .assign e⟩, by rintro _ ⟨⟩; exact he,
          by simp [LoopUpdate.flattenings, hflatten]⟩
  · intro _
    simp only [List.mem_cons, List.not_mem_nil, or_false] at hop
    obtain rfl | rfl := hop
    · exact ⟨⟨name, .increment⟩, nofun, by simp [LoopUpdate.flattenings]⟩
    · exact ⟨⟨name, .decrement⟩, nofun, by simp [LoopUpdate.flattenings]⟩

theorem mem_declarations_of_optional {word : List Lexeme}
    (h : (Ebnf.optional (.nonterminal .declaration)).language treeWords word) :
    word.map Lexeme.terminal ∈ LoopHeader.declarations := by
  obtain rfl | h := h
  · simp [LoopHeader.declarations]
  · exact h

theorem declarations_closed {word : List Lexeme}
    (h : (rule .declaration).language treeWords word) :
    word.map Lexeme.terminal ∈ LoopHeader.declarations := by
  obtain ⟨lexeme, hlexeme, rfl⟩ := h
  simp only [List.mem_cons, List.not_mem_nil, or_false] at hlexeme
  rcases hlexeme with rfl | rfl | rfl <;> simp [LoopHeader.declarations]

theorem headerWords_of_foreach {word : List Lexeme}
    (h : (rule .foreach).language treeWords word) : HeaderWords word := by
  obtain ⟨_, back, ⟨_, _, ⟨declaration, _, hdeclaration, ⟨_, ⟨name, rfl⟩, rfl⟩, rfl⟩,
    ⟨mode, hmode, rfl⟩, rfl⟩, hback, rfl⟩ := h
  intro hproper
  simp only [properWord_append] at hproper
  obtain ⟨collection, hcollection, _, hflatten⟩ := hback hproper.2
  have hword := mem_declarations_of_optional hdeclaration
  simp only [List.mem_cons, List.not_mem_nil, or_false] at hmode
  obtain rfl | rfl := hmode
  · refine ⟨.forEach name .values collection, hcollection, _, hword, _, List.mem_singleton.mpr rfl,
      ?_⟩
    simp [hflatten, Enumeration.terminal]
  · refine ⟨.forEach name .keys collection, hcollection, _, hword, _, List.mem_singleton.mpr rfl,
      ?_⟩
    simp [hflatten, Enumeration.terminal]

theorem headerWords_of_counted {word : List Lexeme}
    (h : (rule .counted).language treeWords word) : HeaderWords word := by
  obtain ⟨_, last, ⟨_, _, ⟨_, middle, ⟨_, _, ⟨_, front, ⟨_, _, ⟨declaration, _, hdeclaration,
    ⟨_, ⟨name, rfl⟩, rfl⟩, rfl⟩, ⟨assign, hassign, rfl⟩, rfl⟩, hfront, rfl⟩,
    ⟨semicolon, hsemicolon, rfl⟩, rfl⟩, hmiddle, rfl⟩, ⟨semicolon', hsemicolon', rfl⟩, rfl⟩,
    hlast, rfl⟩ := h
  obtain rfl := List.mem_singleton.mp hassign
  obtain rfl := List.mem_singleton.mp hsemicolon
  obtain rfl := List.mem_singleton.mp hsemicolon'
  intro hproper
  simp only [properWord_append] at hproper
  obtain ⟨⟨⟨⟨⟨_, hfrontProper⟩, _⟩, hmiddleProper⟩, _⟩, hlastProper⟩ := hproper
  obtain ⟨init, hinit, _, hinitFlatten⟩ := hfront hfrontProper
  obtain ⟨test, htest, htestFlatten⟩ : ∃ test : Option Expr, (∀ e ∈ test, e.Stratified) ∧
      middle.map Lexeme.terminal = test.elim [] flatten := by
    obtain rfl | hmiddle := hmiddle
    · exact ⟨none, nofun, rfl⟩
    · obtain ⟨test, htest, _, hflatten⟩ := hmiddle hmiddleProper
      exact ⟨some test, by rintro _ ⟨⟩; exact htest, hflatten⟩
  obtain ⟨update, hupdate, hupdateFlatten⟩ :
      ∃ update : Option LoopUpdate, (∀ u ∈ update, u.Stratified) ∧
        last.map Lexeme.terminal ∈ update.elim [[]] LoopUpdate.flattenings := by
    obtain rfl | hlast := hlast
    · exact ⟨none, nofun, List.mem_singleton.mpr rfl⟩
    · obtain ⟨update, hupdate, hflatten⟩ := hlast hlastProper
      exact ⟨some update, by rintro _ ⟨⟩; exact hupdate, hflatten⟩
  refine ⟨.counted name init test update, ⟨hinit, htest, hupdate⟩, _,
    mem_declarations_of_optional hdeclaration, _, List.mem_map_of_mem hupdateFlatten, ?_⟩
  simp [hinitFlatten, htestFlatten]

/-- The words of trees are closed under the rules. -/
theorem treeWords_closed (name : Nonterminal) (word : List Lexeme)
    (h : (rule name).language treeWords word) : treeWords name word := by
  cases name with
  | expression => exact h
  | ternary => exact treeWords_conditional h
  | or => exact treeWords_chain 6 (by omega) (by omega) rfl h
  | and => exact treeWords_chain 5 (by omega) (by omega) rfl h
  | equality => exact treeWords_chain 4 (by omega) (by omega) rfl h
  | relational => exact treeWords_chain 3 (by omega) (by omega) rfl h
  | additive => exact treeWords_chain 2 (by omega) (by omega) rfl h
  | multiplicative => exact treeWords_chain 1 (by omega) (by omega) rfl h
  | unary => exact treeWords_unary h
  | access => exact treeWords_access h
  | primary => exact treeWords_primary h
  | list => exact treeWords_list h
  | counted => exact headerWords_of_counted h
  | foreach => exact headerWords_of_foreach h
  | update => exact updateWords_closed h
  | declaration => exact declarations_closed h

/-- Every proper word derived from an expression flattens a stratified tree. -/
theorem exists_tree_of_derives {word : List Lexeme} (hproper : ProperWord word)
    (h : Derives (.nonterminal .expression) word) :
    ∃ e : Expr, e.Stratified ∧ word.map Lexeme.terminal = e.flatten := by
  obtain ⟨e, hstratified, _, hflatten⟩ := h.mem_language treeWords_closed hproper
  exact ⟨e, hstratified, hflatten⟩

/-- Every proper word derived from a header flattens a stratified one. -/
theorem exists_header_of_derives {word : List Lexeme} (hproper : ProperWord word)
    (h : Derives (.nonterminal .counted) word ∨ Derives (.nonterminal .foreach) word) :
    ∃ header : LoopHeader, header.Stratified ∧ header.FlattensTo (word.map Lexeme.terminal) :=
  h.elim (fun h => h.mem_language treeWords_closed hproper)
    fun h => h.mem_language treeWords_closed hproper

end Transclude.Expr
