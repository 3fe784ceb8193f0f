import Transclude.Proofs.RoundTrip

/-! # Loop headers and their tokens

The readers of headers are sound and give back what flattens to the tokens, as
those of expressions. -/

namespace Transclude.Expr

variable {tokens used rest : List Token}

theorem readExpression_reads {e : Expr} (h : readExpression tokens = .ok (e, rest)) :
    Reads tokens 8 e rest :=
  (readers_sound _).expr h

theorem expectEnd_eq_ok {u : Unit} (h : expectEnd tokens = .ok u) : tokens = [] := by
  cases tokens with
  | nil => rfl
  | cons token rest => cases h

theorem expectName_spans {problem : SyntaxProblem} {name : String}
    (h : expectName problem tokens = .ok (name, rest)) : Spans tokens [.identifier name] rest := by
  unfold expectName at h
  split at h
  next name' position behind =>
    cases h
    exact .cons _ (.refl _)
  next => cases h

/-! ## Soundness -/

/-- An assignment of an expression behind a name is sound, whatever its operator. -/
theorem assignment_sound {change : Expr → Change} {op : Operator} {name : String} {position : Nat}
    {behind : List Token} {update : LoopUpdate} (hoperand : ∀ e, (change e).operand? = some e)
    (hflattenings : ∀ e, LoopUpdate.flattenings ⟨name, change e⟩ =
      [.identifier name :: .operator op :: e.flatten])
    (hname : Spans tokens [.identifier name] (⟨.operator op, position⟩ :: behind))
    (h : (do
      let (e, rest) ← readExpression behind
      return (⟨name, change e⟩, rest)) = Except.ok (update, rest)) :
    update.Stratified ∧ ∃ word ∈ update.flattenings, Spans tokens word rest := by
  obtain ⟨⟨e, final⟩, he, h⟩ := bind_eq_ok.mp h
  replace he := readExpression_reads he
  cases h
  refine ⟨?_, _, ?_, hname.trans (.cons _ he.spans)⟩
  · intro operand hmem
    rw [hoperand] at hmem
    cases hmem
    exact he.stratified
  · rw [hflattenings]
    exact List.mem_singleton.mpr rfl

theorem readUpdate_sound {update : LoopUpdate} (h : readUpdate tokens = .ok (update, rest)) :
    update.Stratified ∧ ∃ word ∈ update.flattenings, Spans tokens word rest := by
  unfold readUpdate at h
  split at h
  next position behind =>
    obtain ⟨⟨name, rest⟩, hname, h⟩ := bind_eq_ok.mp h
    cases h
    exact ⟨nofun, _, by simp [LoopUpdate.flattenings], .cons _ (expectName_spans hname)⟩
  next position behind =>
    obtain ⟨⟨name, rest⟩, hname, h⟩ := bind_eq_ok.mp h
    cases h
    exact ⟨nofun, _, by simp [LoopUpdate.flattenings], .cons _ (expectName_spans hname)⟩
  next =>
    obtain ⟨⟨name, behind⟩, hname, h⟩ := bind_eq_ok.mp h
    replace hname := expectName_spans hname
    dsimp only at h
    split at h
    next position rest =>
      cases h
      exact ⟨nofun, _, by simp [LoopUpdate.flattenings], hname.trans (.cons _ (.refl _))⟩
    next position rest =>
      cases h
      exact ⟨nofun, _, by simp [LoopUpdate.flattenings], hname.trans (.cons _ (.refl _))⟩
    next position behind =>
      exact assignment_sound (fun _ => rfl) (fun _ => rfl) hname h
    next position behind =>
      exact assignment_sound (fun _ => rfl) (fun _ => rfl) hname h
    next position behind =>
      exact assignment_sound (fun _ => rfl) (fun _ => rfl) hname h
    next => cases h

theorem readTest_sound {test : Option Expr} (h : readTest tokens = .ok (test, rest)) :
    (∀ e ∈ test, e.Stratified) ∧
      Spans tokens (test.elim [] flatten ++ [.symbol .semicolon]) rest := by
  unfold readTest at h
  split at h
  next position behind =>
    cases h
    exact ⟨nofun, .cons _ (.refl _)⟩
  next =>
    obtain ⟨⟨e, behind⟩, he, h⟩ := bind_eq_ok.mp h
    obtain ⟨after, hafter, h⟩ := bind_eq_ok.mp h
    replace he := readExpression_reads he
    cases h
    exact ⟨by rintro _ ⟨⟩; exact he.stratified, he.spans.trans (expectSymbol_spans hafter)⟩

theorem skipDeclaration_spans (tokens : List Token) :
    ∃ word ∈ LoopHeader.declarations, Spans tokens word (skipDeclaration tokens) := by
  unfold skipDeclaration
  split
  · exact ⟨[.keyword .varWord], by simp [LoopHeader.declarations], .cons _ (.refl _)⟩
  · exact ⟨[.keyword .letWord], by simp [LoopHeader.declarations], .cons _ (.refl _)⟩
  · exact ⟨[.keyword .constWord], by simp [LoopHeader.declarations], .cons _ (.refl _)⟩
  · exact ⟨[], by simp [LoopHeader.declarations], .refl _⟩

theorem forEach_sound {name : String} (mode : Enumeration) {word : Keyword} {position : Nat}
    {behind : List Token} {header : LoopHeader} (hmode : mode.terminal = .keyword word)
    (hname : Spans tokens [.identifier name] (⟨.keyword word, position⟩ :: behind))
    (h : (do
      let (collection, rest) ← readExpression behind
      expectEnd rest
      return LoopHeader.forEach name mode collection) = .ok header) :
    header.Stratified ∧ ∃ body ∈ header.flattenings, Spans tokens body [] := by
  obtain ⟨⟨collection, final⟩, hcollection, h⟩ := bind_eq_ok.mp h
  obtain ⟨_, hend, h⟩ := bind_eq_ok.mp h
  obtain rfl := expectEnd_eq_ok hend
  cases h
  replace hcollection := readExpression_reads hcollection
  refine ⟨hcollection.stratified, _, List.mem_singleton.mpr rfl, ?_⟩
  rw [hmode]
  exact hname.trans (.cons _ hcollection.spans)

/-- What the reader of headers returns is stratified and flattens to the tokens. -/
theorem readHeader_sound {header : LoopHeader} (hproper : ProperTokens tokens)
    (h : readHeader tokens = .ok header) :
    header.Stratified ∧ header.FlattensTo (terminals tokens) := by
  -- the body of the header, behind a word of declaration
  suffices hbody : header.Stratified ∧
      ∃ body ∈ header.flattenings, Spans (skipDeclaration tokens) body [] by
    obtain ⟨hstratified, body, hbody, hspans⟩ := hbody
    obtain ⟨declaration, hdeclaration, hskipped⟩ := skipDeclaration_spans tokens
    exact ⟨hstratified, declaration, hdeclaration, body, hbody,
      (hskipped.trans hspans).terminals_eq hproper⟩
  unfold readHeader at h
  obtain ⟨⟨name, behind⟩, hname, h⟩ := bind_eq_ok.mp h
  replace hname := expectName_spans hname
  dsimp only at h
  split at h
  next position rest => exact forEach_sound .values rfl hname h
  next position rest => exact forEach_sound .keys rfl hname h
  next position rest =>
    obtain ⟨⟨init, behind⟩, hinit, h⟩ := bind_eq_ok.mp h
    obtain ⟨after, hafter, h⟩ := bind_eq_ok.mp h
    obtain ⟨⟨test, last⟩, htest, h⟩ := bind_eq_ok.mp h
    replace hinit := readExpression_reads hinit
    obtain ⟨htestStratified, htest⟩ := readTest_sound htest
    have hfront := hname.trans (.cons ⟨.operator .assign, position⟩
      ((hinit.spans.trans (expectSymbol_spans hafter)).trans htest))
    dsimp only at h hfront
    split at h
    next =>
      cases h
      refine ⟨⟨hinit.stratified, htestStratified, nofun⟩, _, List.mem_map_of_mem
        (List.mem_singleton.mpr rfl), ?_⟩
      simpa using hfront
    next =>
      obtain ⟨⟨update, final⟩, hupdate, h⟩ := bind_eq_ok.mp h
      obtain ⟨_, hend, h⟩ := bind_eq_ok.mp h
      obtain rfl := expectEnd_eq_ok hend
      obtain ⟨hupdateStratified, word, hword, hupdate⟩ := readUpdate_sound hupdate
      cases h
      refine ⟨⟨hinit.stratified, htestStratified, by rintro _ ⟨⟩; exact hupdateStratified⟩, _,
        List.mem_map_of_mem hword, ?_⟩
      simpa using hfront.trans hupdate
  next => cases h

/-! ## Completeness -/

theorem readExpression_whole {e : Expr} (h : e.Stratified) (hused : terminals used = e.flatten) :
    readExpression used = .ok (e, []) := by
  have hread := readExpression_of_flatten h hused [] (stops_nil 7)
  rwa [List.append_nil] at hread

theorem readUpdate_of_flattenings {update : LoopUpdate} (h : update.Stratified)
    (hused : terminals used ∈ update.flattenings) : readUpdate used = .ok (update, []) := by
  obtain ⟨name, change⟩ := update
  cases change with
  | increment | decrement =>
      simp only [LoopUpdate.flattenings, List.mem_cons, List.not_mem_nil, or_false] at hused
      obtain hused | hused := hused
      all_goals
        obtain ⟨⟨_, _⟩, _, rfl, hfirst, hback⟩ := terminals_eq_cons.mp hused
        obtain ⟨⟨_, _⟩, _, rfl, hsecond, hnil⟩ := terminals_eq_cons.mp hback
        obtain rfl := List.map_eq_nil_iff.mp hnil
      · obtain rfl := terminal_eq_identifier.mp hfirst
        obtain rfl := terminal_eq_operator.mp hsecond
        rfl
      · obtain rfl := terminal_eq_operator.mp hfirst
        obtain rfl := terminal_eq_identifier.mp hsecond
        rfl
  | addAssign e | subAssign e | assign e =>
      obtain ⟨⟨_, _⟩, _, rfl, hfirst, hback⟩ :=
        terminals_eq_cons.mp (List.mem_singleton.mp hused)
      obtain ⟨⟨_, _⟩, _, rfl, hsecond, hoperand⟩ := terminals_eq_cons.mp hback
      obtain rfl := terminal_eq_identifier.mp hfirst
      obtain rfl := terminal_eq_operator.mp hsecond
      have hread := readExpression_whole (h e rfl) hoperand
      simp only [readUpdate, expectName, bind, Except.bind, hread]
      rfl

theorem readTest_of_flatten {test : Option Expr} (h : ∀ e ∈ test, e.Stratified)
    (hused : terminals used = test.elim [] flatten) (position : Nat) (rest : List Token) :
    readTest (used ++ ⟨.symbol .semicolon, position⟩ :: rest) = .ok (test, rest) := by
  cases test with
  | none =>
      obtain rfl := List.map_eq_nil_iff.mp hused
      rfl
  | some e =>
      have hread := readExpression_of_flatten (h e rfl) hused
        (⟨.symbol .semicolon, position⟩ :: rest) (stops_of_reach rfl)
      -- a test never begins with the semicolon that would make it absent
      obtain ⟨terminal, word, hword, _, hnot, _⟩ := flatten_head e (h e rfl)
      obtain ⟨⟨lexeme, place⟩, more, rfl, hlexeme, _⟩ := terminals_eq_cons.mp (hused.trans hword)
      unfold readTest
      split
      next heq =>
        cases heq
        exact absurd hlexeme.symm hnot
      next =>
        rw [hread]
        simp only [bind, Except.bind, expectSymbol_self]
        rfl

theorem skipDeclaration_of_mem {declaration : List Token}
    (h : terminals declaration ∈ LoopHeader.declarations) {name : String} {position : Nat}
    (rest : List Token) :
    skipDeclaration (declaration ++ ⟨.identifier name, position⟩ :: rest) =
      ⟨.identifier name, position⟩ :: rest := by
  simp only [LoopHeader.declarations, List.mem_cons, List.not_mem_nil, or_false] at h
  obtain h | h | h | h := h
  · obtain rfl := List.map_eq_nil_iff.mp h
    rfl
  all_goals
    obtain ⟨⟨_, _⟩, _, rfl, hword, h⟩ := terminals_eq_cons.mp h
    obtain rfl := List.map_eq_nil_iff.mp h
    obtain rfl := terminal_eq_keyword.mp hword
    rfl

/-- A stratified header is read from all tokens that it flattens to. -/
theorem readHeader_of_flattensTo {header : LoopHeader} (h : header.Stratified)
    (hused : header.FlattensTo (terminals used)) : readHeader used = .ok header := by
  obtain ⟨_, hdeclaration, body, hbody, hused⟩ := hused
  obtain ⟨declaration, back, rfl, rfl, rfl⟩ := terminals_eq_append.mp hused
  cases header with
  | counted name init test update =>
      obtain ⟨step, hstep, hback⟩ := List.mem_map.mp hbody
      simp only [List.cons_append, List.append_assoc, List.nil_append] at hback
      obtain ⟨⟨_, _⟩, _, rfl, hname, hback⟩ := terminals_eq_cons.mp hback.symm
      obtain ⟨⟨_, _⟩, _, rfl, hassign, hback⟩ := terminals_eq_cons.mp hback
      obtain ⟨initial, ⟨_, position⟩, _, rfl, hinitial, hsemicolon, hback⟩ :=
        terminals_eq_around hback
      obtain ⟨condition, ⟨_, position'⟩, last, rfl, hcondition, hsemicolon', rfl⟩ :=
        terminals_eq_around hback
      obtain rfl := terminal_eq_identifier.mp hname
      obtain rfl := terminal_eq_operator.mp hassign
      obtain rfl := terminal_eq_symbol.mp hsemicolon
      obtain rfl := terminal_eq_symbol.mp hsemicolon'
      have hread := readExpression_of_flatten h.1 hinitial
        (⟨.symbol .semicolon, position⟩ :: (condition ++ ⟨.symbol .semicolon, position'⟩ :: last))
        (stops_of_reach rfl)
      rw [readHeader, skipDeclaration_of_mem hdeclaration]
      simp only [expectName, bind, Except.bind, hread, expectSymbol_self,
        readTest_of_flatten h.2.1 hcondition]
      cases update with
      | none =>
          obtain rfl := List.map_eq_nil_iff.mp (List.mem_singleton.mp hstep)
          rfl
      | some update =>
          have hread := readUpdate_of_flattenings (h.2.2 update rfl) hstep
          cases last with
          | nil => cases hread
          | cons token last =>
              simp only [hread]
              rfl
  | forEach name mode collection =>
      obtain ⟨⟨_, _⟩, _, rfl, hname, hback⟩ := terminals_eq_cons.mp (List.mem_singleton.mp hbody)
      obtain ⟨⟨_, _⟩, back, rfl, hmode, hback⟩ := terminals_eq_cons.mp hback
      obtain rfl := terminal_eq_identifier.mp hname
      have hread := readExpression_whole h hback
      rw [readHeader, skipDeclaration_of_mem hdeclaration]
      cases mode with
      | values =>
          obtain rfl := terminal_eq_keyword.mp hmode
          simp only [expectName, bind, Except.bind, hread]
          rfl
      | keys =>
          obtain rfl := terminal_eq_keyword.mp hmode
          simp only [expectName, bind, Except.bind, hread]
          rfl

end Transclude.Expr
