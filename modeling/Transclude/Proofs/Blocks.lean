import Mathlib
import Transclude.Directive.Split
import Transclude.Proofs.Conditions
import Transclude.Proofs.Layout

/-! # Blocks around expressions

The scan for blocks and the lexer of expressions agree on where strings end and on
which round brackets count. So a block around an expression or a loop header is
found with exactly these arguments, whatever the delimiters are. -/

namespace Transclude

namespace Expr

/-! ## Loop headers between brackets -/

theorem closed_update (update : LoopUpdate) : ∀ word ∈ update.flattenings, Closed word := by
  obtain ⟨name, change⟩ := update
  have hname : Closed [.identifier name] := closed_singleton rfl rfl
  have hoperator (op : Operator) : Closed [.operator op] := closed_singleton rfl rfl
  intro word hword
  cases change with
  | increment | decrement =>
      simp only [LoopUpdate.flattenings, List.mem_cons, List.not_mem_nil, or_false] at hword
      obtain rfl | rfl := hword
      · exact hname.append (hoperator _)
      · exact (hoperator _).append hname
  | addAssign e | subAssign e | assign e =>
      obtain rfl := List.mem_singleton.mp hword
      exact hname.append ((hoperator _).append (closed_flatten e))

theorem closed_enumeration (mode : Enumeration) : Closed [mode.terminal] := by
  cases mode <;> exact closed_singleton rfl rfl

theorem closed_declaration : ∀ word ∈ LoopHeader.declarations, Closed word := by decide

/-- The round brackets of a loop header are balanced. -/
theorem closed_of_flattensTo {header : LoopHeader} {word : List Terminal}
    (h : header.FlattensTo word) : Closed word := by
  obtain ⟨declaration, hdeclaration, body, hbody, rfl⟩ := h
  refine (closed_declaration declaration hdeclaration).append ?_
  cases header with
  | counted name init test update =>
      have hname : Closed [.identifier name] := closed_singleton rfl rfl
      have hassign : Closed [.operator .assign] := closed_singleton rfl rfl
      have hsemicolon : Closed [.symbol .semicolon] := closed_singleton rfl rfl
      have htest : Closed (test.elim [] flatten) := by
        cases test with
        | none => exact balanced_nil
        | some e => exact closed_flatten e
      obtain ⟨step, hstep, rfl⟩ := List.mem_map.mp hbody
      have hupdate : Closed step := by
        cases update with
        | none =>
            obtain rfl := List.mem_singleton.mp hstep
            exact balanced_nil
        | some update => exact closed_update update step hstep
      have hfront := hname.append (hassign.append (closed_flatten init))
      exact ((hfront.append (hsemicolon.append htest)).append hsemicolon).append hupdate
  | forEach name mode collection =>
      have hname : Closed [.identifier name] := closed_singleton rfl rfl
      obtain rfl := List.mem_singleton.mp hbody
      exact hname.append ((closed_enumeration mode).append (closed_flatten collection))

/-- The scan for a bracket passes over a loop header. -/
theorem leads_of_parseHeader {text : List Char} {header : LoopHeader}
    (h : parseHeader text = .ok header) : Bracket.Leads true '(' ')' text 0 0 := by
  cases htokens : tokenize text with
  | error error =>
      have herror : parseHeader text ≠ .ok header := by
        simp [parseHeader, tokensOf, htokens, bind, Except.bind]
      exact absurd h herror
  | ok tokens =>
      have hread := (parseHeader_eq_ok htokens).mp h
      obtain ⟨_, hflattens⟩ := readHeader_sound (tokenize_proper htokens) hread
      exact leads_of_tokenize htokens (closed_of_flattensTo hflattens)

end Expr

namespace Directive

/-! ## Blocks -/

/-- The text of a block: the name, the arguments in round brackets and the body in braces. -/
def blockText (name args body : List Char) : List Char :=
  name ++ " (".toList ++ args ++ ") \x7b".toList ++ body ++ "\x7d".toList

theorem leadingBlanks_space {c : Char} (h : Text.isBlank c = false) (rest : List Char) :
    Text.leadingBlanks (' ' :: c :: rest) = 1 := by
  rw [Text.leadingBlanks, List.takeWhile_cons_of_pos (by decide),
    List.takeWhile_cons_of_neg (by simpa using h)]
  rfl

/-- A body whose braces are balanced is read whole. -/
theorem readBody_balanced {body : List Char}
    (hbody : Balanced (· == '\x7b') (· == '\x7d') body) (closing args : List Char) (length : Nat)
    (rest : List Char) :
    readBody closing args length (' ' :: '\x7b' :: (body ++ '\x7d' :: rest)) =
      .complete args body (length + body.length + 3 + closingLength closing rest) := by
  have hnot : ∀ c, false = true → Bracket.isQuote c = false :=
    fun _ hfalse => absurd hfalse (by decide)
  have hleads := Bracket.Leads.of_balanced (by decide) hbody
  have hread := bracketed?_of_leads hleads (hnot _) (hnot _) (by decide) rest
  have hblank : Text.isBlank '\x7b' = false := by decide
  have hbehind : ('\x7b' :: (body ++ '\x7d' :: rest)).drop (body.length + 2) = rest := by
    rw [List.drop_succ_cons, ← List.drop_drop, List.drop_left]
    rfl
  unfold readBody
  simp only [leadingBlanks_space hblank, List.drop_succ_cons, List.drop_zero, hread]
  rw [← List.drop_succ_cons, hbehind]
  congr 1
  omega

/-- What stands behind the head of a block is read with its arguments and its body. -/
theorem readTail_balanced {args body : List Char} (hargs : Bracket.Leads true '(' ')' args 0 0)
    (hbody : Balanced (· == '\x7b') (· == '\x7d') body) (closing rest : List Char) :
    readTail .block closing
        (' ' :: '(' :: (args ++ ')' :: ' ' :: '\x7b' :: (body ++ '\x7d' :: rest))) =
      .complete args body (args.length + body.length + 6 + closingLength closing rest) := by
  have hread := bracketed?_of_leads hargs (fun _ => rfl) (fun _ => rfl) (by decide)
    (' ' :: '\x7b' :: (body ++ '\x7d' :: rest))
  have hblank : Text.isBlank '(' = false := by decide
  have hdrop : ('(' :: (args ++ ')' :: ' ' :: '\x7b' :: (body ++ '\x7d' :: rest))).drop
      (args.length + 2) = ' ' :: '\x7b' :: (body ++ '\x7d' :: rest) := by
    rw [List.drop_succ_cons, ← List.drop_drop, List.drop_left]
    rfl
  unfold readTail
  simp only [if_true, leadingBlanks_space hblank, List.drop_succ_cons, List.drop_zero, hread]
  rw [← List.drop_succ_cons, hdrop, readBody_balanced hbody]
  congr 1
  omega

/-- A block behind an opening delimiter is read with its arguments and its body. -/
theorem reads_blockText (delimiters : Delimiters) {name args body : List Char} (hne : name ≠ [])
    (hspace : name.head? ≠ some ' ') (hargs : Bracket.Leads true '(' ')' args 0 0)
    (hbody : Balanced (· == '\x7b') (· == '\x7d') body) (rest : List Char) :
    headLength? delimiters.opening name (delimiters.opening ++ blockText name args body ++ rest) =
        some (delimiters.opening.length + name.length) ∧
      readTail .block delimiters.closing
          ((delimiters.opening ++ blockText name args body ++ rest).drop
            (delimiters.opening.length + name.length)) =
        .complete args body
          (args.length + body.length + 6 + closingLength delimiters.closing rest) := by
  have htext : delimiters.opening ++ blockText name args body ++ rest = delimiters.opening ++
      (name ++ ' ' :: '(' :: (args ++ ')' :: ' ' :: '\x7b' :: (body ++ '\x7d' :: rest))) := by
    simp [blockText]
  have hends : ∀ c ∈ (' ' :: '(' ::
      (args ++ ')' :: ' ' :: '\x7b' :: (body ++ '\x7d' :: rest))).head?,
      Text.isIdentifierPart c = false := by
    rintro c ⟨⟩
    decide
  rw [htext]
  refine ⟨headLength?_append delimiters.opening hne hspace hends, ?_⟩
  rw [← List.drop_drop, List.drop_left, List.drop_left]
  exact readTail_balanced hargs hbody delimiters.closing rest

theorem complete_block {name args body : List Char} (hne : name ≠ [])
    (hspace : name.head? ≠ some ' ') (hargs : Bracket.Leads true '(' ')' args 0 0)
    (hbody : Balanced (· == '\x7b') (· == '\x7d') body) (rest : List Char) :
    Complete .standard name .block ('@' :: '@' :: blockText name args body) args body rest where
  nonempty := List.cons_ne_nil _ _
  reads := by
    obtain ⟨hhead, htail⟩ := reads_blockText .standard hne hspace hargs hbody rest
    refine ⟨_, _, hhead, htail, ?_⟩
    simp [blockText, Delimiters.standard, closingLength]
    omega

/-- A directive that a text begins with is the first one of the text. -/
theorem head?_all {delimiters : Delimiters} {name : List Char} {shape : Shape}
    {text args body : List Char} {head length : Nat} (hne : text ≠ [])
    (hhead : headLength? delimiters.opening name text = some head)
    (htail : readTail shape delimiters.closing (text.drop head) = .complete args body length) :
    ∃ found, (all delimiters name shape text).head? = some found ∧
      found.start = 0 ∧ found.args = args ∧ found.body = body := by
  obtain ⟨c, rest, rfl⟩ := List.exists_cons_of_ne_nil hne
  rw [all, pieces, piecesFrom, hhead]
  dsimp only
  rw [htail]
  exact ⟨_, rfl, rfl, rfl, rfl⟩

/-- Around every expression and every loop header, and with every body whose braces are balanced,
the first block of a text that begins with it has exactly these arguments and this body, whatever
the delimiters are and whatever follows. -/
theorem first_block_of_parses (delimiters : Delimiters) {name args body : List Char}
    (hname : name ∈ ["if".toList, "for".toList])
    (hargs : (∃ e, Expr.parse args = .ok e) ∨ ∃ header, Expr.parseHeader args = .ok header)
    (hbody : Balanced (· == '\x7b') (· == '\x7d') body) (rest : List Char) :
    ∃ found, (all delimiters name .block
        (delimiters.opening ++ blockText name args body ++ rest)).head? = some found ∧
      found.start = 0 ∧ found.args = args ∧ found.body = body := by
  have hleads : Bracket.Leads true '(' ')' args 0 0 := by
    obtain ⟨e, h⟩ | ⟨header, h⟩ := hargs
    · exact Expr.leads_of_parse .round h
    · exact Expr.leads_of_parseHeader h
  have hbegins : name ≠ [] ∧ name.head? ≠ some ' ' := by
    simp only [List.mem_cons, List.not_mem_nil, or_false] at hname
    obtain rfl | rfl := hname <;> decide
  obtain ⟨hhead, htail⟩ := reads_blockText delimiters hbegins.1 hbegins.2 hleads hbody rest
  exact head?_all (by simp [blockText, hbegins.1]) hhead htail

/-- A bracket in a string behind an escaped quote does not end the condition, and a quote in the body
hides no brace. -/
theorem first_block_of_parses_quoted :
    ∃ found, (all ⟨"#(".toList, ")#".toList⟩ "if".toList .block
        ("#(".toList ++ blockText "if".toList "x == ')\\\")' || (a)".toList
          "\x7b'\x7d x".toList ++ ")# y".toList)).head? = some found ∧
      found.start = 0 ∧ found.args = "x == ')\\\")' || (a)".toList ∧
      found.body = "\x7b'\x7d x".toList :=
  first_block_of_parses ⟨"#(".toList, ")#".toList⟩ (by decide)
    (.inl ⟨.binary .or (.binary .equal (.identifier "x") (.literal (.str ")\")")))
      (.group (.identifier "a")), by cbv⟩) (by decide) ")# y".toList

end Directive

end Transclude
