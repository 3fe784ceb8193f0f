import Mathlib
import Transclude.Proofs.Blocks
import Transclude.Proofs.Nesting
import Transclude.Proofs.Occurrences

/-! # Branches of conditions

The scan for a condition stops behind its block, whatever the block holds. So what
becomes of a text is what becomes of the parts before the block, in it and behind
it, and a block that is dropped is never looked into. -/

namespace Transclude

namespace Directive

variable {delimiters : Delimiters} {name : List Char} {shape : Shape}

/-! ## Text before a directive -/

/-- A text that stands again behind what comes before it is made of that. -/
theorem forall_of_prefix_append {p : Char → Prop} {front text : List Char} (hne : front ≠ [])
    (hfront : ∀ c ∈ front, p c) (h : text <+: front ++ text) : ∀ c ∈ text, p c := by
  induction hlength : text.length using Nat.strong_induction_on generalizing text with
  | h length ih =>
      obtain hle | hle := Nat.le_total text.length front.length
      · have hshort := List.prefix_of_prefix_length_le h (List.prefix_append front text) hle
        exact fun c hc => hfront c (hshort.subset hc)
      · obtain ⟨rest, rfl⟩ :=
          List.prefix_of_prefix_length_le (List.prefix_append front text) h hle
        have hpos := List.length_pos_iff.mpr hne
        have hrest := ih rest.length (by rw [← hlength, List.length_append]; omega)
          ((List.prefix_append_right_inj front).mp h) rfl
        exact List.forall_mem_append.mpr ⟨hfront, hrest⟩

/-- No directive begins in a text without delimiters that stands before a head, unless the text ends
with a space and the delimiter is made of spaces. -/
theorem silent_before_head (hname : name ≠ []) (happart : ∀ c ∈ delimiters.opening, c ∉ name)
    {text spaces behind : List Char}
    (htext : ¬ delimiters.opening <:+: text)
    (hends : text.getLast? = some ' ' → ¬ ∀ c ∈ delimiters.opening, c = ' ') :
    Silent delimiters name text (delimiters.opening ++ (spaces ++ (name ++ behind))) := by
  have hopening : delimiters.opening ≠ [] := fun hnil => htext (hnil ▸ List.nil_infix)
  rintro front c back rfl
  by_contra hsome
  obtain ⟨head, hhead⟩ := Option.ne_none_iff_exists'.mp hsome
  obtain ⟨spaces', behind', hsplit, hspaces', _, _⟩ := exists_of_headLength? hhead
  by_cases hinside : (c :: back).length < (delimiters.opening ++ spaces' ++ name).length
  · -- the delimiter before the name ends in the spaces behind the one that is found
    have hwhole : delimiters.opening ++ spaces' ++ (name ++ behind') =
        c :: back ++ (delimiters.opening ++ (spaces ++ (name ++ behind))) := by simp [hsplit]
    obtain ⟨rest, hbefore, _⟩ :=
      delimiter_before_name happart hopening hname hwhole hinside
    have hperm : List.Perm spaces' (c :: back ++ rest) := by
      rw [← List.perm_append_left_iff delimiters.opening, hbefore, List.append_assoc,
        ← List.append_assoc delimiters.opening, ← List.append_assoc (c :: back)]
      exact List.perm_append_comm.append_right rest
    have hblank : ∀ d ∈ c :: back, d = ' ' := fun d hd =>
      hspaces' d (hperm.symm.subset (List.mem_append_left _ hd))
    have hagain : delimiters.opening <+: c :: back ++ delimiters.opening :=
      List.prefix_of_prefix_length_le (List.prefix_append _ spaces')
        (hbefore ▸ List.prefix_append _ rest) (by simp only [List.length_append]; omega)
    refine hends ?_ (forall_of_prefix_append (List.cons_ne_nil c back) hblank hagain)
    rw [List.getLast?_append_of_ne_nil _ (List.cons_ne_nil c back),
      List.getLast?_eq_some_getLast (List.cons_ne_nil c back),
      hblank _ (List.getLast_mem (List.cons_ne_nil c back))]
  · -- the delimiter that is found ends in the text
    have hopening : delimiters.opening <+: c :: back := by
      refine List.prefix_of_prefix_length_le (List.prefix_append _ (spaces' ++ (name ++ behind')))
        (hsplit ▸ List.prefix_append (c :: back) _) ?_
      simp only [List.length_append] at hinside
      omega
    exact htext (hopening.isInfix.trans (List.suffix_append front (c :: back)).isInfix)

/-- A text before a directive, without the spaces that the directive takes along because its
delimiter is made of spaces too. -/
def ahead (opening text : List Char) : List Char :=
  if opening.all (· == ' ') then text.rdropWhile (· == ' ') else text

theorem ahead_prefix (opening text : List Char) : ahead opening text <+: text := by
  unfold ahead
  split
  next => exact List.rdropWhile_prefix _ _
  next => exact List.prefix_refl text

theorem ahead_ends {opening text : List Char} (h : (ahead opening text).getLast? = some ' ') :
    ¬ ∀ c ∈ opening, c = ' ' := by
  intro hspaces
  have hall : opening.all (· == ' ') = true := by simpa using hspaces
  rw [ahead, if_pos hall] at h
  have hne : text.rdropWhile (· == ' ') ≠ [] := by
    intro hnil
    rw [hnil] at h
    cases h
  rw [List.getLast?_eq_some_getLast hne, Option.some.injEq] at h
  exact List.rdropWhile_last_not _ _ hne (beq_iff_eq.mpr h)

/-- The spaces that a directive takes along stand behind its delimiter as well. -/
theorem exists_taken_along (opening text : List Char) :
    ∃ spaces, (∀ c ∈ spaces, c = ' ') ∧
      text ++ opening = ahead opening text ++ (opening ++ spaces) := by
  unfold ahead
  split
  next hall =>
    have hopening : ∀ c ∈ opening, c = ' ' := by simpa using hall
    have hspaces : ∀ c ∈ text.rtakeWhile (· == ' '), c = ' ' :=
      fun c hc => by simpa using List.mem_rtakeWhile_imp hc
    refine ⟨text.rtakeWhile (· == ' '), hspaces, ?_⟩
    have hsplit : text.rdropWhile (· == ' ') ++ text.rtakeWhile (· == ' ') = text :=
      List.rdropWhile_append_rtakeWhile
    conv_lhs => rw [← hsplit, List.append_assoc]
    rw [List.eq_replicate_of_mem hopening, List.eq_replicate_of_mem hspaces,
      List.replicate_append_replicate, List.replicate_append_replicate, Nat.add_comm]
  next => exact ⟨[], List.forall_mem_nil _, by rw [List.append_nil]⟩

/-- A directive with the closing delimiter that it takes is complete. -/
theorem Spelled.complete {source args body ending rest : List Char}
    (h : Spelled delimiters.opening name shape source args body (ending ++ rest))
    (hending : closingLength delimiters.closing (ending ++ rest) = ending.length) :
    Complete delimiters name shape (source ++ ending) args body rest where
  nonempty := by
    obtain ⟨spaces, parts, rfl, _, _, hparts⟩ := h.split
    simp [hparts.ne_nil]
  reads := by
    obtain ⟨head, length, hhead, htail, hlength⟩ := h.reads delimiters.closing
    rw [List.append_assoc]
    exact ⟨head, length, hhead, htail, by rw [hlength, hending, List.length_append]⟩

/-- A block is spelled around every expression and with every body whose braces are balanced. -/
theorem spelled_block {opening args body spaces : List Char} (hspaces : ∀ c ∈ spaces, c = ' ')
    (hargs : Bracket.Leads true '(' ')' args 0 0)
    (hbody : Balanced (· == '\x7b') (· == '\x7d') body) (rest : List Char) :
    Spelled opening name .block (opening ++ (spaces ++ blockText name args body)) args body
      rest := by
  have hnot : ∀ c, false = true → Bracket.isQuote c = false :=
    fun _ hfalse => absurd hfalse (by decide)
  have hblank : ∀ c ∈ [' '], Text.isBlank c = true := by
    rintro c hc
    rw [List.mem_singleton.mp hc]
    decide
  refine ⟨spaces, [' '] ++ '(' :: (args ++ ')' :: ([' '] ++ '\x7b' :: (body ++ ['\x7d']))), ?_,
    hspaces, ?_, .block hblank ?_ hblank ?_⟩
  · simp [blockText]
  · rintro c ⟨⟩
    decide
  · exact hargs.closing? (fun _ => rfl) (fun _ => rfl) (by decide) _
  · exact (Bracket.Leads.of_balanced (by decide) hbody).closing? (hnot _) (hnot _) (by decide) rest

end Directive

/-! ## Pieces behind a place -/

/-- What becomes of the pieces of a text does not depend on what the scan has passed before it. -/
theorem Piece.exists_assemble_piecesFrom {m : Type → Type} [Monad m] [LawfulMonad m]
    (delimiters : Delimiters) (name : List Char) (shape : Shape)
    (give : List Char → List Char → m (Option (List Char))) (text : List Char) :
    ∃ whole : m (List Char), ∀ passed pending position,
      assemble (fun _ _ => pure ()) (fun found => give found.args found.body)
          (Directive.piecesFrom delimiters name shape passed pending position text) =
        (pending.reverse ++ ·) <$> whole := by
  induction hlength : text.length using Nat.strong_induction_on generalizing text with
  | h length ih =>
      cases text with
      | nil =>
          refine ⟨pure [], fun passed pending position => ?_⟩
          rw [Directive.piecesFrom]
          split
          next hempty => simp [assemble, List.isEmpty_iff.mp hempty]
          next => simp [assemble]
      | cons c rest =>
          have hshorter (count : Nat) : (rest.drop count).length < length := by
            rw [← hlength, List.length_cons, List.length_drop]
            omega
          cases hhead : Directive.headLength? delimiters.opening name (c :: rest) with
          | none =>
              obtain ⟨whole, hwhole⟩ := ih _ (hshorter 0) rest rfl
              refine ⟨([c] ++ ·) <$> whole, fun passed pending position => ?_⟩
              rw [Directive.piecesFrom, hhead]
              dsimp only
              rw [hwhole]
              simp
          | some head =>
              cases htail : Directive.readTail shape delimiters.closing ((c :: rest).drop head) with
              | other | unbalanced part =>
                  obtain ⟨whole, hwhole⟩ := ih _ (hshorter (head - 1)) _ rfl
                  refine ⟨((c :: rest).take (head - 1 + 1) ++ ·) <$> whole,
                    fun passed pending position => ?_⟩
                  rw [Directive.piecesFrom, hhead]
                  dsimp only
                  rw [htail]
                  simp [assemble, hwhole]
              | complete args body length' =>
                  obtain ⟨whole, hwhole⟩ := ih _ (hshorter (head + length' - 1)) _ rfl
                  refine ⟨do
                    let replacement ← give args body
                    let following ← whole
                    let own := (c :: rest).take (head + length' - 1 + 1)
                    return replacement.getD own ++ following, fun passed pending position => ?_⟩
                  rw [Directive.piecesFrom, hhead]
                  dsimp only
                  rw [htail]
                  dsimp only
                  split
                  next hempty => simp [assemble, hwhole, List.isEmpty_iff.mp hempty]
                  next => simp [assemble, hwhole]

namespace Renderer

variable {delimiters : Delimiters} {scope : Scope}

/-- What a condition leaves of its block: the body with its own conditions decided, or nothing. -/
def branch (delimiters : Delimiters) (scope : Scope) (condition body : List Char) :
    Except (Halt Error) (List Char) := do
  let held ← (Expr.holds condition scope).mapError
    (Halt.map fun cause => ⟨.evaluation cause condition, none⟩)
  bif held then (decided delimiters scope body).outcome else .ok []

theorem branch_of_holds {condition : List Char} {held : Bool}
    (h : Expr.holds condition scope = .ok held) (body : List Char) :
    branch delimiters scope condition body =
      bif held then (decided delimiters scope body).outcome else .ok [] := by
  rw [branch, h]
  rfl

/-- Deciding the conditions of a text replaces its blocks by what is left of them. -/
theorem outcome_decided_eq (delimiters : Delimiters) (scope : Scope) (text : List Char) :
    (decided delimiters scope text).outcome =
      Piece.assemble (fun _ _ => pure ())
        (fun found => some <$> branch delimiters scope found.args found.body)
        (Directive.pieces delimiters "if".toList .block text) := by
  rw [decided_eq, replaceDirectives, Piece.outcome_assemble _ fun _ _ => rfl]
  congr 1
  funext found
  simp only [Run.outcome_bind, Run.outcome_lift, conditionHolds, branch]
  cases (Expr.holds found.args scope).mapError _ with
  | error reason => rfl
  | ok held =>
      cases held with
      | true =>
          simp only [ok_bind, if_true, Run.outcome_bind, cond_true]
          cases (decided delimiters scope found.body).outcome <;> rfl
      | false => rfl

/-- A block is replaced between the text before it and what becomes of the text behind it. -/
theorem outcome_decided_block {front source condition body rest : List Char}
    (hfront : Directive.Silent delimiters "if".toList front (source ++ rest))
    (hsource : Directive.Complete delimiters "if".toList .block source condition body rest) :
    (decided delimiters scope (front ++ (source ++ rest))).outcome = do
      let inner ← branch delimiters scope condition body
      let following ← (decided delimiters scope rest).outcome
      return front ++ inner ++ following := by
  obtain ⟨whole, hwhole⟩ := Piece.exists_assemble_piecesFrom delimiters "if".toList .block
    (fun args body => some <$> branch delimiters scope args body) rest
  obtain ⟨found, rfl, rfl, hfound⟩ :=
    Directive.piecesFrom_complete hsource (front.reverse ++ []) (front.reverse ++ [])
      (0 + front.length)
  have hrest : (decided delimiters scope rest).outcome = whole := by
    rw [outcome_decided_eq, Directive.pieces, hwhole]
    simp
  rw [outcome_decided_eq, Directive.pieces, Directive.piecesFrom_silent hfront, hfound, hrest]
  split
  next hempty =>
    obtain rfl : front = [] := by simpa using hempty
    rw [List.nil_append, Piece.assemble, hwhole]
    simp
  next =>
    rw [List.singleton_append, Piece.assemble, Piece.assemble, hwhole]
    simp

/-- The text of a block for a condition. -/
def conditionText (opening condition body : List Char) : List Char :=
  opening ++ Directive.blockText "if".toList condition body

/-- Around the block for a condition the text before it is kept, and the text behind it and its
closing delimiter is decided on its own. -/
theorem outcome_decided_conditionText
    (happart : ∀ c ∈ delimiters.opening, c ∉ "if".toList) {text condition body : List Char}
    (htext : ¬ delimiters.opening <:+: text) (hcondition : Bracket.Leads true '(' ')' condition 0 0)
    (hbody : Balanced (· == '\x7b') (· == '\x7d') body) {ending rest : List Char}
    (hending : Directive.closingLength delimiters.closing (ending ++ rest) = ending.length) :
    (decided delimiters scope
        (text ++ (conditionText delimiters.opening condition body ++
          (ending ++ rest)))).outcome = do
      let inner ← branch delimiters scope condition body
      let following ← (decided delimiters scope rest).outcome
      return Directive.ahead delimiters.opening text ++ inner ++ following := by
  obtain ⟨spaces, hspaces, hmoved⟩ := Directive.exists_taken_along delimiters.opening text
  have hwhole : text ++ (conditionText delimiters.opening condition body ++ (ending ++ rest)) =
      Directive.ahead delimiters.opening text ++ ((delimiters.opening ++
        (spaces ++ Directive.blockText "if".toList condition body) ++ ending) ++ rest) := by
    rw [conditionText, List.append_assoc, ← List.append_assoc text, hmoved]
    simp only [List.append_assoc]
  rw [hwhole]
  refine outcome_decided_block ?_
    ((Directive.spelled_block hspaces hcondition hbody (ending ++ rest)).complete hending)
  have hahead := Directive.ahead_prefix delimiters.opening text
  simp only [Directive.blockText, List.append_assoc]
  exact Directive.silent_before_head (by decide) happart
    (fun hfound => htext (hfound.trans hahead.isInfix)) Directive.ahead_ends

/-- Deciding a condition takes a text apart. What is left of its block does not depend on the body
when the condition does not hold. It stands between the text before the block and what becomes of
the text behind it and its closing delimiter, and the first of these parts that fails is what
fails. -/
theorem decides_branches (happart : ∀ c ∈ delimiters.opening, c ∉ "if".toList)
    {text condition body : List Char} {expr : Expr} (htext : ¬ delimiters.opening <:+: text)
    (hcondition : Expr.parse condition = .ok expr)
    (hbody : Balanced (· == '\x7b') (· == '\x7d') body) {held : Bool}
    (hholds : Expr.holds condition scope = .ok held) :
    (held = false → ∀ other behind, Balanced (· == '\x7b') (· == '\x7d') other →
      (decided delimiters scope
          (text ++ (conditionText delimiters.opening condition other ++ behind))).outcome =
        (decided delimiters scope
          (text ++ (conditionText delimiters.opening condition body ++ behind))).outcome) ∧
    ((∀ c ∈ delimiters.closing.head?, Text.isBlank c = false) → ∀ ending rest,
      Directive.Taken delimiters.closing ending rest →
      (decided delimiters scope (text ++
          (conditionText delimiters.opening condition body ++ (ending ++ rest)))).outcome = do
        let inner ← bif held then (decided delimiters scope body).outcome else .ok []
        let following ← (decided delimiters scope rest).outcome
        return Directive.ahead delimiters.opening text ++ inner ++ following) := by
  have hleads := Expr.leads_of_parse .round hcondition
  constructor
  · rintro rfl other behind hother
    obtain ⟨ending, rest, rfl, htaken⟩ : ∃ ending rest, behind = ending ++ rest ∧
        Directive.Taken delimiters.closing ending rest :=
      ⟨_, _, (List.take_append_drop _ behind).symm, Directive.taken_closingLength _ behind⟩
    rw [outcome_decided_conditionText happart htext hleads hother htaken.closingLength,
      outcome_decided_conditionText happart htext hleads hbody htaken.closingLength,
      branch_of_holds hholds, branch_of_holds hholds]
    rfl
  · intro _ ending rest htaken
    rw [outcome_decided_conditionText happart htext hleads hbody htaken.closingLength,
      branch_of_holds hholds]

/-- A quote, a bracket and a head that end nowhere make no difference in a body. -/
theorem decides_branches_unread :
    (decided ⟨['<', '%'], ['%', '>']⟩ [] ("a <".toList ++
        (conditionText ['<', '%'] "false".toList "it's <%if (".toList ++ " %> b".toList))).outcome =
      (decided ⟨['<', '%'], ['%', '>']⟩ [] ("a <".toList ++
        (conditionText ['<', '%'] "false".toList "<%if (x) \x7b\x7d".toList ++
          " %> b".toList))).outcome ∧
    (decided ⟨['<', '%'], ['%', '>']⟩ [] ("a <".toList ++
        (conditionText ['<', '%'] "false".toList "<%if (x) \x7b\x7d".toList ++
          (" %>".toList ++ " b".toList)))).outcome = .ok "a < b".toList := by
  have hparse : Expr.parse "false".toList = .ok (.literal (.bool false)) := by cbv
  have hholds : Expr.holds "false".toList [] = .ok false := by cbv
  have hbody : Balanced (· == '\x7b') (· == '\x7d') "<%if (x) \x7b\x7d".toList := by decide
  have htext : ¬ ['<', '%'] <:+: "a <".toList := by decide
  have happart : ∀ c ∈ ['<', '%'], c ∉ "if".toList := by simp
  have htaken : Directive.Taken ['%', '>'] " %>".toList " b".toList :=
    ⟨fun _ => .inl ⟨[' '], by simp; decide, rfl⟩, fun h => absurd (h '%' rfl) (by decide)⟩
  have hclosing : ∀ c ∈ ['%', '>'].head?, Text.isBlank c = false := by
    rintro c ⟨⟩
    decide
  obtain ⟨hdropped, hdecided⟩ :=
    @decides_branches ⟨['<', '%'], ['%', '>']⟩ _ happart _ _ _ _ htext hparse hbody _ hholds
  refine ⟨hdropped rfl _ _ (by decide), (hdecided hclosing _ _ htaken).trans ?_⟩
  cbv

/-- A delimiter of two spaces takes a space before it along, so that not all of the text before the
block is kept. -/
theorem not_decides_branches :
    (∀ c ∈ [' ', ' '], c ∉ "if".toList) ∧ ¬ [' ', ' '] <:+: ['x', ' '] ∧
      Expr.holds "false".toList [] = .ok false ∧ Balanced (· == '\x7b') (· == '\x7d') ['a'] ∧
      (decided ⟨[' ', ' '], []⟩ [] (['x', ' '] ++
        (conditionText [' ', ' '] "false".toList ['a'] ++ []))).outcome ≠ do
          let following ← (decided ⟨[' ', ' '], []⟩ [] []).outcome
          return ['x', ' '] ++ following := by
  refine ⟨by simp, by decide, by cbv, by decide, ?_⟩
  have hleft : (decided ⟨[' ', ' '], []⟩ [] (['x', ' '] ++
      (conditionText [' ', ' '] "false".toList ['a'] ++ []))).outcome = .ok ['x'] := by
    cbv
  have hright : (decided ⟨[' ', ' '], []⟩ [] []).outcome = .ok [] := by cbv
  rw [hleft, hright]
  intro heq
  cases heq

end Renderer

end Transclude
