import Mathlib
import Transclude.Proofs.Agreement
import Transclude.Proofs.Blocks
import Transclude.Proofs.Nesting
import Transclude.Proofs.Occurrences

/-! # Placeholders in the body of a loop

A body is literals and placeholders in turn. It is cut into just these, whatever strings
stand in the expressions, unless a loop stands in it. But the braces that delimit the
body itself are counted in strings too, so that it is extracted whole only when all of
them are balanced. -/

namespace Transclude

namespace Loop

/-- The sign that a placeholder begins with. -/
def placeholderSign : List Char := ['$', '\x7b']

/-- A placeholder in a body: the text of its expression, the expression, and the literal behind
it. -/
structure Inset where
  source : List Char
  expr : Expr
  behind : List Char
  parses : Expr.parse source = .ok expr
  plain : ¬ placeholderSign <:+: behind

/-- The text of a placeholder and of the literal behind it. -/
def Inset.text (inset : Inset) : List Char :=
  '$' :: '\x7b' :: (inset.source ++ '\x7d' :: inset.behind)

/-- A placeholder and the literal behind it. -/
def Inset.segments (inset : Inset) : List Segment :=
  [.placeholder inset.expr, .literal (String.ofList inset.behind)]

/-- A body: a literal, and placeholders with literals behind them. Literals may be empty. -/
structure Body where
  first : List Char
  insets : List Inset
  plain : ¬ placeholderSign <:+: first

namespace Body

/-- The text of a body. -/
def text (body : Body) : List Char := body.first ++ body.insets.flatMap Inset.text

/-- The literals of a body and its expressions. -/
def segments (body : Body) : List Segment :=
  .literal (String.ofList body.first) :: body.insets.flatMap Inset.segments

/-- The text of a body with others for its placeholders. -/
def filled (body : Body) (shown : Inset → String) : String :=
  String.ofList body.first ++
    String.join (body.insets.map fun inset => shown inset ++ String.ofList inset.behind)

end Body

/-! ## Cutting a body -/

theorem splitPlaceholder_append {before : List Char} (h : ¬ placeholderSign <:+: before)
    (rest : List Char) :
    splitPlaceholder (before ++ '$' :: '\x7b' :: rest) = some (before, '\x7b' :: rest) := by
  induction before with
  | nil => rfl
  | cons c before ih =>
      have hbefore : ¬ placeholderSign <:+: before :=
        fun hinfix => h (List.infix_cons hinfix)
      rw [List.cons_append, splitPlaceholder, ih hbefore]
      · rfl
      · -- no sign begins at the first character, nor at it and the sign behind the text
        rintro behind rfl heq
        cases before with
        | nil => cases heq
        | cons d before =>
            obtain ⟨rfl, _⟩ := List.cons.inj heq
            exact h ⟨[], before, rfl⟩

theorem splitPlaceholder_eq_none {text : List Char} (h : ¬ placeholderSign <:+: text) :
    splitPlaceholder text = none := by
  induction text with
  | nil => rfl
  | cons c text ih =>
      have htext : ¬ placeholderSign <:+: text := fun hinfix => h (List.infix_cons hinfix)
      rw [splitPlaceholder, ih htext]
      · rfl
      · rintro behind rfl rfl
        exact h ⟨[], behind, rfl⟩

theorem placeholders_of_none {text : List Char} (h : splitPlaceholder text = none) :
    placeholders text = .ok [.literal (String.ofList text)] := by
  rw [placeholders]
  split
  next => rfl
  next before after heq =>
    rw [h] at heq
    cases heq

theorem placeholders_of_some {text before after : List Char} {close : Nat} {e : Expr}
    (h : splitPlaceholder text = some (before, after))
    (hclose : Bracket.closing? true '\x7b' '\x7d' after = some close)
    (hparse : Expr.parse ((after.drop 1).take (close - 1)) = .ok e) :
    placeholders text = (do
      let following ← placeholders (after.drop (close + 1))
      return .literal (String.ofList before) :: .placeholder e :: following) := by
  rw [placeholders]
  split
  next heq =>
    rw [h] at heq
    cases heq
  next before' after' heq =>
    rw [h] at heq
    cases heq
    rw [hclose]
    dsimp only
    rw [hparse]
    rfl

theorem placeholders_inset {before : List Char} (h : ¬ placeholderSign <:+: before)
    (inset : Inset) (rest : List Char) :
    placeholders (before ++ (inset.text ++ rest)) = (do
      let following ← placeholders (inset.behind ++ rest)
      return .literal (String.ofList before) :: .placeholder inset.expr :: following) := by
  have hleads : Bracket.Leads true '\x7b' '\x7d' inset.source 0 0 :=
    Expr.leads_of_parse .braces inset.parses
  have htext : before ++ (inset.text ++ rest) = before ++
      '$' :: '\x7b' :: (inset.source ++ '\x7d' :: (inset.behind ++ rest)) := by
    simp [Inset.text]
  have hclose := hleads.closing? (fun _ => rfl) (fun _ => rfl) (by decide) (inset.behind ++ rest)
  have hparse : Expr.parse ((('\x7b' :: (inset.source ++ '\x7d' :: (inset.behind ++ rest))).drop
      1).take (inset.source.length + 1 - 1)) = .ok inset.expr := by
    rw [List.drop_succ_cons, List.drop_zero, Nat.add_sub_cancel, List.take_left]
    exact inset.parses
  rw [htext, placeholders_of_some (splitPlaceholder_append h _) hclose hparse,
    Directive.drop_enclosed]

/-- A body is cut into its literals and expressions, whatever strings stand in these. -/
theorem placeholders_text (body : Body) : placeholders body.text = .ok body.segments := by
  obtain ⟨first, insets, plain⟩ := body
  unfold Body.text Body.segments
  dsimp only
  induction insets generalizing first with
  | nil =>
      rw [List.flatMap_nil, List.append_nil, placeholders_of_none (splitPlaceholder_eq_none plain)]
      rfl
  | cons inset insets ih =>
      rw [List.flatMap_cons, placeholders_inset plain, ih inset.behind inset.plain]
      rfl

section

variable {ω : Type} {inner : List Char → Run ω Expr.Error (List Segment)}

/-- Pieces without loops are cut as one text. -/
theorem outcome_cutFrom_of_no_loop {pieces : List Piece}
    (h : ∀ found source, .directive found source ∉ pieces) (pending : List Char) :
    (cutFrom inner pending pieces).outcome =
      placeholders (pending ++ pieces.flatMap Piece.source) := by
  induction pieces generalizing pending with
  | nil =>
      rw [List.flatMap_nil, List.append_nil]
      rfl
  | cons piece rest ih =>
      have hrest : ∀ found source, .directive found source ∉ rest :=
        fun found source hmem => h found source (List.mem_cons_of_mem piece hmem)
      rw [List.flatMap_cons]
      cases piece with
      | literal text => rw [cutFrom, ih hrest, Piece.source, List.append_assoc]
      | unbalanced part start =>
          rw [cutFrom, Run.outcome_bind, Run.outcome_detail, ok_bind, ih hrest, Piece.source,
            List.nil_append]
      | directive found source => exact absurd List.mem_cons_self (h found source)

/-- A loop among the pieces is a loop among the segments. -/
theorem exists_loop_of_cutFrom {pieces : List Piece} {found : Directive} {source : List Char}
    (h : .directive found source ∈ pieces) {pending : List Char} {segments : List Segment}
    (hcut : (cutFrom inner pending pieces).outcome = .ok segments) :
    ∃ header body, .loop header body ∈ segments := by
  induction pieces generalizing pending segments with
  | nil => cases h
  | cons piece rest ih =>
      cases piece with
      | literal text =>
          rw [cutFrom] at hcut
          exact ih (by simpa using h) hcut
      | unbalanced part start =>
          rw [cutFrom, Run.outcome_bind, Run.outcome_detail, ok_bind] at hcut
          exact ih (by simpa using h) hcut
      | directive other otherSource =>
          rw [cutFrom] at hcut
          obtain ⟨first, _, hcut⟩ := Run.bind_eq_ok.mp hcut
          obtain ⟨header, _, hcut⟩ := Run.bind_eq_ok.mp hcut
          obtain ⟨body, _, hcut⟩ := Run.bind_eq_ok.mp hcut
          obtain ⟨following, _, hcut⟩ := Run.bind_eq_ok.mp hcut
          cases hcut
          exact ⟨header, body, by simp⟩

end

/-- No segment of a body of literals and placeholders is a loop. -/
theorem Body.not_loop_mem_segments (body : Body) (header : LoopHeader) (inner : List Segment) :
    .loop header inner ∉ body.segments := by
  simp [Body.segments, Inset.segments]

/-- A body is compiled to its literals and expressions when no loop stands in it, and only then. -/
theorem outcome_compile_text_iff {ω : Type} (delimiters : Delimiters) (body : Body) :
    (compile delimiters body.text : Run ω Expr.Error (List Segment)).outcome = .ok body.segments ↔
      Directive.all delimiters directiveName .block body.text = [] := by
  rw [compile_eq, cut, Directive.all_eq, List.filterMap_eq_nil_iff]
  constructor
  · intro h piece hmem
    cases piece with
    | literal text => rfl
    | unbalanced part start => rfl
    | directive found source =>
        obtain ⟨header, inner, hloop⟩ := exists_loop_of_cutFrom hmem h
        exact absurd hloop (body.not_loop_mem_segments header inner)
  · intro h
    have hnone : ∀ found source, .directive found source ∉
        Directive.pieces delimiters directiveName .block body.text := by
      intro found source hmem
      cases h _ hmem
    rw [outcome_cutFrom_of_no_loop hnone, Directive.pieces, Directive.piecesFrom_source]
    exact placeholders_text body

end Loop

/-! ## Extracting a body -/

/-- What stands between brackets that all count is balanced. -/
theorem Bracket.Inside.balanced {opening closing : Char} (hne : closing ≠ opening)
    {text : List Char} (h : Inside false opening closing text) :
    Balanced (· == opening) (· == closing) text := by
  induction h with
  | nil => exact balanced_nil
  | plain _ hopening hclosing _ ih =>
      exact (balanced_singleton (by simpa using hopening) (by simpa using hclosing)).append ih
  | quoted hminds => cases hminds
  | @group inner rest _ _ ihinner ih =>
      have hgroup : Balanced (· == opening) (· == closing) (opening :: inner ++ [closing]) :=
        ihinner.around (beq_self_eq_true opening) (by simpa using hne) (beq_self_eq_true closing)
      simpa using hgroup.append ih

namespace Directive

/-- Brackets that all count match around a text when it is balanced, and only then. -/
theorem enclosed_iff_balanced {opening closing : Char} (hne : closing ≠ opening)
    {inner rest : List Char} :
    Enclosed false opening closing inner rest ↔
      Balanced (· == opening) (· == closing) inner := by
  have hnot : ∀ c, false = true → Bracket.isQuote c = false := fun _ hfalse => by cases hfalse
  constructor
  · intro h
    obtain ⟨_, inside, heq, hinside⟩ :=
      (Bracket.closing?_eq_some_iff (hnot opening) (hnot closing) hne rfl).mp h
    rw [List.take_succ_cons, List.take_length_add_append, List.cons.injEq] at heq
    obtain rfl := List.append_cancel_right heq.2
    exact hinside.balanced hne
  · intro h
    exact (Bracket.Leads.of_balanced hne h).closing? (hnot opening) (hnot closing) hne rest

/-- The braces of the body of a block are balanced. -/
theorem balanced_body_of_mem_all {delimiters : Delimiters} {name text : List Char}
    {found : Directive} (h : found ∈ all delimiters name .block text) :
    Balanced (· == '\x7b') (· == '\x7d') found.body := by
  obtain ⟨_, _, _, _, _, _, _, hspelled, _⟩ := stands_of_mem_piecesFrom h
  obtain ⟨_, _, _, _, _, hbracketed⟩ := hspelled.split
  cases hbracketed with
  | block _ _ _ hbody => exact (enclosed_iff_balanced (by decide)).mp hbody

/-- A loop is extracted with its header and its body when the braces of the body are balanced, and
only then. -/
theorem extracts_loop_iff (delimiters : Delimiters) {args : List Char} {header : LoopHeader}
    (h : Expr.parseHeader args = .ok header) (body rest : List Char) :
    (∃ found, (all delimiters Loop.directiveName .block
        (delimiters.opening ++ blockText Loop.directiveName args body ++ rest)).head? = some found ∧
      found.start = 0 ∧ found.args = args ∧ found.body = body) ↔
      Balanced (· == '\x7b') (· == '\x7d') body := by
  constructor
  · rintro ⟨found, hfound, _, _, rfl⟩
    exact balanced_body_of_mem_all (List.mem_of_mem_head? hfound)
  · intro hbody
    have hbegins : Loop.directiveName ≠ [] ∧ Loop.directiveName.head? ≠ some ' ' := by decide
    obtain ⟨hhead, htail⟩ := reads_blockText delimiters hbegins.1 hbegins.2
      (Expr.leads_of_parseHeader h) hbody rest
    exact head?_all (by simp [blockText, hbegins.1]) hhead htail

end Directive

/-! ## Unrolling a body -/

namespace Loop

section

variable {scope : Scope} {shown : Inset → String}

theorem renderBody_insets {insets : List Inset} (h : ∀ inset ∈ insets, ∀ place,
      renderSegment scope place (.placeholder inset.expr) = .ok (shown inset))
    (place : List Nat) (position : Nat) :
    renderBody scope place position (insets.flatMap Inset.segments) =
      .ok (String.join (insets.map fun inset => shown inset ++ String.ofList inset.behind)) := by
  induction insets generalizing position with
  | nil => rfl
  | cons inset rest ih =>
      obtain ⟨hinset, hrest⟩ := List.forall_mem_cons.mp h
      rw [List.flatMap_cons, Inset.segments, List.cons_append, List.cons_append, List.nil_append,
        renderBody, hinset, ok_bind, renderBody, renderSegment, ok_bind, ih hrest]
      simp [String.append_assoc]

/-- A body is filled with the texts of its placeholders. -/
theorem renderBody_segments {body : Body} (h : ∀ inset ∈ body.insets, ∀ place,
      renderSegment scope place (.placeholder inset.expr) = .ok (shown inset))
    (place : List Nat) : renderBody scope place 0 body.segments = .ok (body.filled shown) := by
  rw [Body.segments, renderBody, renderSegment, ok_bind, renderBody_insets h, ok_bind, Body.filled]
  rfl

/-- A loop over one value fills its body once. -/
theorem outcome_render_once {ω : Type} {body : Body}
    (hloops : Directive.all .standard directiveName .block body.text = [])
    (h : ∀ inset ∈ body.insets, ∀ value place,
      renderSegment (("x", value) :: scope) place (.placeholder inset.expr) = .ok (shown inset)) :
    (render .standard "x of [1]".toList body.text scope : Run ω Expr.Error String).outcome =
      .ok (body.filled shown) := by
  have hheader : Expr.parseHeader "x of [1]".toList =
      .ok (.forEach "x" .values (.array [.literal (.number (.int 1))])) := by cbv
  have heach : eachFrom (fun scope place => renderBody scope place 0 body.segments) "x" scope [1] 0
      [.number (.int 1)] = .ok [body.filled shown] := by
    have hbody := renderBody_segments fun inset hinset =>
      h inset hinset (.number (.int 1))
    rw [eachFrom, if_neg (by decide), hbody, ok_bind, eachFrom]
    rfl
  have hsegment : renderSegment scope []
      (.loop (.forEach "x" .values (.array [.literal (.number (.int 1))])) body.segments) =
        .ok (body.filled shown) := by
    rw [renderSegment, iterations]
    simp only [Expr.eval, Expr.evalItems, ok_bind, enumerate, valuesOf, pure_bind, heach]
    simp [pure, Except.pure]
  have hcompile := (outcome_compile_text_iff (ω := ω) .standard body).mpr hloops
  unfold render
  simp only [Run.outcome_bind, Run.outcome_lift, hheader, Except.mapError, ok_bind, hcompile,
    hsegment, Run.outcome_detail]
  rfl

end

/-- The text of one placeholder. -/
def inPlaceholder (source : List Char) : List Char :=
  "$\x7b".toList ++ source ++ "\x7d".toList

/-- The body that is one placeholder. -/
def Body.single {source : List Char} {e : Expr} (h : Expr.parse source = .ok e) : Body where
  first := []
  insets := [⟨source, e, [], h, by simp [placeholderSign]⟩]
  plain := by simp [placeholderSign]

theorem Body.text_single {source : List Char} {e : Expr} (h : Expr.parse source = .ok e) :
    (single h).text = inPlaceholder source := by
  simp [single, text, Inset.text, inPlaceholder]

end Loop

namespace Renderer

open Loop

/-- The text that a loop over text puts in the place of its parts. -/
def unrollParts (delimiters : Delimiters) (scope : Scope) (args body : List Char) :
    Rendering (Option (List Char)) :=
  unroll delimiters scope ⟨args, body, 0, 0, []⟩

/-- The loops of a text that is one loop over one value are replaced by its filled body. -/
theorem outcome_replaceDirectives_once {scope : Scope} {body : Body} {shown : Inset → String}
    (hbraces : Balanced (· == '\x7b') (· == '\x7d') body.text)
    (hloops : Directive.all .standard directiveName .block body.text = [])
    (h : ∀ inset ∈ body.insets, ∀ value place,
      renderSegment (("x", value) :: scope) place (.placeholder inset.expr) = .ok (shown inset)) :
    (replaceDirectives .standard directiveName .block (unroll .standard scope)
        ('@' :: '@' :: Directive.blockText directiveName "x of [1]".toList body.text)).outcome =
      .ok (body.filled shown).toList := by
  have hheader : Expr.parseHeader "x of [1]".toList =
      .ok (.forEach "x" .values (.array [.literal (.number (.int 1))])) := by cbv
  have hcomplete : Directive.Complete .standard directiveName .block
      ('@' :: '@' :: Directive.blockText directiveName "x of [1]".toList body.text)
      "x of [1]".toList body.text [] :=
    Directive.complete_block (by decide) (by decide) (Expr.leads_of_parseHeader hheader) hbraces []
  have hlayout := Layout.found hcomplete .nil
  rw [List.append_nil] at hlayout
  have hreplace :
      (replaceDirectives .standard directiveName .block (unroll .standard scope) _).outcome =
        Slot.fill (fun args body => (unrollParts .standard scope args body).outcome) _ :=
    outcome_replaceDirectives hlayout fun _ => rfl
  have hrender := outcome_render_once (ω := Warning) hloops h
  rw [hreplace, Slot.fill_singleton]
  unfold unrollParts unroll
  simp only [Run.outcome_bind, Run.outcome_mapError, hrender, Run.outcome_pure]
  rfl

end Renderer

namespace Loop

/-- A text is an expression that does not read `x`, and its value in data has a text. -/
def Shows (data : Data) (source : List Char) (shown : String) : Prop :=
  ∃ e value, Expr.parse source = .ok e ∧ "x" ∉ e.names ∧
    Expr.eval (Scope.ofData data) [] e = .ok value ∧ value.toShownText = .ok shown

/-- What a placeholder in a loop over one value becomes when the loops are unrolled. -/
def unrolledOnce (data : Data) (source : List Char) : Except (Halt Error) (List Char) :=
  (Renderer.replaceDirectives .standard directiveName .block
    (Renderer.unroll .standard (Scope.ofData data))
    ("@@for (x of [1]) \x7b".toList ++ inPlaceholder source ++ "\x7d".toList)).outcome

theorem unrolledOnce_of_shows {data : Data} {source : List Char} {shown : String}
    (h : Shows data source shown)
    (hbraces : Balanced (· == '\x7b') (· == '\x7d') (inPlaceholder source))
    (hloops : Directive.all .standard directiveName .block (inPlaceholder source) = []) :
    unrolledOnce data source = .ok shown.toList := by
  obtain ⟨e, value, hparse, hname, heval, hshown⟩ := h
  unfold unrolledOnce
  rw [← Body.text_single hparse] at hbraces hloops ⊢
  have hplaceholder : ∀ inset ∈ (Body.single hparse).insets, ∀ added place,
      renderSegment (("x", added) :: Scope.ofData data) place (.placeholder inset.expr) =
        .ok shown := by
    intro inset hinset added place
    obtain rfl := List.mem_singleton.mp hinset
    rw [renderSegment, Expr.eval_ofData_cons hname, heval, Except.map_ok, ok_bind,
      Value.toShownText_mapIdentity, hshown]
    rfl
  have htext : "@@for (x of [1]) \x7b".toList ++ (Body.single hparse).text ++ "\x7d".toList =
      '@' :: '@' :: Directive.blockText directiveName "x of [1]".toList (Body.single hparse).text :=
    rfl
  have hfilled : (Body.single hparse).filled (fun _ => shown) = shown := by
    simp [Body.single, Body.filled]
  rw [htext, Renderer.outcome_replaceDirectives_once hbraces hloops hplaceholder, hfilled]

/-- A placeholder in a loop over one value leaves the text of its value, if all braces in it are
balanced, those in strings included, and no loop stands in it. Any body is extracted whole when its
braces are balanced, and only then, and is compiled to its literals and expressions when no loop
stands in it, and only then. -/
theorem placeholders_survive :
    (∀ data source shown, Shows data source shown →
      Balanced (· == '\x7b') (· == '\x7d') (inPlaceholder source) →
      Directive.all .standard directiveName .block (inPlaceholder source) = [] →
      unrolledOnce data source = .ok shown.toList) ∧
    ∀ (delimiters : Delimiters) (body : Body),
      (∀ {args : List Char} {header : LoopHeader}, Expr.parseHeader args = .ok header → ∀ rest,
        (∃ found, (Directive.all delimiters directiveName .block (delimiters.opening ++
              Directive.blockText directiveName args body.text ++ rest)).head? = some found ∧
            found.start = 0 ∧ found.args = args ∧ found.body = body.text) ↔
          Balanced (· == '\x7b') (· == '\x7d') body.text) ∧
      ((compile delimiters body.text : Run Warning Expr.Error (List Segment)).outcome =
          .ok body.segments ↔
        Directive.all delimiters directiveName .block body.text = []) :=
  ⟨fun _ _ _ => unrolledOnce_of_shows, fun delimiters body =>
    ⟨fun hheader => Directive.extracts_loop_iff delimiters hheader body.text,
      outcome_compile_text_iff delimiters body⟩⟩

/-- Balanced braces in a string do no harm, and neither does a bracket in the header. -/
theorem placeholders_survive_quoted :
    unrolledOnce [(.str "y", .str "b")] "'\x7b\x7d' + y".toList = .ok "\x7b\x7db".toList ∧
      ∃ found, (Directive.all ⟨"<%".toList, "%>".toList⟩ directiveName .block ("<%".toList ++
          Directive.blockText directiveName "i in [')', 2]".toList
            (inPlaceholder "'\x7b\x7d' + y".toList) ++ "%>".toList)).head? = some found ∧
        found.start = 0 ∧ found.args = "i in [')', 2]".toList ∧
        found.body = inPlaceholder "'\x7b\x7d' + y".toList := by
  have hparse : Expr.parse "'\x7b\x7d' + y".toList =
      .ok (.binary .add (.literal (.str "\x7b\x7d")) (.identifier "y")) := by cbv
  have hheader : Expr.parseHeader "i in [')', 2]".toList = .ok (.forEach "i" .keys
      (.array [.literal (.str ")"), .literal (.number (.int 2))])) := by cbv
  have hbraces : Balanced (· == '\x7b') (· == '\x7d') (inPlaceholder "'\x7b\x7d' + y".toList) := by
    decide
  have hbody := ((placeholders_survive.2 ⟨"<%".toList, "%>".toList⟩ (Body.single hparse)).1
    hheader "%>".toList).mpr (by rwa [Body.text_single])
  rw [Body.text_single] at hbody
  exact ⟨placeholders_survive.1 _ _ _ ⟨_, _, hparse, by decide, rfl, rfl⟩ hbraces (by cbv), hbody⟩

/-- A brace in a string ends the body, and where all braces are balanced a loop in a string ends the
text before it. -/
theorem not_placeholders_survive :
    (¬ ∀ data source shown, Shows data source shown →
      '@' ∉ shown.toList → ¬ placeholderSign <:+: shown.toList →
      unrolledOnce data source = .ok shown.toList) ∧
    ¬ ∀ data source shown, Shows data source shown →
      '@' ∉ shown.toList → ¬ placeholderSign <:+: shown.toList →
      Balanced (· == '\x7b') (· == '\x7d') (inPlaceholder source) →
      unrolledOnce data source = .ok shown.toList := by
  constructor
  · intro h
    have hclaimed := h [] "'\x7d'".toList "\x7d"
      ⟨.literal (.str "\x7d"), .str "\x7d", by cbv, by decide, rfl, rfl⟩ (by decide) (by decide)
    have hstopped : unrolledOnce [] "'\x7d'".toList =
        .error (.error ⟨.evaluation (.eval .unterminatedPlaceholder)
          (sourceText "x of [1]".toList "$\x7b'\x7d'".toList), none⟩) := by
      cbv
    rw [hstopped] at hclaimed
    cases hclaimed
  · intro h
    have hclaimed := h [] "'@@for (y of [1]) \x7ba\x7d' == 1".toList "false"
      ⟨.binary .equal (.literal (.str "@@for (y of [1]) \x7ba\x7d")) (.literal (.number (.int 1))),
        .bool false, by cbv, by decide, by cbv, rfl⟩ (by decide) (by decide) (by decide)
    have hstopped : unrolledOnce [] "'@@for (y of [1]) \x7ba\x7d' == 1".toList =
        .error (.error ⟨.evaluation (.eval .unterminatedPlaceholder)
          (sourceText "x of [1]".toList
            "$\x7b'@@for (y of [1]) \x7ba\x7d' == 1\x7d".toList), none⟩) := by
      cbv
    rw [hstopped] at hclaimed
    cases hclaimed

end Loop

end Transclude
