import Mathlib
import Transclude.Proofs.Silence

/-! # Removing commented includes

A text is made of passages: text, comments, and comments that hold an include.
Exactly the last are removed when no include stands behind a comment on the line
of its opening, and when the include in a comment begins on its first line and is
closed right before its ending. Two comments on one line lose what stands between
them. -/

namespace Transclude.Comment

/-- Whether the text begins with an include: delimiter, spaces and name. -/
def beginsInclude (delimiters : Delimiters) (text : List Char) : Bool :=
  delimiters.opening.isPrefixOf text &&
    let rest := text.drop delimiters.opening.length
    "include".toList.isPrefixOf (rest.drop (rest.takeWhile (· == ' ')).length)

/-- No include begins with the text or behind it on the same line. -/
def LineClear (delimiters : Delimiters) (text : List Char) : Prop :=
  ∀ line back, text = line ++ back → '\n' ∉ line → beginsInclude delimiters back = false

/-- The text that ends a comment. -/
def closer : List Char := "-->".toList

/-- A comment with an inside ends with the first ending in it. -/
def EndsFirst (inside : List Char) : Prop :=
  ∀ front back, inside ++ closer = front ++ (closer ++ back) → back = []

/-- A part of a text: text, a comment, or a comment with an include in it, of which the text before
the include, the spaces behind its delimiter and what follows its name are given. -/
inductive Passage
  | text (content : List Char)
  | comment (inside : List Char)
  | commented (line spaces call : List Char)

namespace Passage

/-- The include in a comment from its delimiter on, with the closing one. -/
def call (delimiters : Delimiters) (spaces behind : List Char) : List Char :=
  delimiters.opening ++ (spaces ++ ("include".toList ++ (behind ++ delimiters.closing)))

/-- The text of a passage. -/
def source (delimiters : Delimiters) : Passage → List Char
  | .text content => content
  | .comment inside => opening ++ (inside ++ closer)
  | .commented line spaces behind => opening ++ (line ++ (call delimiters spaces behind ++ closer))

/-- The text of passages. -/
def sources (delimiters : Delimiters) (passages : List Passage) : List Char :=
  passages.flatMap (source delimiters)

/-- Whether a passage is a comment with an include. -/
def isCommented : Passage → Bool
  | .commented _ _ _ => true
  | _ => false

/-- The passages are those of their text: no comment begins in text, comments end with the first
ending in them, and no include begins in a comment without one. -/
def Divided (delimiters : Delimiters) : List Passage → Prop
  | [] => True
  | .text content :: rest =>
    Everywhere (fun text => opening.isPrefixOf text = false) content (sources delimiters rest) ∧
      Divided delimiters rest
  | .comment inside :: rest =>
    EndsFirst inside ∧
      Everywhere (fun text => beginsInclude delimiters text = false)
        (opening ++ (inside ++ closer)) (sources delimiters rest) ∧
      Divided delimiters rest
  | .commented line spaces behind :: rest =>
    EndsFirst (line ++ call delimiters spaces behind) ∧ (∀ c ∈ spaces, c = ' ') ∧
      Divided delimiters rest

/-- No include stands behind a comment on the line of its ending, and a commented one is the last on
the line of the comment's opening. -/
def Apart (delimiters : Delimiters) : List Passage → Prop
  | [] => True
  | .text _ :: rest => Apart delimiters rest
  | .comment _ :: rest => LineClear delimiters (sources delimiters rest) ∧ Apart delimiters rest
  | .commented line spaces behind :: rest =>
    '\n' ∉ line ∧
      LineClear delimiters (call delimiters spaces behind ++ closer ++ sources delimiters rest).tail ∧
      Apart delimiters rest

end Passage

variable {delimiters : Delimiters} {text rest : List Char}

/-! ## Where nothing is removed -/

theorem includeLength?_of_not_begins (h : beginsInclude delimiters text = false) :
    includeLength? delimiters text = none := by
  unfold beginsInclude at h
  unfold includeLength?
  split
  next hopening =>
    rw [hopening, Bool.true_and] at h
    dsimp only at h ⊢
    rw [h]
    rfl
  next => rfl

theorem LineClear.drop {line : List Char} (h : LineClear delimiters (line ++ text))
    (hline : '\n' ∉ line) : LineClear delimiters text := by
  rintro front back rfl hfront
  exact h (line ++ front) back (List.append_assoc _ _ _).symm (List.not_mem_append hline hfront)

theorem LineClear.append
    (h : Everywhere (fun text => beginsInclude delimiters text = false) text rest)
    (hrest : LineClear delimiters rest) : LineClear delimiters (text ++ rest) := by
  induction text with
  | nil => exact hrest
  | cons c text ih =>
      intro line back heq hline
      cases line with
      | nil =>
          rw [← List.nil_append back, ← heq]
          exact h [] c text rfl
      | cons d line =>
          rw [List.cons_append, List.cons_append] at heq
          obtain ⟨rfl, htail⟩ := List.cons.inj heq
          exact ih h.tail line back htail fun hmem => hline (List.mem_cons_of_mem _ hmem)

/-- At the end of a line nothing behind counts. -/
theorem lineClear_newline (h : beginsInclude delimiters ('\n' :: text) = false) :
    LineClear delimiters ('\n' :: text) := by
  intro line back heq hline
  cases line with
  | nil =>
      rw [List.nil_append] at heq
      rwa [← heq]
  | cons c line =>
      rw [(List.cons.inj heq).1] at hline
      exact absurd List.mem_cons_self hline

/-- What is removed has an include on its first line. -/
theorem length?_of_lineClear (h : LineClear delimiters text) : length? delimiters text = none := by
  rw [Option.eq_none_iff_forall_ne_some]
  intro length hlength
  obtain ⟨line, back, inner, rfl, hline, hfound, _⟩ := exists_of_length? hlength
  rw [← List.append_assoc] at h
  rw [includeLength?_of_not_begins (h _ _ rfl (List.not_mem_append (by decide) hline))] at hfound
  cases hfound

/-- Text in which nothing that is removed begins is kept. -/
theorem strip_append (h : Everywhere (fun text => length? delimiters text = none) text rest) :
    strip delimiters (text ++ rest) = text ++ strip delimiters rest := by
  induction text with
  | nil => rfl
  | cons c text ih =>
      have hnone := h [] c text rfl
      rw [List.cons_append] at hnone ⊢
      rw [strip, hnone]
      dsimp only
      rw [ih h.tail]
      rfl

/-- A comment in which no include begins is kept if none begins behind it on its line. -/
theorem strip_comment
    (h : Everywhere (fun text => beginsInclude delimiters text = false) text rest)
    (hrest : LineClear delimiters rest) :
    strip delimiters (text ++ rest) = text ++ strip delimiters rest := by
  apply strip_append
  rintro front c back rfl
  apply length?_of_lineClear
  refine LineClear.append ?_ hrest
  intro before d after hsplit
  exact h (front ++ before) d after (by rw [hsplit, List.append_assoc])

/-! ## What is removed -/

/-- The first occurrence of a pattern is the one behind which no earlier one ends. -/
theorem lengthThrough?_of_first {pattern inside : List Char}
    (hfirst : ∀ front back, inside ++ pattern ++ rest = front ++ (pattern ++ back) →
      inside.length ≤ front.length) :
    lengthThrough? pattern (inside ++ pattern ++ rest) = some (inside.length + pattern.length) := by
  induction inside with
  | nil =>
      cases hpattern : pattern ++ rest with
      | nil =>
          obtain ⟨rfl, rfl⟩ := List.append_eq_nil_iff.mp hpattern
          rfl
      | cons c more =>
          have hprefix : pattern.isPrefixOf (c :: more) = true := by
            rw [List.isPrefixOf_iff_prefix, ← hpattern]
            exact List.prefix_append pattern rest
          rw [List.nil_append, hpattern, lengthThrough?, if_pos hprefix]
          simp
  | cons c inside ih =>
      have hnot : ¬ pattern.isPrefixOf (c :: (inside ++ pattern ++ rest)) = true := by
        intro hprefix
        obtain ⟨back, hback⟩ := List.isPrefixOf_iff_prefix.mp hprefix
        exact absurd (hfirst [] back hback.symm) (by simp)
      rw [List.cons_append, List.cons_append, lengthThrough?, if_neg hnot, ih ?_]
      · simp [Nat.add_right_comm]
      · intro front back heq
        have hlonger := hfirst (c :: front) back (by rw [List.cons_append, List.cons_append, heq]; rfl)
        simpa using hlonger

/-- The include that ends a comment reaches its ending. -/
theorem includeLength?_call {line spaces behind : List Char} (hspaces : ∀ c ∈ spaces, c = ' ')
    (hends : EndsFirst (line ++ Passage.call delimiters spaces behind)) (rest : List Char) :
    includeLength? delimiters (Passage.call delimiters spaces behind ++ closer ++ rest) =
      some (Passage.call delimiters spaces behind ++ closer).length := by
  have hending : ending delimiters = delimiters.closing ++ closer := rfl
  have hthrough : lengthThrough? (ending delimiters) (behind ++ ending delimiters ++ rest) =
      some (behind.length + (ending delimiters).length) := by
    apply lengthThrough?_of_first
    intro front back heq
    by_contra hshort
    -- an earlier ending would be one inside of the comment
    have hprefix : front ++ ending delimiters <+: behind ++ ending delimiters := by
      have hlonger : front ++ ending delimiters <+: behind ++ ending delimiters ++ rest := by
        rw [heq, ← List.append_assoc]
        exact List.prefix_append _ _
      refine List.prefix_of_prefix_length_le hlonger (List.prefix_append _ _) ?_
      simp only [List.length_append]
      omega
    obtain ⟨more, hmore⟩ := hprefix
    have hnil := hends (line ++ (delimiters.opening ++ (spaces ++ ("include".toList ++
      (front ++ delimiters.closing))))) more (by
        rw [hending] at hmore
        simp only [Passage.call, List.append_assoc] at hmore ⊢
        rw [hmore])
    rw [hnil, List.append_nil] at hmore
    have hlength := congrArg List.length hmore
    simp only [List.length_append] at hlength
    omega
  have hopening : delimiters.opening.isPrefixOf
      (Passage.call delimiters spaces behind ++ closer ++ rest) = true := by
    rw [List.isPrefixOf_iff_prefix, Passage.call, List.append_assoc, List.append_assoc]
    exact List.prefix_append _ _
  have hbehind : (Passage.call delimiters spaces behind ++ closer ++ rest).drop
      delimiters.opening.length =
        spaces ++ ("include".toList ++ (behind ++ ending delimiters ++ rest)) := by
    simp [Passage.call, hending]
  have hblank : (spaces ++ ("include".toList ++ (behind ++ ending delimiters ++ rest))).takeWhile
      (· == ' ') = spaces := by
    rw [List.takeWhile_append_of_pos (by simpa using hspaces)]
    simp
  unfold includeLength?
  rw [if_pos hopening]
  simp only [hbehind, hblank, List.drop_left]
  rw [if_pos (List.isPrefixOf_iff_prefix.mpr (List.prefix_append _ _)), ← List.drop_drop,
    List.drop_left, List.drop_left, hthrough, Option.map_some]
  congr 1
  simp only [Passage.call, hending, List.length_append]
  omega

/-- The last include on the line of a comment's opening is the one that counts. -/
theorem restLength?_append {line back : List Char} {length : Nat} (hline : '\n' ∉ line)
    (hback : includeLength? delimiters back = some length)
    (hclear : LineClear delimiters back.tail) :
    restLength? delimiters (line ++ back) = some (line.length + length) := by
  induction line with
  | nil =>
      cases back with
      | nil => simpa [restLength?] using hback
      | cons c back =>
          have hnone : restLength? delimiters back = none := by
            rw [Option.eq_none_iff_forall_ne_some]
            intro found hfound
            obtain ⟨line, after, inner, heq, hline, hinner, _⟩ := exists_of_restLength? hfound
            rw [includeLength?_of_not_begins (hclear line after heq hline)] at hinner
            cases hinner
          rw [List.nil_append, restLength?, hnone]
          simp [hback]
  | cons c line ih =>
      rw [List.mem_cons, not_or] at hline
      have hc : (c == '\n') = false := beq_eq_false_iff_ne.mpr (Ne.symm hline.1)
      rw [List.cons_append, restLength?, ih hline.2, hc]
      simp [Nat.add_right_comm]

theorem strip_of_length? {c : Char} {length : Nat}
    (h : length? delimiters (c :: text) = some (length + 1)) :
    strip delimiters (c :: text) = strip delimiters (text.drop length) := by
  rw [strip, h]
  rfl

/-- A commented include is removed whole. -/
theorem strip_commented {line spaces behind : List Char} (hline : '\n' ∉ line)
    (hspaces : ∀ c ∈ spaces, c = ' ')
    (hends : EndsFirst (line ++ Passage.call delimiters spaces behind))
    (hclear : LineClear delimiters
      (Passage.call delimiters spaces behind ++ closer ++ rest).tail) :
    strip delimiters (opening ++ (line ++ (Passage.call delimiters spaces behind ++ closer)) ++
      rest) = strip delimiters rest := by
  have hrest := restLength?_append hline (includeLength?_call hspaces hends rest) hclear
  have hlength : length? delimiters
      (opening ++ (line ++ (Passage.call delimiters spaces behind ++ closer)) ++ rest) =
        some (opening ++ (line ++ (Passage.call delimiters spaces behind ++ closer))).length := by
    have hopening : opening.isPrefixOf
        (opening ++ (line ++ (Passage.call delimiters spaces behind ++ closer)) ++ rest) = true := by
      rw [List.isPrefixOf_iff_prefix, List.append_assoc]
      exact List.prefix_append _ _
    rw [length?, if_pos hopening, List.append_assoc, List.drop_left, List.append_assoc, hrest]
    simp
  generalize line ++ (Passage.call delimiters spaces behind ++ closer) = inside at *
  change strip delimiters ('<' :: ("!--".toList ++ inside ++ rest)) = _
  change length? delimiters ('<' :: ("!--".toList ++ inside ++ rest)) =
    some (("!--".toList ++ inside).length + 1) at hlength
  rw [strip_of_length? hlength, List.drop_left]

namespace Passage

/-- Exactly the commented includes are removed, if no include stands on a line where a comment could
be taken to reach it. -/
theorem strip_sources {passages : List Passage} (h : Divided delimiters passages)
    (hapart : Apart delimiters passages) :
    strip delimiters (sources delimiters passages) =
      sources delimiters (passages.filter fun passage => !passage.isCommented) := by
  induction passages with
  | nil => rw [sources, List.flatMap_nil, strip]; rfl
  | cons passage rest ih =>
      cases passage with
      | text content =>
          obtain ⟨hcontent, hrest⟩ := h
          have hkept : strip delimiters (content ++ sources delimiters rest) =
              content ++ strip delimiters (sources delimiters rest) := by
            apply strip_append
            intro front c back heq
            rw [length?, hcontent front c back heq]
            rfl
          exact hkept.trans (congrArg (content ++ ·) (ih hrest hapart))
      | comment inside =>
          obtain ⟨_, hinside, hrest⟩ := h
          exact (strip_comment hinside hapart.1).trans
            (congrArg (opening ++ (inside ++ closer) ++ ·) (ih hrest hapart.2))
      | commented line spaces behind =>
          obtain ⟨hends, hspaces, hrest⟩ := h
          obtain ⟨hline, hclear, hmore⟩ := hapart
          exact (strip_commented hline hspaces hends hclear).trans (ih hrest hmore)

/-! ## Comments on a line -/

theorem endsFirst_of_not_mem {inside : List Char} (h : '>' ∉ inside) : EndsFirst inside := by
  intro front back heq
  by_contra hback
  obtain ⟨back, c, rfl⟩ := (List.eq_nil_or_concat back).resolve_left hback
  -- the ending in front would lie in the inside and the two dashes behind it
  have hall : inside ++ ['-', '-'] ++ ['>'] = front ++ (closer ++ back) ++ [c] := by
    simpa [closer] using heq
  have hbefore : inside ++ ['-', '-'] = front ++ (closer ++ back) :=
    List.append_inj_left' hall rfl
  have hmem : '>' ∈ inside ++ ['-', '-'] := by
    rw [hbefore]
    simp [closer]
  exact List.not_mem_append h (by decide) hmem

theorem no_opening_of_not_mem {content : List Char} (h : '<' ∉ content) (rest : List Char) :
    Everywhere (fun text => opening.isPrefixOf text = false) content rest := by
  rintro front c back rfl
  have hc : c ≠ '<' := fun heq => h (by simp [heq])
  simp [opening, List.isPrefixOf, hc.symm]

theorem no_include_of_not_mem {text : List Char} (h : '@' ∉ text) (rest : List Char) :
    Everywhere (fun text => beginsInclude .standard text = false) text rest :=
  .of_plain (fun text hopening => by rw [beginsInclude, hopening, Bool.false_and]) h rest

/-- The passages of a text with two comments and an include between them. -/
def between : List Passage :=
  [.comment " a ".toList, .text "@@include('x')".toList, .comment " b ".toList]

theorem divided_between : Divided .standard between :=
  ⟨endsFirst_of_not_mem (by decide), no_include_of_not_mem (by decide) _,
    no_opening_of_not_mem (by decide) _, endsFirst_of_not_mem (by decide),
    no_include_of_not_mem (by decide) _, trivial⟩

/-- Two comments on one line are removed together with the include that stands between them. -/
theorem not_strip_sources :
    ¬ ∀ passages, Divided .standard passages →
      strip .standard (sources .standard passages) =
        sources .standard (passages.filter fun passage => !passage.isCommented) := by
  intro h
  have hlength : length? .standard "<!-- a -->@@include('x')<!-- b -->".toList = some 34 := by cbv
  have hnothing : strip .standard (sources .standard between) = [] := by
    refine (strip_of_length? hlength).trans ?_
    rw [List.drop_of_length_le (by decide), strip]
  have hkept := h between divided_between
  rw [hnothing] at hkept
  exact absurd hkept.symm (List.cons_ne_nil '<' _)

/-- The passages of a text with comments on lines of their own. -/
def onLines : List Passage :=
  [.text "@@include('x') ".toList, .comment " note ".toList, .text ['\n'],
    .commented " old ".toList [' '] "('y') ".toList, .text "\n@@include('z')".toList]

theorem divided_onLines : Divided .standard onLines :=
  ⟨no_opening_of_not_mem (by decide) _, endsFirst_of_not_mem (by decide),
    no_include_of_not_mem (by decide) _, no_opening_of_not_mem (by decide) _,
    endsFirst_of_not_mem (by decide), by simp, no_opening_of_not_mem (by decide) _, trivial⟩

theorem apart_onLines : Apart .standard onLines := by
  refine ⟨lineClear_newline rfl, by decide, ?_, trivial⟩
  -- behind the first sign there is only the end of the line
  have hsign : LineClear .standard
      (['@'] ++ (" include('y') -->".toList ++ '\n' :: "@@include('z')".toList)) := by
    refine LineClear.append ?_ (LineClear.append (no_include_of_not_mem (by decide) _)
      (lineClear_newline rfl))
    intro front c back heq
    obtain ⟨rfl, rfl, rfl⟩ : front = [] ∧ c = '@' ∧ back = [] := by
      simpa [List.cons_eq_append_iff] using heq
    rfl
  exact hsign

/-- On lines of their own a comment is removed with its include and another is kept. -/
theorem strip_sources_onLines :
    Divided .standard onLines ∧ Apart .standard onLines ∧
      sources .standard onLines =
        "@@include('x') <!-- note -->\n<!-- old @@ include('y') -->\n@@include('z')".toList ∧
      strip .standard (sources .standard onLines) =
        "@@include('x') <!-- note -->\n\n@@include('z')".toList :=
  ⟨divided_onLines, apart_onLines, by decide, strip_sources divided_onLines apart_onLines⟩

end Passage

end Transclude.Comment
