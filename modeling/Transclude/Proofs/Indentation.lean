import Mathlib
import Transclude.Text.Indent

/-! # Indented lines

A text is its lines with their breaks between them, in one way only: `\r\n` is one
break, so that a lone `\r` never stands right before a lone `\n`. An indent is put
behind every break and holds none itself, so that it makes no break and joins none,
and indenting twice puts the later indent before the earlier one. -/

namespace Transclude.Text

/-- What separates two lines. -/
inductive LineBreak
  | crlf
  | lf
  | cr
deriving DecidableEq, Repr

/-- The characters of a break. -/
def LineBreak.text : LineBreak → List Char
  | .crlf => ['\r', '\n']
  | .lf => ['\n']
  | .cr => ['\r']

/-- The first line of a text, and each later line with the break before it. -/
structure Lines where
  first : List Char
  later : List (LineBreak × List Char)
deriving DecidableEq, Repr

/-- The text of lines behind their breaks. -/
def laterText (later : List (LineBreak × List Char)) : List Char :=
  later.flatMap fun line => line.1.text ++ line.2

/-- A text without breaks, such as one of spaces and tabs. -/
def Unbroken (text : List Char) : Prop := ∀ c ∈ text, c ≠ '\r' ∧ c ≠ '\n'

namespace Lines

/-- The text that consists of the lines. -/
def text (lines : Lines) : List Char := lines.first ++ laterText lines.later

/-- The lines with a break and an empty first line before them. -/
def behind (lineBreak : LineBreak) (lines : Lines) : Lines :=
  ⟨[], (lineBreak, lines.first) :: lines.later⟩

/-- The lines of a text. -/
def ofText : List Char → Lines
  | [] => ⟨[], []⟩
  | '\r' :: '\n' :: rest => behind .crlf (ofText rest)
  | c :: rest =>
    if c = '\n' then behind .lf (ofText rest)
    else if c = '\r' then behind .cr (ofText rest)
    else ⟨c :: (ofText rest).first, (ofText rest).later⟩

/-- The lines with a text put before each but the first. -/
def indented (indent : List Char) (lines : Lines) : Lines :=
  { lines with later := lines.later.map fun line => (line.1, indent ++ line.2) }

/-- The lines with some characters taken from the beginning of each but the first. -/
def unindented (count : Nat) (lines : Lines) : Lines :=
  { lines with later := lines.later.map fun line => (line.1, line.2.drop count) }

end Lines

/-- Lines behind breaks hold no break themselves, and no two breaks with nothing between them are
one. -/
structure Separate (later : List (LineBreak × List Char)) : Prop where
  unbroken : ∀ line ∈ later, Unbroken line.2
  apart : later.IsChain fun line next => line = (.cr, []) → next.1 ≠ .lf

theorem Separate.tail {line : LineBreak × List Char} {later : List (LineBreak × List Char)}
    (h : Separate (line :: later)) : Separate later :=
  ⟨fun next hnext => h.unbroken next (List.mem_cons_of_mem line hnext), h.apart.tail⟩

/-- What follows a lone `\r` does not begin with `\n`. -/
theorem Separate.head_ne {line : List Char} {later : List (LineBreak × List Char)}
    (h : Separate ((.cr, line) :: later)) : (line ++ laterText later).head? ≠ some '\n' := by
  cases line with
  | cons c line =>
      have hc := (h.unbroken _ List.mem_cons_self c List.mem_cons_self).2
      simpa using hc
  | nil =>
      cases later with
      | nil => simp [laterText]
      | cons next later =>
          obtain ⟨lineBreak, line⟩ := next
          have hne : lineBreak ≠ .lf := (List.isChain_cons_cons.mp h.apart).1 rfl
          cases lineBreak <;> simp_all [laterText, LineBreak.text]

/-! ## Lines of a text -/

variable {line rest : List Char}

theorem ofText_line (h : Unbroken line) :
    Lines.ofText (line ++ rest) =
      ⟨line ++ (Lines.ofText rest).first, (Lines.ofText rest).later⟩ := by
  induction line with
  | nil => rfl
  | cons c line ih =>
      obtain ⟨⟨hreturn, hfeed⟩, hline⟩ := List.forall_mem_cons.mp h
      rw [List.cons_append, Lines.ofText, if_neg hfeed, if_neg hreturn, ih hline]
      · rfl
      · exact fun _ heq => absurd heq hreturn

theorem ofText_break {lineBreak : LineBreak} (h : lineBreak = .cr → rest.head? ≠ some '\n') :
    Lines.ofText (lineBreak.text ++ rest) = .behind lineBreak (Lines.ofText rest) := by
  cases lineBreak with
  | crlf => rw [LineBreak.text, List.cons_append, List.singleton_append, Lines.ofText]
  | lf =>
      rw [LineBreak.text, List.singleton_append, Lines.ofText, if_pos rfl]
      exact fun _ heq => absurd heq (by decide)
  | cr =>
      rw [LineBreak.text, List.singleton_append, Lines.ofText, if_neg (by decide), if_pos rfl]
      rintro more - rfl
      exact h rfl rfl

theorem ofText_laterText {later : List (LineBreak × List Char)} (h : Separate later) :
    Lines.ofText (laterText later) = ⟨[], later⟩ := by
  induction later with
  | nil => rfl
  | cons next later ih =>
      obtain ⟨lineBreak, line⟩ := next
      have hline : Unbroken line := h.unbroken _ List.mem_cons_self
      have hnext : lineBreak = .cr → (line ++ laterText later).head? ≠ some '\n' := by
        rintro rfl
        exact h.head_ne
      rw [laterText, List.flatMap_cons, ← laterText, List.append_assoc, ofText_break hnext,
        ofText_line hline, ih h.tail, Lines.behind, List.append_nil]

namespace Lines

/-- No line holds a break, and the breaks are as long as they can be. -/
structure Proper (lines : Lines) : Prop where
  first : Unbroken lines.first
  later : Separate lines.later

variable {lines : Lines} {text : List Char}

theorem ofText_text (h : lines.Proper) : ofText lines.text = lines := by
  rw [Lines.text, ofText_line h.first, ofText_laterText h.later, List.append_nil]

@[simp] theorem text_behind (lineBreak : LineBreak) (lines : Lines) :
    (behind lineBreak lines).text = lineBreak.text ++ lines.text := by
  simp [behind, Lines.text, laterText]

theorem text_ofText (text : List Char) : (ofText text).text = text := by
  fun_induction ofText text with
  | case1 => rfl
  | case2 rest ih => rw [text_behind, ih]; rfl
  | case3 rest _ ih => rw [text_behind, ih]; rfl
  | case4 rest _ _ ih => rw [text_behind, ih]; rfl
  | case5 c rest _ _ _ ih => exact congrArg (c :: ·) ih

theorem proper_behind {lineBreak : LineBreak} (hlines : lines.Proper)
    (h : lineBreak = .cr → lines.text.head? ≠ some '\n') : (behind lineBreak lines).Proper := by
  refine ⟨List.forall_mem_nil _, List.forall_mem_cons.mpr ⟨hlines.first, hlines.later.unbroken⟩, ?_⟩
  obtain ⟨first, later⟩ := lines
  cases later with
  | nil => exact List.isChain_singleton _
  | cons next later =>
      refine List.isChain_cons_cons.mpr ⟨?_, hlines.later.apart⟩
      rintro hcr hlf
      obtain ⟨rfl, rfl⟩ := Prod.mk.inj hcr
      obtain ⟨_, line⟩ := next
      subst hlf
      exact h rfl rfl

theorem proper_ofText (text : List Char) : (ofText text).Proper := by
  fun_induction ofText text with
  | case1 => exact ⟨List.forall_mem_nil _, List.forall_mem_nil _, List.isChain_nil⟩
  | case2 rest ih => exact proper_behind ih (fun h => by cases h)
  | case3 rest _ ih => exact proper_behind ih (fun h => by cases h)
  | case4 rest hnot _ ih =>
      -- with `\n` behind it the break would be `\r\n`
      refine proper_behind ih fun _ h => ?_
      rw [text_ofText] at h
      obtain ⟨more, rfl⟩ := List.head?_eq_some_iff.mp h
      exact hnot more rfl rfl
  | case5 c rest _ hfeed hreturn ih =>
      exact ⟨List.forall_mem_cons.mpr ⟨⟨hreturn, hfeed⟩, ih.first⟩, ih.later⟩

/-- A text has its lines in one way only. -/
theorem ofText_eq_iff : ofText text = lines ↔ lines.Proper ∧ lines.text = text := by
  constructor
  · rintro rfl
    exact ⟨proper_ofText text, text_ofText text⟩
  · rintro ⟨hproper, rfl⟩
    exact ofText_text hproper

/-! ## Indenting -/

theorem indented_behind (indent : List Char) (lineBreak : LineBreak) (lines : Lines) :
    ((behind lineBreak lines).indented indent).text =
      lineBreak.text ++ (indent ++ (lines.indented indent).text) := by
  simp [behind, indented, Lines.text, laterText]

theorem indented_indented (inner outer : List Char) (lines : Lines) :
    (lines.indented inner).indented outer = lines.indented (outer ++ inner) := by
  simp [indented]

theorem unindented_indented (indent : List Char) (lines : Lines) :
    (lines.indented indent).unindented indent.length = lines := by
  simp [indented, unindented, Function.comp_def]

/-- An indent without breaks keeps lines apart. -/
theorem Proper.indented {indent : List Char} (h : lines.Proper) (hindent : Unbroken indent) :
    (lines.indented indent).Proper := by
  refine ⟨h.first, ⟨List.forall_mem_map.mpr fun line hline => ?_, ?_⟩⟩
  · exact List.forall_mem_append.mpr ⟨hindent, h.later.unbroken line hline⟩
  · refine (List.isChain_map _).mpr (h.later.apart.imp fun line next hapart hempty => hapart ?_)
    obtain ⟨hbreak, hline⟩ := Prod.mk.inj hempty
    exact Prod.ext hbreak (List.append_eq_nil_iff.mp hline).2

end Lines

theorem indentLines_eq (indent text : List Char) :
    indentLines indent text = ((Lines.ofText text).indented indent).text := by
  fun_induction Lines.ofText text with
  | case1 => rfl
  | case2 rest ih =>
      rw [indentLines, Lines.indented_behind, ih]
      rfl
  | case3 rest _ ih =>
      rw [indentLines, if_pos (by decide), Lines.indented_behind, ih]
      · rfl
      · exact fun _ heq => absurd heq (by decide)
  | case4 rest hnot _ ih =>
      rw [indentLines, if_pos (by decide), Lines.indented_behind, ih]
      · rfl
      · exact hnot
  | case5 c rest hnot hfeed hreturn ih =>
      rw [indentLines, if_neg (by simp [hfeed, hreturn]), ih]
      · rfl
      · exact hnot

theorem ofText_indentLines {indent : List Char} (h : Unbroken indent) (text : List Char) :
    Lines.ofText (indentLines indent text) = (Lines.ofText text).indented indent := by
  rw [indentLines_eq, Lines.ofText_text ((Lines.proper_ofText text).indented h)]

/-- What stands before the indent does not count. -/
theorem indent_append (before indent text : List Char) :
    Text.indent (before ++ indent) indent.length text = indentLines indent text := by
  unfold Text.indent
  split
  next hlength =>
    obtain rfl : indent = [] := List.length_eq_zero_iff.mp (by omega)
    have hsame : (Lines.ofText text).indented [] = Lines.ofText text := by simp [Lines.indented]
    rw [indentLines_eq, hsame, Lines.text_ofText]
  next => simp

theorem indent_self (indent text : List Char) :
    Text.indent indent indent.length text = indentLines indent text :=
  indent_append [] indent text

/-- A text has its lines in one way. Indenting by a text without breaks keeps the breaks and the
first line and puts the indent before each other line, from where it can be taken away again. A
further indent comes before it, and only as many characters count as the indent is long. -/
theorem indent_keeps_lines {x : List Char} (hx : Unbroken x) (content : List Char) :
    (∀ text lines, Lines.ofText text = lines ↔ lines.Proper ∧ lines.text = text) ∧
      (Lines.ofText (indent x x.length content)).later.map Prod.fst =
        (Lines.ofText content).later.map Prod.fst ∧
      (Lines.ofText (indent x x.length content)).first = (Lines.ofText content).first ∧
      (Lines.ofText (indent x x.length content)).later.map Prod.snd =
        (Lines.ofText content).later.map (fun line => x ++ line.2) ∧
      ((Lines.ofText (indent x x.length content)).unindented x.length).text = content ∧
      (∀ y : List Char, indent y y.length (indent x x.length content) =
        indent (y ++ x) (y ++ x).length content) ∧
      ∀ w : List Char, indent (w ++ x) x.length content = indent x x.length content := by
  have hlines : Lines.ofText (indent x x.length content) = (Lines.ofText content).indented x := by
    rw [indent_self, ofText_indentLines hx]
  refine ⟨fun _ _ => Lines.ofText_eq_iff, ?_, ?_, ?_, ?_, fun y => ?_, fun w => ?_⟩
  · rw [hlines, Lines.indented, List.map_map]
    rfl
  · rw [hlines, Lines.indented]
  · rw [hlines, Lines.indented, List.map_map]
    rfl
  · rw [hlines, Lines.unindented_indented, Lines.text_ofText]
  · rw [indent_self, indentLines_eq y, hlines, Lines.indented_indented, indent_self,
      indentLines_eq (y ++ x)]
  · rw [indent_append, indent_self]

/-- All three breaks, empty lines and a break at the end. -/
theorem indent_keeps_lines_mixed :
    Unbroken [' ', '\t'] ∧
      indent [' ', '\t'] 2 "a\r\n\n\rb\r".toList = "a\r\n \t\n \t\r \tb\r \t".toList ∧
      (Lines.ofText "a\r\n\n\rb\r".toList).later.map Prod.fst = [.crlf, .lf, .cr, .cr] ∧
      (Lines.ofText "a\r\n \t\n \t\r \tb\r \t".toList).later.map Prod.fst =
        [.crlf, .lf, .cr, .cr] ∧
      ((Lines.ofText "a\r\n \t\n \t\r \tb\r \t".toList).unindented 2).text =
        "a\r\n\n\rb\r".toList ∧
      indent ['\t'] 1 "a\r\n \t\n \t\r \tb\r \t".toList =
        indent ['\t', ' ', '\t'] 3 "a\r\n\n\rb\r".toList ∧
      indent ['\n', ' ', '\t'] 2 "a\r\n\n\rb\r".toList =
        "a\r\n \t\n \t\r \tb\r \t".toList := by
  have hunbroken : Unbroken [' ', '\t'] := by simp [Unbroken]
  have hindent : indent [' ', '\t'] 2 "a\r\n\n\rb\r".toList =
      "a\r\n \t\n \t\r \tb\r \t".toList := by cbv
  have hbreaks : (Lines.ofText "a\r\n\n\rb\r".toList).later.map Prod.fst =
      [.crlf, .lf, .cr, .cr] := by cbv
  obtain ⟨-, hsame, -, -, hback, hagain, hbefore⟩ :=
    indent_keeps_lines hunbroken "a\r\n\n\rb\r".toList
  have hlength : (([' ', '\t'] : List Char).length : Int) = 2 := rfl
  simp only [hlength, hindent] at hsame hback hagain hbefore
  exact ⟨hunbroken, hindent, hbreaks, hsame.trans hbreaks, hback, hagain ['\t'], hbefore ['\n']⟩

end Transclude.Text
