import Mathlib
import Transclude.Proofs.Blocks
import Transclude.Proofs.References

/-! # Templates

A template is a tree of literal text, references and conditional blocks. It is
written as a text in which every bracket, name and reference ends where it should,
and it is evaluated in one pass over the tree. -/

namespace Transclude

/-- A template: literal text, a reference or a conditional block, and what follows it. -/
inductive Template
  | nil
  | literal (text : List Char) (rest : Template)
  | reference (names : List (List Char)) (rest : Template)
  | block (condition : List Char) (body rest : Template)
deriving DecidableEq, Repr

namespace Template

/-- The text of a reference. -/
def mention (names : List (List Char)) : List Char := '@' :: '@' :: Variable.dotted names

/-- The text of a block. -/
def enclose (condition body : List Char) : List Char :=
  '@' :: '@' :: 'i' :: 'f' :: ' ' :: '(' :: (condition ++ ')' :: ' ' :: '\x7b' :: (body ++ ['\x7d']))

/-- The text of a template when those of its references are given. -/
def write (text : List (List Char) → List Char) : Template → List Char
  | nil => []
  | literal content rest => content ++ write text rest
  | reference names rest => text names ++ write text rest
  | block condition body rest => enclose condition (write text body) ++ write text rest

/-- The text of a template as it stands in a document. -/
def print (template : Template) : List Char := template.write mention

/-- The text in the place of a reference: its own when nothing has its first name or its value is a
list or mapping, otherwise that of the value, which is empty for what is missing. -/
def valueText (data : Data) (names : List (List Char)) : List Char :=
  (Variable.ofNames data names).text (mention names)

/-- Whether a condition holds. One that has no value is an error of the file. -/
def holds (data : Data) (file : Option String) (condition : List Char) :
    Except (Halt Error) Bool :=
  (Expr.holds condition (Scope.ofData data)).mapError
    (Halt.map fun cause => ⟨.evaluation cause condition, file⟩)

/-- The value of a template, in one pass over the tree. -/
def evaluate (data : Data) (file : Option String) : Template → Except (Halt Error) (List Char)
  | nil => .ok []
  | literal content rest => do return content ++ (← evaluate data file rest)
  | reference names rest => do return valueText data names ++ (← evaluate data file rest)
  | block condition body rest => do
    let held ← holds data file condition
    let inner ← bif held then evaluate data file body else .ok []
    return inner ++ (← evaluate data file rest)

/-- The references of a template. -/
def references : Template → List (List (List Char))
  | nil => []
  | literal _ rest => references rest
  | reference names rest => names :: references rest
  | block _ body rest => references body ++ references rest

/-- The names that directives have. -/
def directiveNames : List (List Char) :=
  ["include".toList, "loop".toList, "if".toList, "for".toList]

/-- The names of a reference, of which the first does not begin like a directive. -/
def IsReference (names : List (List Char)) : Prop :=
  (∀ name ∈ names, Variable.IsName name) ∧
    ∃ first others, names = first :: others ∧ ∀ word ∈ directiveNames, ¬ word <+: first

/-- The text of a condition: an expression without signs and braces. -/
structure IsCondition (condition : List Char) : Prop where
  parses : ∃ e, Expr.parse condition = .ok e
  signless : '@' ∉ condition
  unopened : '\x7b' ∉ condition
  unclosed : '\x7d' ∉ condition

/-- All braces of a text are closed in it. -/
abbrev Braced (text : List Char) : Prop := Balanced (· == '\x7b') (· == '\x7d') text

/-- The template begins with literal text that no path of names goes on into. -/
def StartsApart : Template → Prop
  | literal (c :: _) _ => Text.isIdentifierPart c = false ∧ c ≠ '.'
  | _ => False

/-- Nothing in a template can be taken for something else. Braces count inside of blocks only. -/
def Proper (inside : Bool) : Template → Prop
  | nil => True
  | literal content rest =>
    '@' ∉ content ∧ (inside = true → Braced content) ∧ Proper inside rest
  | reference names rest => IsReference names ∧ StartsApart rest ∧ Proper inside rest
  | block condition body rest => IsCondition condition ∧ Proper true body ∧ Proper inside rest

/-! ## Texts of references -/

theorem ends_of_startsApart {rest : Template} (h : StartsApart rest)
    (text : List (List Char) → List Char) (behind : List Char) :
    Variable.Ends (rest.write text ++ behind) := by
  cases rest with
  | literal content rest =>
      cases content with
      | nil => cases h
      | cons c content =>
          rintro d ⟨⟩
          exact h
  | _ => cases h

theorem ends_print {rest : Template} (h : StartsApart rest) : Variable.Ends rest.print := by
  have hends := ends_of_startsApart h mention []
  rwa [List.append_nil] at hends

/-- The first name of a path ends where it does. -/
theorem exists_dotted_eq (first : List Char) (others : List (List Char)) {rest : List Char}
    (hrest : Variable.Ends rest) :
    ∃ behind, Variable.dotted (first :: others) ++ rest = first ++ behind ∧
      ∀ c ∈ behind.head?, Text.isIdentifierPart c = false := by
  cases others with
  | nil => exact ⟨rest, by rw [Variable.dotted_singleton], fun c hc => (hrest c hc).1⟩
  | cons second others =>
      refine ⟨'.' :: Variable.dotted (second :: others) ++ rest, ?_, ?_⟩
      · rw [Variable.dotted_cons_cons, List.append_assoc]
      · rintro c ⟨⟩
        exact Variable.not_part_point

/-- A word that a name is followed by something else than begins within the name. -/
theorem prefix_of_prefix_append {word first behind : List Char}
    (hword : ∀ c ∈ word, Text.isIdentifierPart c = true)
    (hbehind : ∀ c ∈ behind.head?, Text.isIdentifierPart c = false)
    (h : word <+: first ++ behind) : word <+: first := by
  obtain hprefix | ⟨more, rfl⟩ :=
    List.prefix_or_prefix_of_prefix h (List.prefix_append first behind)
  · exact hprefix
  · -- a longer word would go on with what is no part of a name
    have hmore := (List.prefix_append_right_inj first).mp h
    cases more with
    | nil => simp
    | cons c more =>
        obtain ⟨after, rfl⟩ := hmore
        have hpart := hword c (by simp)
        rw [hbehind c rfl] at hpart
        cases hpart

theorem directiveNames_part {word : List Char} (h : word ∈ directiveNames) :
    ∀ c ∈ word, Text.isIdentifierPart c = true := by
  have hall : (directiveNames.all fun word => word.all Text.isIdentifierPart) = true := by decide
  exact List.all_eq_true.mp (List.all_eq_true.mp hall word h)

/-- No directive begins like a reference. -/
theorem IsReference.not_begins {names : List (List Char)} (h : IsReference names) {word : List Char}
    (hword : word ∈ directiveNames) {rest : List Char} (hrest : Variable.Ends rest) :
    ¬ word <+: Variable.dotted names ++ rest := by
  obtain ⟨_, first, others, rfl, hfirst⟩ := h
  obtain ⟨behind, heq, hbehind⟩ := exists_dotted_eq first others hrest
  rw [heq]
  exact fun hprefix =>
    hfirst word hword (prefix_of_prefix_append (directiveNames_part hword) hbehind hprefix)

theorem IsReference.ne_nil {names : List (List Char)} (h : IsReference names) : names ≠ [] := by
  obtain ⟨_, first, others, rfl, _⟩ := h
  exact List.cons_ne_nil first others

theorem IsReference.dotted_ne_nil {names : List (List Char)} (h : IsReference names) :
    Variable.dotted names ≠ [] :=
  Variable.dotted_ne_nil h.1 h.ne_nil

theorem IsReference.not_mem {names : List (List Char)} (h : IsReference names) :
    '@' ∉ Variable.dotted names :=
  Variable.not_mem_dotted h.1 Variable.not_part_sign (by decide)

/-- The text of a reference does not begin with a space. -/
theorem IsReference.exists_cons {names : List (List Char)} (h : IsReference names) :
    ∃ c more, Variable.dotted names = c :: more ∧ c ≠ ' ' := by
  obtain ⟨c, more, heq⟩ := List.exists_cons_of_ne_nil h.dotted_ne_nil
  refine ⟨c, more, heq, ?_⟩
  rintro rfl
  have hspace : ' ' ∉ Variable.dotted names := Variable.not_mem_dotted h.1 (by decide) (by decide)
  rw [heq] at hspace
  simp at hspace

/-- A reference is silent to the scans for directives. -/
theorem IsReference.silent {names : List (List Char)} (h : IsReference names) {word : List Char}
    (hword : word ∈ directiveNames) {rest : List Char} (hrest : Variable.Ends rest) :
    Directive.Silent .standard word (mention names) rest := by
  refine Directive.silent_reference h.not_mem h.exists_cons ?_
  unfold Directive.nameEnds
  rw [Bool.and_eq_false_iff]
  left
  rw [Bool.eq_false_iff]
  exact fun hprefix => h.not_begins hword hrest (List.isPrefixOf_iff_prefix.mp hprefix)

/-! ## Texts of blocks -/

theorem braced_of_not_mem {text : List Char} (hopen : '\x7b' ∉ text) (hclose : '\x7d' ∉ text) :
    Braced text := by
  apply balanced_of_forall
  intro c hc
  refine ⟨beq_eq_false_iff_ne.mpr ?_, beq_eq_false_iff_ne.mpr ?_⟩
  · rintro rfl
    exact hopen hc
  · rintro rfl
    exact hclose hc

theorem braced_mention {names : List (List Char)} (h : IsReference names) :
    Braced (mention names) := by
  have hopen : '\x7b' ∉ Variable.dotted names := Variable.not_mem_dotted h.1 (by decide) (by decide)
  have hclose : '\x7d' ∉ Variable.dotted names := Variable.not_mem_dotted h.1 (by decide) (by decide)
  exact braced_of_not_mem (by simpa [mention] using hopen) (by simpa [mention] using hclose)

theorem braced_enclose {condition body : List Char} (h : IsCondition condition)
    (hbody : Braced body) : Braced (enclose condition body) := by
  have hcondition := braced_of_not_mem h.unopened h.unclosed
  have hfront : Braced ['@', '@', 'i', 'f', ' ', '('] := by decide
  have hmiddle : Braced [')', ' '] := by decide
  have hbraces : Braced ('\x7b' :: body ++ ['\x7d']) := hbody.around rfl rfl rfl
  exact hfront.append (hcondition.append (hmiddle.append hbraces))

/-- Inside of a block all braces of a template are closed in it. -/
theorem braced_print {template : Template} (h : template.Proper true) : Braced template.print := by
  induction template with
  | nil => exact balanced_nil
  | literal content rest ih => exact (h.2.1 rfl).append (ih h.2.2)
  | reference names rest ih => exact (braced_mention h.1).append (ih h.2.2)
  | block condition body rest ihbody ihrest =>
      exact (braced_enclose h.1 (ihbody h.2.1)).append (ihrest h.2.2)

/-- The text of a block is read with its condition and its body. -/
theorem complete_enclose {condition body : List Char} (h : IsCondition condition)
    (hbody : Braced body) (rest : List Char) :
    Directive.Complete .standard "if".toList .block (enclose condition body) condition body
      rest := by
  have hsource : enclose condition body =
      '@' :: '@' :: Directive.blockText "if".toList condition body := by
    simp [enclose, Directive.blockText]
  obtain ⟨e, hparse⟩ := h.parses
  rw [hsource]
  have hargs : Bracket.Leads true '(' ')' condition 0 0 := Expr.leads_of_parse .round hparse
  exact Directive.complete_block (by decide) (by decide) hargs hbody rest

end Template

end Transclude
