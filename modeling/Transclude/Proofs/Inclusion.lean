import Mathlib
import Transclude.Proofs.Balance
import Transclude.Proofs.Substitution

/-! # Texts that only include

A text of literal chunks and include calls with a quoted path is laid out by its
chunks for the scan for includes, and silent to all other steps of a rendering. -/

namespace Transclude

/-- A part of a text that only includes: literal text, or the inclusion of a path. -/
inductive Chunk
  | text (content : List Char)
  | call (path : List Char)
deriving DecidableEq, Repr

namespace Chunk

/-- A path in quotes, as an include is given it. -/
def quoted (path : List Char) : List Char := '\'' :: path ++ ['\'']

/-- A chunk as it stands in a text. -/
def source : Chunk → List Char
  | .text content => content
  | .call path => '@' :: '@' :: ("include".toList ++ '(' :: quoted path ++ [')'])

/-- The text of chunks. -/
def sources (chunks : List Chunk) : List Char := chunks.flatMap source

/-- The paths of the calls among chunks. -/
def calls (chunks : List Chunk) : List (List Char) :=
  chunks.filterMap fun
    | .text _ => none
    | .call path => some path

/-- Literal text holds no sign `@`, a path no quote that ends it, no backslash and no sign. -/
def Plain : Chunk → Prop
  | .text content => '@' ∉ content
  | .call path => '\'' ∉ path ∧ '\\' ∉ path ∧ '@' ∉ path

instance : DecidablePred Plain
  | .text content => inferInstanceAs (Decidable ('@' ∉ content))
  | .call path => inferInstanceAs (Decidable ('\'' ∉ path ∧ '\\' ∉ path ∧ '@' ∉ path))

/-- What the scan for includes sees of a chunk. -/
def slot : Chunk → Slot
  | .text content => .text content
  | .call path => .found (source (.call path)) (quoted path) []

end Chunk

namespace Directive

/-- The scan for a bracket passes over a quoted path. -/
theorem leads_quoted {path : List Char} (hquote : '\'' ∉ path) (hslash : '\\' ∉ path)
    (depth : Nat) : Bracket.Leads true '(' ')' (Chunk.quoted path) depth depth := by
  intro base rest
  have hquoted : Chunk.quoted path ++ rest = '\'' :: (path ++ '\'' :: rest) := by
    simp [Chunk.quoted]
  have hlength : (Chunk.quoted path).length = path.length + 1 + 1 := by simp [Chunk.quoted]
  rw [hquoted, hlength, Bracket.closingFrom_beginQuote rfl,
    Bracket.closingFrom_quoted hquote hslash (by decide), Option.map_map]
  rfl

/-- A call behind its delimiter. -/
def callText (name args : List Char) : List Char := name ++ '(' :: args ++ [')']

/-- A call behind an opening delimiter is read with arguments in which the round brackets are
closed. -/
theorem reads_callText (delimiters : Delimiters) {name args : List Char} (hne : name ≠ [])
    (hspace : name.head? ≠ some ' ') (hargs : Bracket.Leads true '(' ')' args 0 0)
    (rest : List Char) :
    headLength? delimiters.opening name (delimiters.opening ++ callText name args ++ rest) =
        some (delimiters.opening.length + name.length) ∧
      readTail .call delimiters.closing
          ((delimiters.opening ++ callText name args ++ rest).drop
            (delimiters.opening.length + name.length)) =
        .complete args [] (args.length + 2 + closingLength delimiters.closing rest) := by
  have htext : delimiters.opening ++ callText name args ++ rest =
      delimiters.opening ++ (name ++ '(' :: (args ++ ')' :: rest)) := by
    simp [callText]
  have hends : ∀ c ∈ ('(' :: (args ++ ')' :: rest)).head?, Text.isIdentifierPart c = false := by
    rintro c ⟨⟩
    decide
  have hread := bracketed?_of_leads hargs (fun _ => rfl) (fun _ => rfl) (by decide) rest
  have hbehind : ('(' :: (args ++ ')' :: rest)).drop (args.length + 2) = rest := by
    rw [List.drop_succ_cons, ← List.drop_drop, List.drop_left]
    rfl
  rw [htext]
  refine ⟨headLength?_append delimiters.opening hne hspace hends, ?_⟩
  rw [← List.drop_drop, List.drop_left, List.drop_left]
  simp only [readTail, reduceCtorEq, if_false, List.drop_zero, hread, hbehind]

/-- A call is complete with arguments in which the round brackets are closed. -/
theorem complete_of_leads {name args : List Char} (hne : name ≠ []) (hspace : name.head? ≠ some ' ')
    (hargs : Bracket.Leads true '(' ')' args 0 0) (rest : List Char) :
    Complete .standard name .call ('@' :: '@' :: callText name args) args [] rest where
  nonempty := List.cons_ne_nil _ _
  reads := by
    obtain ⟨hhead, htail⟩ := reads_callText .standard hne hspace hargs rest
    refine ⟨_, _, hhead, htail, ?_⟩
    simp only [callText, Delimiters.standard, closingLength, List.isEmpty_nil, if_true,
      List.length_cons, List.length_append, List.length_nil]
    omega

theorem complete_call {path : List Char} (h : (Chunk.call path).Plain) (rest : List Char) :
    Complete .standard "include".toList .call (Chunk.call path).source (Chunk.quoted path) []
      rest :=
  complete_of_leads (by decide) (by decide) (leads_quoted h.1 h.2.1 0) rest

end Directive

namespace Chunk

/-- Chunks are laid out for the scan for includes. -/
theorem layout {chunks : List Chunk} (h : ∀ chunk ∈ chunks, chunk.Plain) :
    Layout .standard "include".toList .call (sources chunks) (chunks.map slot) := by
  induction chunks with
  | nil => exact .nil
  | cons chunk rest ih =>
      have hrest := ih fun other hother => h other (by simp [hother])
      have hchunk := h chunk (by simp)
      cases chunk with
      | text content => exact .text (Directive.silent_of_plain hchunk _) hrest
      | call path => exact .found (Directive.complete_call hchunk _) hrest

theorem not_mem_inside {path : List Char} (h : (call path).Plain) :
    '@' ∉ "include".toList ++ '(' :: quoted path ++ [')'] := by
  simpa [quoted] using h.2.2

/-- Chunks are silent to the scans for other names. -/
theorem silent {name : List Char}
    (hname : ∀ path rest,
      Directive.nameEnds name ("include".toList ++ '(' :: quoted path ++ [')'] ++ rest) = false)
    {chunks : List Chunk} (h : ∀ chunk ∈ chunks, chunk.Plain) :
    Directive.Silent .standard name (sources chunks) [] := by
  induction chunks with
  | nil => exact Directive.silent_of_plain (by simp [sources]) []
  | cons chunk rest ih =>
      have hrest := ih fun other hother => h other (by simp [hother])
      have hchunk := h chunk (by simp)
      refine Everywhere.append ?_ hrest
      cases chunk with
      | text content => exact Directive.silent_of_plain hchunk _
      | call path =>
          exact Directive.silent_reference (not_mem_inside hchunk) ⟨_, _, rfl, by decide⟩
            (hname path _)

theorem isName_include : ∀ name ∈ ["include".toList], Variable.IsName name := by
  intro name hname
  rw [List.mem_singleton.mp hname]
  decide

theorem outcome_include {data : Data} (hdata : Entries.hasKey data (.str "include") = false) :
    Variable.outcome data (Variable.dotted ["include".toList]) = .ok .kept := by
  rw [Variable.dotted_singleton, Variable.outcome, List.splitOn_eq_singleton (by decide)]
  simp [hdata]

/-- An include is no variable unless the data have its name. -/
theorem outcome_replace {data : Data} (hdata : Entries.hasKey data (.str "include") = false)
    {chunks : List Chunk} (h : ∀ chunk ∈ chunks, chunk.Plain) :
    (Variable.replace .standard data (sources chunks)).outcome = .ok (sources chunks) := by
  induction chunks with
  | nil => exact Variable.outcome_replace_nil data
  | cons chunk rest ih =>
      replace ih := ih fun other hother => h other (by simp [hother])
      have hchunk := h chunk (by simp)
      change (Variable.replace .standard data (chunk.source ++ sources rest)).outcome =
        .ok (chunk.source ++ sources rest)
      cases chunk with
      | text content =>
          rw [source, Variable.outcome_replace_plain hchunk, ih]
          rfl
      | call path =>
          have hsplit : source (.call path) ++ sources rest =
              '@' :: '@' :: (Variable.dotted ["include".toList] ++
                ('(' :: quoted path ++ [')'] ++ sources rest)) := by
            simp [source]
          have hends : Variable.Ends ('(' :: quoted path ++ [')'] ++ sources rest) := by
            rintro c ⟨⟩
            decide
          have hkept := outcome_include hdata
          have hplain : '@' ∉ '(' :: quoted path ++ [')'] := by simpa [quoted] using hchunk.2.2
          rw [hsplit, Variable.outcome_replace_dotted isName_include (by simp) hends hkept,
            Variable.outcome_replace_plain hplain, ih]
          rfl

end Chunk

theorem Text.trimRight_of_last {text : List Char} {last : Char} (hlast : text.getLast? = some last)
    (hblank : isBlank last = false) : trimRight text = text := by
  obtain ⟨front, rfl⟩ := List.getLast?_eq_some_iff.mp hlast
  rw [trimRight, List.reverse_concat, List.dropWhile_cons_of_neg (by simp [hblank]),
    ← List.reverse_concat, List.reverse_reverse]

/-- The text begins and ends with a character that is not blank. -/
structure Text.Trimmed (text : List Char) : Prop where
  begins : ∃ first, text.head? = some first ∧ isBlank first = false
  ends : ∃ last, text.getLast? = some last ∧ isBlank last = false

theorem Text.Trimmed.trim {text : List Char} (h : Trimmed text) : Text.trim text = text := by
  obtain ⟨⟨first, hfirst, hblank⟩, last, hlast, hblank'⟩ := h
  have hleft : trimLeft text = text := by
    obtain ⟨rest, rfl⟩ := List.head?_eq_some_iff.mp hfirst
    exact List.dropWhile_cons_of_neg (by simp [hblank])
  rw [Text.trim, hleft, trimRight_of_last hlast hblank']

theorem Text.Trimmed.isEmpty {text : List Char} (h : Trimmed text) : text.isEmpty = false := by
  obtain ⟨⟨first, hfirst, _⟩, _⟩ := h
  obtain ⟨rest, rfl⟩ := List.head?_eq_some_iff.mp hfirst
  rfl

/-- A call that ends with no bracket has no filters around it. -/
theorem Filter.chain_of_last {call : List Char} {last : Char} (hlast : call.getLast? = some last)
    (hblank : Text.isBlank last = false) (hbracket : last ≠ ')') : chain call = [] := by
  unfold chain
  rw [Text.trimRight_of_last hlast hblank, hlast, if_neg (by simpa using hbracket)]

namespace Include

/-- The path ends at its quote when what follows is a parameter or nothing. -/
theorem pathAndParameter?_of_parameter {quote : Char} {path rest : List Char}
    {parameter : Option (List Char)} (h : quote ∉ path) (hrest : parameter? rest = some parameter) :
    pathAndParameter? quote (path ++ quote :: rest) = some (path, parameter) := by
  induction path with
  | nil => simp [pathAndParameter?, hrest]
  | cons c path ih =>
      rw [List.mem_cons, not_or] at h
      rw [List.cons_append, pathAndParameter?]
      simp [Ne.symm h.1, ih h.2]

theorem parse?_of_parameter {path rest : List Char} {parameter : Option (List Char)} {last : Char}
    (h : '\'' ∉ path) (hrest : parameter? rest = some parameter)
    (hlast : (Chunk.quoted path ++ rest).getLast? = some last) (hblank : Text.isBlank last = false)
    (hbracket : last ≠ ')') :
    Arguments.parse? (Chunk.quoted path ++ rest) = some ⟨path, parameter, []⟩ := by
  have htext : Chunk.quoted path ++ rest = '\'' :: (path ++ '\'' :: rest) := by simp [Chunk.quoted]
  rw [Arguments.parse?, Filter.splitChain, Filter.chain_of_last hlast hblank hbracket]
  rw [htext]
  simp only [Text.trimLeft]
  rw [List.dropWhile_cons_of_neg (by decide)]
  simp [pathAndParameter?_of_parameter h hrest]

/-- The arguments of a call are its path alone. -/
theorem parse?_quoted {path : List Char} (h : '\'' ∉ path) :
    Arguments.parse? (Chunk.quoted path) = some ⟨path, none, []⟩ := by
  have hlast : (Chunk.quoted path ++ []).getLast? = some '\'' := by
    rw [List.append_nil]
    exact List.getLast?_concat ..
  have hparse : Arguments.parse? (Chunk.quoted path ++ []) = some ⟨path, none, []⟩ :=
    parse?_of_parameter h rfl hlast (by decide) (by decide)
  rwa [List.append_nil] at hparse

end Include

namespace Comment

/-- The text has a comment in which an include follows on the line of its opening, and its end
somewhere behind. -/
def HoldsInclude (text : List Char) : Prop :=
  ∃ before line spaces inside after : List Char,
    text = before ++ "<!--".toList ++ line ++ "@@".toList ++ spaces ++ "include".toList ++
      inside ++ "-->".toList ++ after ∧ '\n' ∉ line ∧ ∀ c ∈ spaces, c = ' '

theorem not_holdsInclude_of_not_mem {text : List Char} (h : '<' ∉ text) : ¬ HoldsInclude text := by
  rintro ⟨before, line, spaces, inside, after, rfl, _⟩
  simp at h

/-- A text in which no comment holds an include is kept. -/
theorem strip_eq_self_of_not_holdsInclude {text : List Char} (h : ¬ HoldsInclude text) :
    strip .standard text = text := by
  apply strip_eq_self
  intro front back heq
  rw [Option.eq_none_iff_forall_ne_some]
  intro length hlength
  obtain ⟨line, rest, inner, rfl, hline, hfound, _⟩ := exists_of_length? hlength
  obtain ⟨spaces, inside, after, hspaces, rfl, _⟩ := exists_of_includeLength? hfound
  refine h ⟨front, line, spaces, inside, after, ?_, hline, hspaces⟩
  rw [heq, opening]
  simp [Delimiters.standard, ending]

end Comment

end Transclude
