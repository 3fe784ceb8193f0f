import Mathlib
import Transclude.Proofs.Inclusion
import Transclude.Proofs.Words

/-! # Arguments as they are written

The arguments of an include are a path in quotes and perhaps a parameter, wrapped in
calls of filters, with blanks anywhere between them. Whatever the path and the
parameter hold, they are read back, and the filters are those that the chain names. -/

namespace Transclude

namespace Text

/-- A text of blanks. -/
def AllBlank (text : List Char) : Prop := ∀ c ∈ text, isBlank c = true

instance : DecidablePred AllBlank := fun _ => decidable_of_iff _ List.all_eq_true

theorem trimLeft_append {blanks : List Char} (h : AllBlank blanks) (text : List Char) :
    trimLeft (blanks ++ text) = trimLeft text :=
  List.dropWhile_append_of_pos h

theorem trimLeft_of_head {c : Char} (h : isBlank c = false) (rest : List Char) :
    trimLeft (c :: rest) = c :: rest :=
  List.dropWhile_cons_of_neg (by simp [h])

theorem trimRight_append {blanks : List Char} (h : AllBlank blanks) (text : List Char) :
    trimRight (text ++ blanks) = trimRight text := by
  rw [trimRight, List.reverse_append,
    List.dropWhile_append_of_pos fun c hc => h c (List.mem_reverse.mp hc)]
  rfl

theorem Trimmed.trim_append {text before behind : List Char} (h : Trimmed text)
    (hbefore : AllBlank before) (hbehind : AllBlank behind) :
    Text.trim (before ++ (text ++ behind)) = text := by
  obtain ⟨⟨first, hfirst, hblank⟩, last, hlast, hblank'⟩ := h
  obtain ⟨rest, rfl⟩ := List.head?_eq_some_iff.mp hfirst
  rw [Text.trim, trimLeft_append hbefore, List.cons_append, trimLeft_of_head hblank,
    ← List.cons_append, trimRight_append hbehind, trimRight_of_last hlast hblank']

theorem toNat_of_isAlphanum {c : Char} (h : c.isAlphanum = true) : 48 ≤ c.toNat := by
  simp only [Char.isAlphanum, Char.isAlpha, Char.isUpper, Char.isLower, Char.isDigit,
    Bool.or_eq_true, Bool.and_eq_true, decide_eq_true_eq, ge_iff_le, UInt32.le_iff_toNat_le] at h
  have hvalue : c.toNat = c.val.toNat := rfl
  simp at h
  omega

/-- A blank is no letter and no number, in ASCII or beyond. -/
theorem isAlphanumeric_of_isBlank {c : Char} (h : isBlank c = true) : isAlphanumeric c = false := by
  obtain ⟨blank, hblank, hc⟩ := List.any_eq_true.mp h
  rw [Bool.and_eq_true, decide_eq_true_eq, decide_eq_true_eq] at hc
  unfold isAlphanumeric
  split
  next hascii =>
    have hlow : ∀ blank ∈ blankRanges, blank.1 < 128 → blank.2 < 48 := by decide
    have hlimit := hlow blank hblank (by omega)
    rw [Bool.eq_false_iff]
    intro hletter
    have hletters := toNat_of_isAlphanum hletter
    omega
  next =>
    have hapart : ∀ blank ∈ blankRanges, ∀ range ∈ alphanumericRanges,
        blank.2 < range.1 ∨ range.2 < blank.1 := by decide +kernel
    rw [Ranges.contains, List.any_eq_false]
    intro range hrange
    have hends := hapart blank hblank range hrange
    rw [Bool.and_eq_true, decide_eq_true_eq, decide_eq_true_eq]
    omega

theorem isIdentifierPart_of_isBlank {c : Char} (h : isBlank c = true) :
    isIdentifierPart c = false := by
  have hsigns : isBlank '_' = false ∧ isBlank '$' = false := by decide
  have hbar : c ≠ '_' := by
    rintro rfl
    rw [hsigns.1] at h
    cases h
  have hdollar : c ≠ '$' := by
    rintro rfl
    rw [hsigns.2] at h
    cases h
  simp [isIdentifierPart, isWord, isAlphanumeric_of_isBlank h, hbar, hdollar]

end Text

/-! ## Calls of filters -/

namespace Filter

open Text

/-- A name with its bracket begins a call, whatever blanks stand between them. -/
theorem link?_call {name between : List Char} (hname : Variable.IsName name)
    (hbetween : AllBlank between) (inside : List Char) :
    link? (name ++ (between ++ '(' :: inside)) = some (name, trimLeft inside) := by
  obtain ⟨c, rest, rfl, hstart, hrest⟩ := hname
  have hends : ∀ d ∈ (between ++ '(' :: inside).head?, isIdentifierPart d = false := by
    cases between with
    | nil =>
        rintro d ⟨⟩
        decide
    | cons blank between =>
        rintro d ⟨⟩
        exact isIdentifierPart_of_isBlank (hbetween _ List.mem_cons_self)
  have htake := Variable.takeWhile_name hrest hends
  have hdrop : (rest ++ (between ++ '(' :: inside)).dropWhile isIdentifierPart =
      between ++ '(' :: inside := by
    have hwhole := List.takeWhile_append_dropWhile (p := isIdentifierPart)
      (l := rest ++ (between ++ '(' :: inside))
    rw [htake] at hwhole
    exact List.append_cancel_left hwhole
  rw [List.cons_append, link?, if_pos hstart, htake, hdrop, trimLeft_append hbetween,
    trimLeft_of_head (by decide)]
  rfl

theorem openCalls_call {name between : List Char} (hname : Variable.IsName name)
    (hbetween : AllBlank between) (inside : List Char) :
    openCalls (name ++ (between ++ '(' :: inside)) =
      (name :: (openCalls (trimLeft inside)).1, (openCalls (trimLeft inside)).2) := by
  have hlink := link?_call hname hbetween inside
  rw [openCalls]
  split
  next hnone =>
    rw [hlink] at hnone
    cases hnone
  next found inner hsome =>
    rw [hlink] at hsome
    obtain ⟨rfl, rfl⟩ := Prod.mk.inj (Option.some.inj hsome)
    rfl

theorem openCalls_of_link?_eq_none {text : List Char} (h : link? text = none) :
    openCalls text = ([], text) := by
  rw [openCalls]
  split
  next => rfl
  next hsome =>
    rw [h] at hsome
    cases hsome

/-- A text that does not begin with a name begins with no call. -/
theorem openCalls_of_head {c : Char} (h : isIdentifierStart c = false) (rest : List Char) :
    openCalls (c :: rest) = ([], c :: rest) :=
  openCalls_of_link?_eq_none (by rw [link?, if_neg (by simp [h])])

theorem exists_of_link? {text : List Char} {link : List Char × List Char}
    (h : link? text = some link) : ∃ c rest, text = c :: rest ∧ isIdentifierStart c = true := by
  unfold link? at h
  split at h
  next => cases h
  next c rest =>
    split at h
    next hstart => exact ⟨c, rest, rfl, hstart⟩
    next => cases h

/-- A call with filters begins with the name of one. -/
theorem exists_of_chain {call : List Char} (h : chain call ≠ []) :
    ∃ c rest, trimLeft call = c :: rest ∧ isIdentifierStart c = true := by
  cases hlink : link? (trimLeft call) with
  | some link => exact exists_of_link? hlink
  | none =>
      exact absurd (by rw [chain, openCalls_of_link?_eq_none hlink, ite_self]) h

/-- The names are those of the chain, unless the brackets of the chain are not closed. -/
theorem splitChain_cases (call : List Char) :
    (splitChain call).1 = chain call ∨ chain call ≠ [] ∧ splitChain call = ([], call) := by
  unfold splitChain
  split
  next hnone => exact .inl hnone.symm
  next hnames =>
    split
    next => exact .inl rfl
    next => exact .inr ⟨hnames, rfl⟩

end Filter

/-! ## Arguments -/

namespace Include

open Text

/-- The quotes that a path may stand in. -/
def IsPathQuote (quote : Char) : Prop := quote = '"' ∨ quote = '\''

/-- A path in quotes that do not stand in it, and the parameter behind it. -/
inductive Passes (path : List Char) : Option (List Char) → List Char → Prop
  | path {quote : Char} (hquote : IsPathQuote quote) (hpath : quote ∉ path) :
    Passes path none (quote :: (path ++ [quote]))
  | parameter {quote : Char} {parameter between before : List Char} (hquote : IsPathQuote quote)
    (hpath : quote ∉ path) (hparameter : Trimmed parameter) (hbetween : AllBlank between)
    (hbefore : AllBlank before) :
    Passes path (some parameter)
      (quote :: (path ++ quote :: (between ++ ',' :: (before ++ parameter))))

/-- The texts that write arguments: the path and its parameter in calls of the filters. Blanks may
stand anywhere between these. -/
inductive Arguments.Writes : Arguments → List Char → Prop
  | plain {path text before behind : List Char} {parameter : Option (List Char)}
    (hbefore : AllBlank before) (hbehind : AllBlank behind) (htext : Passes path parameter text) :
    Writes ⟨path, parameter, []⟩ (before ++ (text ++ behind))
  | call {path : List Char} {parameter : Option (List Char)} {filters : List (List Char)}
    {name text before between behind : List Char} (hname : Variable.IsName name)
    (hbefore : AllBlank before) (hbetween : AllBlank between) (hbehind : AllBlank behind)
    (htext : Writes ⟨path, parameter, filters⟩ text) :
    Writes ⟨path, parameter, name :: filters⟩
      (before ++ (name ++ (between ++ '(' :: (text ++ ')' :: behind))))

/-! ### The path and the parameter -/

theorem IsPathQuote.isBlank {quote : Char} (h : IsPathQuote quote) : Text.isBlank quote = false := by
  rcases h with rfl | rfl <;> decide

theorem IsPathQuote.not_start {quote : Char} (h : IsPathQuote quote) :
    isIdentifierStart quote = false := by
  rcases h with rfl | rfl <;> decide

namespace Passes

variable {path text behind : List Char} {parameter : Option (List Char)}

theorem trimRight_append (h : Passes path parameter text) (hbehind : AllBlank behind) :
    trimRight (text ++ behind) = text := by
  obtain ⟨last, hlast, hblank⟩ : ∃ last, text.getLast? = some last ∧ isBlank last = false := by
    cases h with
    | @path quote hquote _ =>
        exact ⟨quote, List.getLast?_concat (l := quote :: path), hquote.isBlank⟩
    | @parameter quote parameter between before _ _ hparameter _ _ =>
        obtain ⟨last, hlast, hblank⟩ := hparameter.ends
        obtain ⟨front, rfl⟩ := List.getLast?_eq_some_iff.mp hlast
        refine ⟨last, List.getLast?_eq_some_iff.mpr ?_, hblank⟩
        exact ⟨quote :: (path ++ quote :: (between ++ ',' :: (before ++ front))), by simp⟩
  rw [Text.trimRight_append hbehind, trimRight_of_last hlast hblank]

/-- What a text passes is read from it, whatever blanks stand behind it. -/
theorem pathAndParameter?_eq (h : Passes path parameter text) (hbehind : AllBlank behind) :
    ∃ quote rest, text ++ behind = quote :: rest ∧ IsPathQuote quote ∧
      pathAndParameter? quote rest = some (path, parameter) := by
  cases h with
  | @path quote hquote hpath =>
      refine ⟨quote, path ++ quote :: behind, by simp, hquote,
        pathAndParameter?_of_parameter hpath ?_⟩
      have hnothing : trimLeft behind = [] := List.dropWhile_eq_nil_iff.mpr hbehind
      rw [parameter?, hnothing]
  | @parameter quote parameter between before hquote hpath hparameter hbetween hbefore =>
      refine ⟨quote, path ++ quote :: (between ++ ',' :: (before ++ (parameter ++ behind))),
        by simp, hquote, pathAndParameter?_of_parameter hpath ?_⟩
      rw [parameter?, trimLeft_append hbetween, trimLeft_of_head (by decide)]
      simp only [hparameter.trim_append hbefore hbehind, hparameter.isEmpty, Bool.false_eq_true,
        if_false]

end Passes

/-! ### The filters -/

namespace Arguments

variable {arguments : Arguments} {text : List Char}

/-- The calls of a text are read up to the path; behind their brackets are taken off, what is left
passes the path and the parameter. -/
theorem Writes.openCalls (h : Writes arguments text) :
    ∃ inner core, (∀ tail, Filter.openCalls (trimLeft (text ++ tail)) =
        (arguments.filters, inner ++ tail)) ∧
      Filter.withoutClosings? arguments.filters (trimRight inner) = some core ∧
      Passes arguments.path arguments.parameter core := by
  induction h with
  | @plain path text before behind parameter hbefore hbehind htext =>
      refine ⟨text ++ behind, text, fun tail => ?_, ?_, htext⟩
      · obtain ⟨quote, rest, hrest, hquote, _⟩ := htext.pathAndParameter?_eq hbehind
        rw [List.append_assoc, trimLeft_append hbefore, hrest, List.cons_append,
          trimLeft_of_head hquote.isBlank, Filter.openCalls_of_head hquote.not_start]
      · rw [htext.trimRight_append hbehind]
        rfl
  | @call path parameter filters name text before between behind hname hbefore hbetween hbehind _
      ih =>
      obtain ⟨inner, core, hcalls, hcore, hpasses⟩ := ih
      refine ⟨inner ++ ')' :: behind, core, fun tail => ?_, ?_, hpasses⟩
      · have htext : before ++ (name ++ (between ++ '(' :: (text ++ ')' :: behind))) ++ tail =
            before ++ (name ++ (between ++ '(' :: (text ++ (')' :: (behind ++ tail))))) := by simp
        obtain ⟨c, rest, rfl, hstart, _⟩ := id hname
        rw [htext, trimLeft_append hbefore, List.cons_append,
          trimLeft_of_head (Expr.isBlank_of_isIdentifierStart hstart), ← List.cons_append,
          Filter.openCalls_call hname hbetween, hcalls]
        simp
      · have hends : trimRight (inner ++ ')' :: behind) = inner ++ [')'] := by
          rw [List.append_cons, trimRight_append hbehind]
          exact trimRight_of_last List.getLast?_concat (by decide)
        rw [hends, Filter.withoutClosings?, List.getLast?_concat, List.dropLast_concat]
        exact hcore

/-- Arguments with filters end with a bracket. -/
theorem Writes.ends (h : Writes arguments text) (hfilters : arguments.filters ≠ []) :
    (trimRight text).getLast? = some ')' := by
  cases h with
  | plain => exact absurd rfl hfilters
  | @call path parameter filters name text before between behind hname hbefore hbetween hbehind _ =>
      have htext : before ++ (name ++ (between ++ '(' :: (text ++ ')' :: behind))) =
          before ++ (name ++ (between ++ '(' :: text)) ++ [')'] ++ behind := by simp
      rw [htext, trimRight_append hbehind, trimRight_of_last List.getLast?_concat (by decide)]
      exact List.getLast?_concat

/-- The chain of written arguments is that of their filters. -/
theorem Writes.chain (h : Writes arguments text) : Filter.chain text = arguments.filters := by
  obtain ⟨inner, _, hcalls, _⟩ := h.openCalls
  have hnames : (Filter.openCalls (trimLeft text)).1 = arguments.filters := by
    simpa using congrArg Prod.fst (hcalls [])
  unfold Filter.chain
  split
  next => exact hnames
  next hends =>
    by_contra hne
    exact hends (beq_iff_eq.mpr (h.ends (Ne.symm hne)))

/-- Without filters the whole text is left, and else what the filters wrap. -/
theorem Writes.splitChain (h : Writes arguments text) :
    ∃ core before behind, Filter.splitChain text =
        (arguments.filters, before ++ (core ++ behind)) ∧ AllBlank before ∧ AllBlank behind ∧
      Passes arguments.path arguments.parameter core := by
  have hchain := h.chain
  obtain ⟨inner, core, hcalls, hcore, hpasses⟩ := h.openCalls
  have hinner : (Filter.openCalls (trimLeft text)).2 = inner := by
    simpa using congrArg Prod.snd (hcalls [])
  unfold Filter.splitChain
  cases h with
  | @plain _ text before behind _ hbefore hbehind htext =>
      rw [hchain]
      exact ⟨text, before, behind, rfl, hbefore, hbehind, htext⟩
  | call =>
      rw [hchain]
      refine ⟨core, [], [], ?_, List.forall_mem_nil _, List.forall_mem_nil _, hpasses⟩
      simp only [hinner, hcore, List.nil_append, List.append_nil]

/-- What a text writes is read from it. -/
theorem Writes.parse?_eq (h : Writes arguments text) : parse? text = some arguments := by
  obtain ⟨core, before, behind, hsplit, hbefore, hbehind, hpasses⟩ := h.splitChain
  obtain ⟨quote, rest, hrest, hquote, hread⟩ := hpasses.pathAndParameter?_eq hbehind
  have hsign : (quote == '"' || quote == '\'') = true := by rcases hquote with rfl | rfl <;> decide
  rw [parse?, hsplit]
  dsimp only
  rw [trimLeft_append hbefore, hrest, trimLeft_of_head hquote.isBlank]
  simp only [hsign, if_true, hread, Option.map_some]

/-! ### The two readings of a chain -/

theorem exists_of_parse? (h : parse? text = some arguments) :
    arguments.filters = (Filter.splitChain text).1 ∧ ∃ quote rest,
      trimLeft (Filter.splitChain text).2 = quote :: rest ∧ IsPathQuote quote := by
  unfold parse? at h
  dsimp only at h
  split at h
  next => cases h
  next quote rest htext =>
    split at h
    next hquote =>
      obtain ⟨read, _, rfl⟩ := Option.map_eq_some_iff.mp h
      exact ⟨rfl, quote, rest, htext, by simpa [IsPathQuote] using hquote⟩
    next => cases h

/-- The filters of arguments that are read are those of the chain of their text. When the brackets
of a chain are not closed, the text begins with a name, and no arguments are read. -/
theorem chain_of_parse? (h : parse? text = some arguments) :
    Filter.chain text = arguments.filters := by
  obtain ⟨hfilters, quote, rest, htext, hquote⟩ := exists_of_parse? h
  rcases Filter.splitChain_cases text with hchain | ⟨hchain, hsplit⟩
  · rw [hfilters, hchain]
  · obtain ⟨c, more, hname, hstart⟩ := Filter.exists_of_chain hchain
    rw [hsplit, hname] at htext
    obtain rfl := (List.cons.inj htext).1
    rw [hquote.not_start] at hstart
    cases hstart

/-- Arguments are read from every text that writes them, and whatever text arguments are read from,
its chain has the names of their filters. -/
theorem read_as_written :
    (∀ (arguments : Arguments) (text : List Char), Writes arguments text →
        parse? text = some arguments) ∧
      ∀ (text : List Char) (arguments : Arguments), parse? text = some arguments →
        Filter.chain text = arguments.filters :=
  ⟨fun _ _ => Writes.parse?_eq, fun _ _ => chain_of_parse?⟩

/-- The path holds a bracket, a comma and the other quote, the parameter closing brackets at its end
and a quote. -/
theorem read_as_written_nested :
    ∃ text, text = " trim\t( $f(\n\"a)',(b\" , 'c )) ) )\n".toList ∧
      Writes ⟨"a)',(b".toList, some "'c ))".toList, ["trim".toList, "$f".toList]⟩ text ∧
      parse? text = some ⟨"a)',(b".toList, some "'c ))".toList, ["trim".toList, "$f".toList]⟩ ∧
      Filter.chain text = ["trim".toList, "$f".toList] := by
  have htrim : Variable.IsName "trim".toList := by decide
  have hf : Variable.IsName "$f".toList := by decide
  have hspace : AllBlank " ".toList := by decide
  have hline : AllBlank "\n".toList := by decide
  have htab : AllBlank "\t".toList := by decide
  have hpasses : Passes "a)',(b".toList (some "'c ))".toList) "\"a)',(b\" , 'c ))".toList :=
    @Passes.parameter _ '"' "'c ))".toList " ".toList " ".toList (.inl rfl) (by decide)
      ⟨⟨'\'', rfl, by decide⟩, ')', rfl, by decide⟩ hspace hspace
  have hinner := Writes.call hf hspace (List.forall_mem_nil _) hspace (.plain hline hspace hpasses)
  have hwrites := Writes.call htrim hspace htab hline hinner
  have hparse := read_as_written.1 _ _ hwrites
  exact ⟨_, rfl, hwrites, hparse, read_as_written.2 _ _ hparse⟩

end Arguments

end Include

end Transclude
