import Mathlib
import Transclude.Filter.Pipeline
import Transclude.Proofs.JsonBraces
import Transclude.Proofs.Keys
import Transclude.Proofs.Outcome
import Transclude.Proofs.Wrapping
import Transclude.Value.Shown

/-! # Chains of filters

The filters of a call are composed from right to left. The innermost one is given the
object that is the parameter of the call, provided that the path before it holds no
opening brace, and the others are given no options. -/

namespace Transclude.Filter

/-! ## The filters of a registry -/

/-- A function of a text and perhaps options for each name. -/
abbrev Functions := String → List Char → Option Data → List Char

/-- The filter that a function is, which never fails. -/
def total (f : List Char → Option Data → List Char) : TextFilter :=
  fun text options => .ok (f text options)

theorem mapM_eq_ok {ε α β : Type} {step : α → Except ε β} {value : α → β} {items : List α}
    (h : ∀ a ∈ items, step a = .ok (value a)) : items.mapM step = .ok (items.map value) := by
  induction items with
  | nil => rfl
  | cons a items ih =>
      obtain ⟨ha, hitems⟩ := List.forall_mem_cons.mp h
      rw [List.mapM_cons, ha, ih hitems]
      rfl

/-- What is registered are names, each with a filter that the library knows as the function of the
name. -/
def Registers (registry : Registry) (library : Library) (f : Functions) : Prop :=
  ∀ entry ∈ registry, ∃ name filter,
    entry = (.str name, .scalar (.filter filter)) ∧ library filter = some (total (f name))

section

variable {registry : Registry} {library : Library} {f : Functions}

theorem Registers.registered? (h : Registers registry library f) {name : String}
    (hname : Entries.hasKey registry (.str name) = true) :
    registered? registry name library = some (total (f name)) := by
  rw [Entries.hasKey_eq_isSome, Option.isSome_iff_exists] at hname
  obtain ⟨value, hvalue⟩ := hname
  obtain ⟨⟨key, found⟩, hfound, rfl⟩ := Option.map_eq_some_iff.mp hvalue
  obtain ⟨other, filter, heq, hlibrary⟩ := h _ (List.mem_of_find?_eq_some hfound)
  obtain ⟨rfl, rfl⟩ := Prod.mk.inj heq
  have hsame := List.find?_some hfound
  obtain rfl : other = name := by simpa using Key.same_str.mp hsame
  rw [Filter.registered?, hvalue]
  simp only [Option.map_some, hlibrary, Option.getD_some]

/-- The names of a registry, in their order. -/
def sortedNames (registry : Registry) : List String :=
  (registry.map fun entry => entry.1.name).mergeSort fun a b => decide (a ≤ b)

theorem Registers.registeredNames (h : Registers registry library f) :
    registeredNames registry = .ok (sortedNames registry) := by
  rw [Filter.registeredNames, mapM_eq_ok fun entry hentry => ?_]
  · rfl
  · obtain ⟨name, filter, rfl, _⟩ := h entry hentry
    rfl

theorem Registers.lookupAll (h : Registers registry library f) {names : List String}
    (hnames : ∀ name ∈ names, Entries.hasKey registry (.str name) = true) :
    lookupAll registry names library = names.map fun name => total (f name) := by
  induction names with
  | nil => rfl
  | cons name names ih =>
      obtain ⟨hname, hrest⟩ := List.forall_mem_cons.mp hnames
      rw [List.map_cons, ← ih hrest]
      exact List.filterMap_cons_some (h.registered? hname)

end

/-- Total filters are composed from right to left, and the last one is given the options. -/
theorem applyAll_total (f : Functions) (options : Option Data) (content : List Char)
    (outer : List String) (innermost : String) :
    applyAll options content ((outer ++ [innermost]).map fun name => total (f name)) =
      .ok (outer.foldr (fun name text => f name text none) (f innermost content options)) := by
  induction outer with
  | nil => rfl
  | cons name outer ih =>
      obtain ⟨next, more, hmore⟩ : ∃ next more, outer ++ [innermost] = next :: more := by
        cases outer <;> exact ⟨_, _, rfl⟩
      rw [List.cons_append, List.map_cons]
      rw [hmore, List.map_cons] at ih ⊢
      rw [applyAll, ih]
      · rfl
      · simp

/-! ## The options of a call -/

/-- The options that a parameter gives: none without one, and the data of a JSON object. -/
inductive OptionsOf : Option (List Char) → Option Data → Prop
  | none : OptionsOf none none
  | object {object : List Char} {entries : Entries Unit}
    (hread : Json.read object = .ok (.map () entries)) :
    OptionsOf (some object) (some (Value.placedEntries [] 0 entries))

/-- Where the options begin is looked for behind a text without an opening brace. -/
theorem dropWhile_append {front : List Char} (h : '\x7b' ∉ front) (rest : List Char) :
    (front ++ rest).dropWhile (· != '\x7b') = rest.dropWhile (· != '\x7b') := by
  refine List.dropWhile_append_of_pos fun c hc => ?_
  rw [bne_iff_ne]
  rintro rfl
  exact h hc

theorem options_of_not_mem {call : List Char} (h : '\x7b' ∉ call) : options call = .ok none := by
  have hrest : call.dropWhile (· != '\x7b') = [] := by simpa using dropWhile_append h []
  simp only [options, hrest, List.isEmpty_nil, if_true]

/-- The first object in braces gives the options. -/
theorem options_of_object {front object : List Char} {entries : Entries Unit}
    (hfront : '\x7b' ∉ front) (hobject : Text.Trimmed object)
    (hread : Json.read object = .ok (.map () entries)) (back : List Char) :
    options (front ++ (object ++ back)) = .ok (some (Value.placedEntries [] 0 entries)) := by
  have hgroup := Json.group_of_read hobject hread
  have hclosing := hgroup.closing? (by decide) (by decide) (by decide) back
  have hlength := hgroup.two_le_length
  have hrest : (front ++ (object ++ back)).dropWhile (· != '\x7b') = object ++ back := by
    obtain ⟨inner, rfl, _⟩ := hgroup
    exact (dropWhile_append hfront _).trans (List.dropWhile_cons_of_neg (by simp))
  have hnonempty : (object ++ back).isEmpty = false := by
    rw [List.isEmpty_eq_false_iff]
    exact List.append_ne_nil_of_left_ne_nil (List.isEmpty_eq_false_iff.mp hobject.isEmpty) back
  have htake : (object ++ back).take (object.length - 1 + 1) = object := by
    rw [Nat.sub_add_cancel (by omega), List.take_left]
  simp only [options, hrest, hnonempty, hclosing, htake, hread, Bool.false_eq_true, if_false]

section

variable {arguments : Include.Arguments} {call : List Char}

/-- No brace stands before and behind the parameter. -/
theorem exists_parameter (h : arguments.Writes call) (hpath : '\x7b' ∉ arguments.path) :
    ∃ front back, call = front ++ (arguments.parameter.getD [] ++ back) ∧ '\x7b' ∉ front ∧
      '\x7b' ∉ back := by
  have hblanks {blanks : List Char} (h : Text.AllBlank blanks) : '\x7b' ∉ blanks :=
    fun hmem => absurd (h _ hmem) (by decide)
  induction h with
  | @plain path text before behind parameter hbefore hbehind htext =>
      have hbrace {quote : Char} (hquote : Include.IsPathQuote quote) : '\x7b' ≠ quote := by
        rcases hquote with rfl | rfl <;> decide
      cases htext with
      | @path quote hquote _ =>
          replace hquote := hbrace hquote
          refine ⟨before ++ (quote :: (path ++ [quote])), behind, by simp, ?_, hblanks hbehind⟩
          simp only [List.mem_append, List.mem_cons, List.not_mem_nil, or_false, not_or]
          exact ⟨hblanks hbefore, hquote, hpath, hquote⟩
      | @parameter quote parameter between before' hquote _ _ hbetween hbefore' =>
          replace hquote := hbrace hquote
          refine ⟨before ++ (quote :: (path ++ quote :: (between ++ ',' :: before'))), behind,
            by simp, ?_, hblanks hbehind⟩
          simp only [List.mem_append, List.mem_cons, not_or]
          exact ⟨hblanks hbefore, hquote, hpath, hquote, hblanks hbetween, by decide,
            hblanks hbefore'⟩
  | @call path parameter filters name text before between behind hname hbefore hbetween hbehind _
      ih =>
      obtain ⟨front, back, rfl, hfront, hback⟩ := ih hpath
      refine ⟨before ++ (name ++ (between ++ '(' :: front)), back ++ ')' :: behind, by simp, ?_, ?_⟩
      · simp only [List.mem_append, List.mem_cons, not_or]
        exact ⟨hblanks hbefore, hname.not_mem (by decide), hblanks hbetween, by decide, hfront⟩
      · simp only [List.mem_append, List.mem_cons, not_or]
        exact ⟨hback, by decide, hblanks hbehind⟩

theorem trimmed_parameter (h : arguments.Writes call) {object : List Char}
    (hobject : arguments.parameter = some object) : Text.Trimmed object := by
  induction h with
  | plain _ _ htext =>
      cases htext with
      | path => cases hobject
      | parameter _ _ hparameter =>
          obtain rfl := Option.some.inj hobject
          exact hparameter
  | call _ _ _ _ _ ih => exact ih hobject

/-- The options of a call are those that its parameter gives, when its path has no brace. -/
theorem options_of_writes {given : Option Data} (h : arguments.Writes call)
    (hpath : '\x7b' ∉ arguments.path) (hgiven : OptionsOf arguments.parameter given) :
    options call = .ok given := by
  obtain ⟨front, back, hcall, hfront, hback⟩ := exists_parameter h hpath
  have htrimmed {object : List Char} (hobject : arguments.parameter = some object) :=
    trimmed_parameter h hobject
  subst hcall
  generalize arguments.parameter = parameter at hgiven htrimmed
  cases hgiven with
  | none =>
      refine options_of_not_mem ?_
      simpa [hfront] using hback
  | object hread => exact options_of_object hfront (htrimmed rfl) hread back

end

/-! ## Calls -/

section

variable {registry : Registry} {library : Library} {f : Functions} {call : List Char}
  {given : Option Data} {names : List String}

theorem firstUnknown?_eq_none (h : ∀ name ∈ names, Entries.hasKey registry (.str name) = true) :
    firstUnknown? registry names = none := by
  refine List.find?_eq_none.mpr fun name hname => ?_
  simp [h name hname]

theorem firstUnknown?_eq_some {before behind : List String} {name : String}
    (hbefore : ∀ other ∈ before, Entries.hasKey registry (.str other) = true)
    (hname : Entries.hasKey registry (.str name) = false) :
    firstUnknown? registry (before ++ name :: behind) = some name := by
  have hfirst : before.find? (fun other => !Entries.hasKey registry (.str other)) = none :=
    firstUnknown?_eq_none hbefore
  rw [firstUnknown?, List.find?_append, hfirst, Option.none_or,
    List.find?_cons_of_pos (by simp [hname])]

/-- A call with names that are all registered is the composition of their filters. -/
theorem outcome_applyCall (hregistry : Registers registry library f) {outer : List String}
    {innermost : String} (hchain : (chain call).map String.ofList = outer ++ [innermost])
    (hoptions : options call = .ok given)
    (hnames : ∀ name ∈ outer ++ [innermost], Entries.hasKey registry (.str name) = true)
    (content : List Char) :
    (applyCall registry call content library).outcome =
      .ok (outer.foldr (fun name text => f name text none) (f innermost content given)) := by
  have hunknown := firstUnknown?_eq_none hnames
  have hsome : (outer ++ [innermost]).isEmpty = false := by simp
  have happly : applyNames registry (outer ++ [innermost]) given content library =
      .ok (outer.foldr (fun name text => f name text none) (f innermost content given)) := by
    rw [applyNames, hunknown]
    simp only [hsome, Bool.false_and, Bool.false_eq_true, if_false, hregistry.lookupAll hnames,
      applyAll_total]
    rfl
  simp only [applyCall, hchain, hoptions, hunknown, hsome, Bool.false_eq_true, if_false]
  exact happly

/-- A call with a name that is not registered is refused, whatever its filters do. -/
theorem applyCall_unknown (hregistry : Registers registry library f) {before behind : List String}
    {name : String} (hchain : (chain call).map String.ofList = before ++ name :: behind)
    (hoptions : options call = .ok given)
    (hbefore : ∀ other ∈ before, Entries.hasKey registry (.str other) = true)
    (hname : Entries.hasKey registry (.str name) = false) (content : List Char) (others : Library) :
    applyCall registry call content others = Run.fail (.unknown name (sortedNames registry)) := by
  have hunknown : firstUnknown? registry (before ++ name :: behind) = some name :=
    firstUnknown?_eq_some hbefore hname
  have hsome : (before ++ name :: behind).isEmpty = false := by simp
  have happly : applyNames registry (before ++ name :: behind) given content others =
      .error (.error (.unknown name (sortedNames registry))) := by
    rw [applyNames, hunknown]
    simp only [hregistry.registeredNames]
    rfl
  simp only [applyCall, hchain, hoptions, hunknown, hsome, Bool.false_eq_true, if_false]
  exact Run.ext rfl happly

end

/-- The filters of a call are composed from right to left, and only the innermost one is given the
object that the call has as its parameter. A call with a name that is not registered is refused for
the leftmost one, whatever the filters do. The path is one without an opening brace. -/
theorem applies_right_to_left {arguments : Include.Arguments} {call : List Char}
    {given : Option Data} {registry : Registry} {library : Library} {f : Functions}
    (hcall : arguments.Writes call) (hpath : '\x7b' ∉ arguments.path)
    (hgiven : OptionsOf arguments.parameter given) (hregistry : Registers registry library f)
    (content : List Char) :
    (∀ outer innermost, arguments.filters.map String.ofList = outer ++ [innermost] →
        (∀ name ∈ outer ++ [innermost], Entries.hasKey registry (.str name) = true) →
        (applyCall registry call content library).outcome =
          .ok (outer.foldr (fun name text => f name text none) (f innermost content given))) ∧
      ∀ before name behind, arguments.filters.map String.ofList = before ++ name :: behind →
        (∀ other ∈ before, Entries.hasKey registry (.str other) = true) →
        Entries.hasKey registry (.str name) = false →
        ∀ others, applyCall registry call content others =
          Run.fail (.unknown name (sortedNames registry)) := by
  have hoptions := options_of_writes hcall hpath hgiven
  rw [← hcall.chain]
  exact ⟨fun outer innermost hchain hnames =>
      outcome_applyCall hregistry hchain hoptions hnames content,
    fun before name behind hchain hbefore hname =>
      applyCall_unknown hregistry hchain hoptions hbefore hname content⟩

/-- A function for each of two names: one puts a text between tags, the other doubles it. -/
def wrapOrDouble : Functions := fun name text options =>
  if name = "wrap" then
    '<' :: TextFilter.tagOf options ++ '>' :: text ++ '<' :: '/' :: TextFilter.tagOf options ++ ['>']
  else text ++ text

/-- The outer one of two filters of one name is given no options, although there are braces in the
text of these. Where that name is missing, the call is refused for its first occurrence. -/
theorem applies_right_to_left_wrapped :
    ∃ call object given,
      call = "wrap(dup( wrap ('p\x7d', \x7b\"tag\":\"b\",\"n\":\"\x7d\x7b\"\x7d)))".toList ∧
      Include.Arguments.Writes
        ⟨"p\x7d".toList, some object, ["wrap".toList, "dup".toList, "wrap".toList]⟩ call ∧
      OptionsOf (some object) (some given) ∧
      (applyCall [(.str "wrap", .scalar (.filter "wrap")), (.str "dup", .scalar (.filter "dup"))]
        call "x".toList).outcome = .ok "<p><b>x</b><b>x</b></p>".toList ∧
      applyCall [(.str "dup", .scalar (.filter "dup"))] call "x".toList =
        Run.fail (.unknown "wrap" ["dup"]) := by
  have hspace : Text.AllBlank " ".toList := by decide
  have hnone : Text.AllBlank [] := List.forall_mem_nil _
  have hwrap : Variable.IsName "wrap".toList := by decide
  have hdup : Variable.IsName "dup".toList := by decide
  have hpasses : Include.Passes "p\x7d".toList
      (some "\x7b\"tag\":\"b\",\"n\":\"\x7d\x7b\"\x7d".toList)
      "'p\x7d', \x7b\"tag\":\"b\",\"n\":\"\x7d\x7b\"\x7d".toList :=
    @Include.Passes.parameter _ '\'' _ [] " ".toList (.inr rfl) (by decide)
      ⟨⟨'\x7b', rfl, by decide⟩, '\x7d', rfl, by decide⟩ hnone hspace
  have hcall := Include.Arguments.Writes.call hwrap hnone hnone hnone
    (.call hdup hnone hnone hnone
      (.call hwrap hspace hspace hnone
        (.plain hnone hnone hpasses)))
  have hgiven := @OptionsOf.object "\x7b\"tag\":\"b\",\"n\":\"\x7d\x7b\"\x7d".toList
    [(.str "tag", .str "b"), (.str "n", .str "\x7d\x7b")] (by cbv)
  have hdoubles : Registers [(.str "dup", .scalar (.filter "dup"))] TextFilter.ofName? wrapOrDouble :=
    List.forall_mem_singleton.mpr ⟨"dup", "dup", rfl, rfl⟩
  have hboth : Registers
      [(.str "wrap", .scalar (.filter "wrap")), (.str "dup", .scalar (.filter "dup"))]
      TextFilter.ofName? wrapOrDouble :=
    List.forall_mem_cons.mpr ⟨⟨"wrap", "wrap", rfl, rfl⟩, hdoubles⟩
  have hsorted : sortedNames [(.str "dup", .scalar (.filter "dup"))] = ["dup"] :=
    List.mergeSort_singleton _
  refine ⟨_, _, _, rfl, hcall, hgiven, ?_, ?_⟩
  · exact (applies_right_to_left hcall (by decide) hgiven hboth "x".toList).1 ["wrap", "dup"] "wrap"
      rfl (by decide)
  · rw [← hsorted]
    exact (applies_right_to_left hcall (by decide) hgiven hdoubles "x".toList).2 [] "wrap"
      ["dup", "wrap"] rfl (List.forall_mem_nil _) rfl TextFilter.ofName?

/-- Functions that tell whether they are given options. -/
def telling : Functions := fun _ text options =>
  text ++ if options.isNone then "|none|".toList else "||".toList

/-- An object in a path, even one without quotes and backslashes, takes the place of the options: the
filter is given it, although the call has no parameter. -/
theorem not_applies_right_to_left :
    Include.Arguments.Writes ⟨"a\x7b\x7d".toList, none, ["opts".toList]⟩
        "opts('a\x7b\x7d')".toList ∧
      (∀ c ∈ ['\'', '"', '\\'], c ∉ "a\x7b\x7d".toList) ∧
      Registers [(.str "opts", .scalar (.filter "opts"))] (fun name => some (total (telling name)))
        telling ∧
      (applyCall [(.str "opts", .scalar (.filter "opts"))] "opts('a\x7b\x7d')".toList "x".toList
        fun name => some (total (telling name))).outcome ≠
          .ok (telling "opts" "x".toList none) := by
  have hnone : Text.AllBlank [] := List.forall_mem_nil _
  have hopts : Variable.IsName "opts".toList := by decide
  have hpath : '\'' ∉ "a\x7b\x7d".toList := by decide
  have hwrites : Include.Arguments.Writes ⟨"a\x7b\x7d".toList, none, ["opts".toList]⟩
      "opts('a\x7b\x7d')".toList :=
    .call hopts hnone hnone hnone (.plain hnone hnone (.path (.inr rfl) hpath))
  have hregistry : Registers [(.str "opts", .scalar (.filter "opts"))]
      (fun name => some (total (telling name))) telling :=
    List.forall_mem_singleton.mpr ⟨"opts", "opts", rfl, rfl⟩
  have hoptions : options "opts('a\x7b\x7d')".toList = .ok (some []) := by cbv
  have hshown : (applyCall [(.str "opts", .scalar (.filter "opts"))] "opts('a\x7b\x7d')".toList
      "x".toList fun name => some (total (telling name))).outcome =
        .ok (telling "opts" "x".toList (some [])) :=
    @outcome_applyCall _ _ _ _ _ hregistry [] "opts" (congrArg _ hwrites.chain) hoptions
      (List.forall_mem_singleton.mpr rfl) _
  refine ⟨hwrites, by simp, hregistry, ?_⟩
  rw [hshown]
  intro heq
  exact absurd (Except.ok.inj heq) (by decide)

end Transclude.Filter
