import Mathlib
import Transclude.Proofs.Blocks
import Transclude.Proofs.Inclusion
import Transclude.Proofs.Parts
import Transclude.Proofs.References

/-! # Passing a parameter

The JSON text of a mapping, written as the parameter of an include, survives all
that is done to arguments: the scan for their closing bracket, the search for the
path, and the reading of the parameter, which gives the mapping back. A name
behind the delimiter gives the value that the data have at it. -/

namespace Transclude

/-! ## The closing bracket -/

namespace Bracket

variable {minds : Bool} {opening closing : Char}

/-- In a string of JSON the scan passes over what a character is written as. -/
theorem closingFrom_escapeChar (depth : Int) (c : Char) (rest : List Char) :
    closingFrom minds opening closing depth (some '"') (Json.escapeChar c ++ rest) =
      (closingFrom minds opening closing depth (some '"') rest).map
        (· + (Json.escapeChar c).length) := by
  rcases Json.escapeChar_cases c with ⟨e, htext, _⟩ | ⟨htext, hcontrol⟩ | ⟨htext, hquote, hslash, _⟩
  · rw [htext]
    exact closingFrom_escape e
  · have hdigits : ∀ n < 0x20, '"' ∉ Text.hexDigits 4 n ∧ '\\' ∉ Text.hexDigits 4 n := by decide
    obtain ⟨hquote, hslash⟩ := hdigits c.toNat hcontrol
    rw [htext, List.cons_append, List.cons_append, closingFrom_escape,
      closingFrom_insideAll hquote hslash, Option.map_map]
    rfl
  · rw [htext]
    exact closingFrom_inside hquote hslash

theorem closingFrom_escaped (depth : Int) (text rest : List Char) :
    closingFrom minds opening closing depth (some '"')
        (text.flatMap Json.escapeChar ++ '"' :: rest) =
      (closingFrom minds opening closing depth none rest).map
        (· + ((text.flatMap Json.escapeChar).length + 1)) := by
  induction text with
  | nil => exact closingFrom_endQuote (by decide)
  | cons c text ih =>
      rw [List.flatMap_cons, List.append_assoc, closingFrom_escapeChar, ih, Option.map_map]
      congr 1
      funext length
      simp only [Function.comp_apply, List.length_append]
      omega

/-- A string of JSON leads back to its depth, whatever stands in it. -/
theorem leads_jsonString (text : List Char) (depth : Nat) :
    Leads true opening closing ('"' :: (text.flatMap Json.escapeChar ++ ['"'])) depth depth := by
  intro base rest
  rw [List.cons_append, List.append_assoc, List.singleton_append, closingFrom_beginQuote rfl,
    closingFrom_escaped, Option.map_map]
  congr 1
  funext length
  simp only [Function.comp_apply, List.length_cons, List.length_append, List.length_nil]
  omega

theorem leads_intercalate {parts : List (List Char)} {depth : Nat}
    (h : ∀ part ∈ parts, Leads true '(' ')' part depth depth) :
    Leads true '(' ')' ([','].intercalate parts) depth depth := by
  have hcomma : Leads true '(' ')' [','] depth depth :=
    .other (fun _ => rfl) (by decide) (by decide) depth
  induction parts with
  | nil => exact .nil depth
  | cons first rest ih =>
      obtain ⟨hfirst, hrest⟩ := List.forall_mem_cons.mp h
      cases rest with
      | nil => rwa [List.intercalate_singleton]
      | cons second rest =>
          rw [List.intercalate_cons_cons]
          exact (hfirst.append hcomma).append (ih hrest)

/-- The text between brackets of JSON leads to where it does without them. -/
theorem Leads.enclosed {first last : Char} {text : List Char} {depth : Nat}
    (h : Leads true '(' ')' text depth depth) (hfirst : Expr.Harmless .round first)
    (hlast : Expr.Harmless .round last) :
    Leads true '(' ')' (first :: text ++ [last]) depth depth := by
  have hfront : Leads true '(' ')' [first] depth depth :=
    .other (fun _ => hfirst.1) hfirst.2.1 hfirst.2.2 depth
  have hback : Leads true '(' ')' [last] depth depth :=
    .other (fun _ => hlast.1) hlast.2.1 hlast.2.2 depth
  exact (hfront.append h).append hback

end Bracket

namespace Value

variable {ι : Type}

theorem harmless_int (n : Int) : ∀ c ∈ (toString n).toList, Expr.Harmless .round c := by
  have hsafe : ∀ c : Char, (c.isDigit || c == '-') = true → Expr.Harmless .round c :=
    fun c h => Expr.harmless_of (p := fun c => c.isDigit || c == '-') (by decide) h
  obtain ⟨m, hm⟩ := Json.toList_toString_int n
  have hdigits : ∀ c ∈ Nat.toDigits 10 m, Expr.Harmless .round c := by
    intro c hc
    refine hsafe c ?_
    rw [Nat.isDigit_of_mem_toDigits (by decide) (by decide) hc]
    rfl
  rcases hm with ⟨_, htext⟩ | ⟨_, htext⟩
  · rwa [htext]
  · rw [htext]
    exact List.forall_mem_cons.mpr ⟨hsafe '-' rfl, hdigits⟩

theorem harmless_word (word : String) (h : word ∈ ["null", "true", "false"]) :
    ∀ c ∈ word.toList, Expr.Harmless .round c := by
  simp only [List.mem_cons, List.not_mem_nil, or_false] at h
  rcases h with rfl | rfl | rfl <;>
    simp [Expr.Harmless, Bracket.isQuote, Bracket.Pair.opening, Bracket.Pair.closing]

/-- The brackets of a call are not confused by a JSON text among its arguments. -/
theorem IsJson.leads {value : Value ι} (h : IsJson value) (depth : Nat) :
    Bracket.Leads true '(' ')' value.written depth depth := by
  induction h with
  | null => exact Expr.leads_of_harmless .round (harmless_word "null" (by simp)) depth
  | bool b =>
      cases b with
      | false => exact Expr.leads_of_harmless .round (harmless_word "false" (by simp)) depth
      | true => exact Expr.leads_of_harmless .round (harmless_word "true" (by simp)) depth
  | int n => exact Expr.leads_of_harmless .round (harmless_int n) depth
  | str s =>
      rw [written_str]
      exact Bracket.leads_jsonString s.toList depth
  | list hitems ih =>
      rw [written_list hitems]
      exact (Bracket.leads_intercalate (List.forall_mem_map.mpr ih)).enclosed (by decide)
        (by decide)
  | map hnames hdistinct hvalues ih =>
      rw [written_map hnames hvalues]
      refine (Bracket.leads_intercalate (List.forall_mem_map.mpr fun entry hmem => ?_)).enclosed
        (by decide) (by decide)
      obtain ⟨key, value⟩ := entry
      obtain ⟨name, rfl⟩ := hnames (key, value) hmem
      have hcolon : Bracket.Leads true '(' ')' [':'] depth depth :=
        .other (fun _ => rfl) (by decide) (by decide) depth
      have hentry : writtenEntry (.str name, value) =
          '"' :: (name.toList.flatMap Json.escapeChar ++ ['"']) ++ [':'] ++ value.written := by
        simp [Json.writtenEntry_str]
      rw [hentry]
      exact ((Bracket.leads_jsonString name.toList depth).append hcolon).append
        (ih (.str name, value) hmem)

end Value

/-! ## The path and the parameter -/

namespace Include

/-- A path and a parameter as arguments. -/
def passing (path parameter : List Char) : List Char := Chunk.quoted path ++ ',' :: ' ' :: parameter

/-- A parameter has no blanks at its ends, and it does not end with a bracket. -/
structure Unwrapped (parameter : List Char) : Prop extends Text.Trimmed parameter where
  bracketless : parameter.getLast? ≠ some ')'

theorem getLast?_passing {parameter : List Char} {last : Char}
    (hlast : parameter.getLast? = some last) (path : List Char) :
    (passing path parameter).getLast? = some last := by
  obtain ⟨front, rfl⟩ := List.getLast?_eq_some_iff.mp hlast
  rw [passing, ← List.cons_append, ← List.cons_append, ← List.append_assoc]
  exact List.getLast?_concat ..

theorem chain_passing {parameter : List Char} (h : Unwrapped parameter) (path : List Char) :
    Filter.chain (passing path parameter) = [] := by
  obtain ⟨last, hlast, hblank⟩ := h.ends
  have hbracket : last ≠ ')' := fun heq => h.bracketless (hlast.trans (congrArg some heq))
  exact Filter.chain_of_last (getLast?_passing hlast path) hblank hbracket

/-- The path and the parameter are read as they were given. -/
theorem parse?_passing {path parameter : List Char} (hpath : '\'' ∉ path)
    (hparameter : Unwrapped parameter) :
    Arguments.parse? (passing path parameter) = some ⟨path, some parameter, []⟩ := by
  have hread : parameter? (',' :: ' ' :: parameter) = some (some parameter) := by
    have hblanks : Text.trim (' ' :: parameter) = Text.trim parameter := by
      rw [Text.trim, Text.trimLeft, List.dropWhile_cons_of_pos (by decide)]
      rfl
    have hcomma : Text.trimLeft (',' :: ' ' :: parameter) = ',' :: ' ' :: parameter :=
      List.dropWhile_cons_of_neg (by decide)
    simp only [parameter?, hcomma, hblanks, hparameter.trim, hparameter.isEmpty, Bool.false_eq_true,
      if_false]
  obtain ⟨last, hlast, hblank⟩ := hparameter.ends
  have hbracket : last ≠ ')' :=
    fun heq => hparameter.bracketless (hlast.trans (congrArg some heq))
  exact parse?_of_parameter hpath hread (getLast?_passing hlast path) hblank hbracket

/-! ## The value of a parameter -/

namespace Parameter

theorem occurs_iff {pattern text : List Char} : occurs pattern text = true ↔ pattern <:+: text := by
  induction text with
  | nil => simp [occurs]
  | cons c text ih =>
      rw [occurs, Bool.or_eq_true, ih, List.isPrefixOf_iff_prefix, List.infix_cons_iff]

variable {ε ι : Type} {tree : FileTree} {delimiters : Delimiters} {data : Data} {base : Path}
  {origin : Option String}

/-- A parameter that is not in quotes is a reference or JSON. -/
theorem resolve_of_unquoted {parameter : List Char} (h : Text.Trimmed parameter)
    (hquoted : quotedPath? parameter = none) :
    (resolve tree delimiters data base origin (some parameter) : Run Warning ε Datum) =
      (if occurs delimiters.opening parameter then reference? delimiters parameter else none).elim
        (fromJson origin parameter) (fromData data origin) := by
  simp only [resolve, Option.getD_some, h.trim, h.isEmpty, hquoted, Bool.false_eq_true, if_false]
  cases if occurs delimiters.opening parameter then reference? delimiters parameter else none <;> rfl

/-- A reference is looked up in the data. -/
theorem resolve_of_reference {parameter path : List Char} (h : Text.Trimmed parameter)
    (hquoted : quotedPath? parameter = none) (hopening : delimiters.opening <:+: parameter)
    (hreference : reference? delimiters parameter = some path) :
    (resolve tree delimiters data base origin (some parameter) : Run Warning ε Datum) =
      fromData data origin path := by
  rw [resolve_of_unquoted h hquoted, if_pos (occurs_iff.mpr hopening), hreference,
    Option.elim_some]

theorem fromData_of_defined {path : List Char} {value : Datum}
    (hvalue : Value.lookupDotted (.map (.ofPlace []) data) path = .ok value)
    (hdefined : value ≠ .undefined) :
    (fromData data origin path : Run Warning ε Datum) = pure value := by
  rw [fromData, hvalue]
  cases value with
  | scalar s =>
      cases s with
      | undefined => exact absurd rfl hdefined
      | _ => rfl
  | _ => rfl

variable {identity : ι} {entries : Entries ι}

theorem unwrapped_written (h : Value.IsJson (.map identity entries)) :
    Unwrapped (Value.written (.map identity entries)) := by
  cases h with
  | map hnames _ hvalues =>
      have hlast : (Value.written (.map identity entries)).getLast? = some '\x7d' := by
        rw [Value.written_map hnames hvalues]
        exact List.getLast?_concat ..
      refine ⟨⟨⟨'\x7b', ?_, by decide⟩, '\x7d', hlast, by decide⟩, by rw [hlast]; decide⟩
      rw [Value.written_map hnames hvalues]
      rfl

/-- A mapping comes back from its JSON text, if no delimiter stands in it. -/
theorem resolve_written (h : Value.IsJson (.map identity entries))
    (hopening : ¬ delimiters.opening <:+: Value.written (.map identity entries)) :
    (resolve tree delimiters data base origin (some (Value.written (.map identity entries))) :
      Run Warning ε Datum) = pure ((Value.content (.map identity entries)).placed []) := by
  have hquoted : quotedPath? (Value.written (.map identity entries)) = none := by
    cases h with
    | map hnames _ hvalues =>
        rw [Value.written_map hnames hvalues]
        rfl
  rw [resolve_of_unquoted (unwrapped_written h).toTrimmed hquoted,
    if_neg (mt occurs_iff.mp hopening), Option.elim_none, fromJson, Json.read_written h]

end Parameter

end Include

/-! ## Calls -/

namespace Include

/-- A call that passes a parameter. -/
def call (name path parameter : List Char) : List Char :=
  '@' :: '@' :: (name ++ '(' :: passing path parameter ++ [')'])

theorem leads_passing {path parameter : List Char} (hquote : '\'' ∉ path) (hslash : '\\' ∉ path)
    (hparameter : Bracket.Leads true '(' ')' parameter 0 0) :
    Bracket.Leads true '(' ')' (passing path parameter) 0 0 := by
  have hcomma : Bracket.Leads true '(' ')' [',', ' '] 0 0 :=
    Expr.leads_of_harmless .round (by simp [Expr.Harmless, Bracket.isQuote, Bracket.Pair.opening,
      Bracket.Pair.closing]) 0
  exact (Directive.leads_quoted hquote hslash 0).append (hcomma.append hparameter)

/-- A call is complete with its path and its parameter when the brackets of the parameter are
closed. -/
theorem complete_passing {name path parameter : List Char} (hne : name ≠ [])
    (hspace : name.head? ≠ some ' ') (hquote : '\'' ∉ path) (hslash : '\\' ∉ path)
    (hparameter : Bracket.Leads true '(' ')' parameter 0 0) (rest : List Char) :
    Directive.Complete .standard name .call (call name path parameter) (passing path parameter) []
      rest :=
  Directive.complete_of_leads hne hspace (leads_passing hquote hslash hparameter) rest

/-- A call is silent to the scan for another name when its arguments are. -/
theorem silent_call {name other path parameter rest : List Char} (hname : '@' ∉ name)
    (hspace : ∃ c more, name = c :: more ∧ c ≠ ' ')
    (hother : ∀ behind, Directive.nameEnds other (name ++ '(' :: behind) = false)
    (hpath : '@' ∉ path)
    (hparameter : Directive.Silent .standard other parameter (')' :: rest)) :
    Directive.Silent .standard other (call name path parameter) rest := by
  have hsplit : call name path parameter =
      ('@' :: '@' :: name) ++ ('(' :: Chunk.quoted path ++ [',', ' '] ++ (parameter ++ [')'])) := by
    simp [call, passing]
  have hquoted : '@' ∉ '(' :: Chunk.quoted path ++ [',', ' '] := by simpa [Chunk.quoted] using hpath
  rw [hsplit]
  refine Everywhere.append (Directive.silent_reference hname hspace ?_)
    (Everywhere.append (Directive.silent_of_plain hquoted _)
      (Everywhere.append hparameter (Directive.silent_of_plain (by decide) rest)))
  rw [List.append_assoc, List.append_assoc, List.cons_append]
  exact hother _

/-- A call is no variable unless the data have its name, and its parameter may be kept. -/
theorem kept_call {data : Data} {name path parameter rest : List Char}
    (hname : Variable.IsName name)
    (hdata : Entries.hasKey data (.str (String.ofList name)) = false) (hpath : '@' ∉ path)
    (hparameter : Variable.Kept data parameter (')' :: rest)) :
    Variable.Kept data (call name path parameter) rest := by
  have hsplit : call name path parameter = ('@' :: '@' :: Variable.dotted [name]) ++
      ('(' :: Chunk.quoted path ++ [',', ' '] ++ (parameter ++ [')'])) := by
    simp [call, passing]
  have hquoted : '@' ∉ '(' :: Chunk.quoted path ++ [',', ' '] := by
    simpa [Chunk.quoted] using hpath
  have hnames : ∀ other ∈ [name], Variable.IsName other := List.forall_mem_singleton.mpr hname
  have hkept : Variable.outcome data (Variable.dotted [name]) = .ok .kept := by
    rw [Entries.hasKey_eq_isSome, Option.isSome_eq_false_iff, Option.isNone_iff_eq_none] at hdata
    rw [Variable.outcome_dotted hnames (List.cons_ne_nil name [])]
    simp [Variable.ofNames, hdata]
  rw [hsplit]
  refine Variable.Kept.append (.of_dotted hnames (List.cons_ne_nil name []) ?_ hkept)
    (Variable.Kept.append (.of_plain hquoted)
      (Variable.Kept.append hparameter (.of_plain (by decide))))
  rintro c ⟨⟩
  decide

/-! ## Mappings -/

/-- A path and a parameter are the arguments of the first call of a text that begins with it. -/
theorem first_call_passing (delimiters : Delimiters) (name : List Char)
    {path parameter : List Char} (hne : name ≠ []) (hspace : name.head? ≠ some ' ')
    (hquote : '\'' ∉ path) (hslash : '\\' ∉ path)
    (hparameter : Bracket.Leads true '(' ')' parameter 0 0) (rest : List Char) :
    ∃ found, (Directive.all delimiters name .call (delimiters.opening ++
        Directive.callText name (passing path parameter) ++ rest)).head? = some found ∧
      found.start = 0 ∧ found.args = passing path parameter := by
  have hargs : Bracket.Leads true '(' ')' (passing path parameter) 0 0 :=
    leads_passing hquote hslash hparameter
  obtain ⟨hhead, htail⟩ := Directive.reads_callText delimiters hne hspace hargs rest
  obtain ⟨found, hfound, hstart, hargs, _⟩ :=
    Directive.head?_all (by simp [Directive.callText, hne]) hhead htail
  exact ⟨found, hfound, hstart, hargs⟩

/-- A mapping has a text, and when that is written into an include as its parameter the mapping comes
back: unless the opening delimiter stands in the text, and whatever follows the include, it is the
first one of its text, its arguments are the path and the text of the mapping without filters, and
the text is read as what the mapping holds, its entries in their order, without complaint. -/
theorem mapping_comes_back {ε ι : Type} (tree : FileTree) (delimiters : Delimiters) (data : Data)
    (base : Path) (origin : Option String) {identity : ι} {entries : Entries ι} {path : List Char}
    (hjson : Value.IsJson (.map identity entries)) (hquote : '\'' ∉ path) (hslash : '\\' ∉ path)
    (hopening : ∀ text, (Value.map identity entries).toText = .ok text →
      ¬ delimiters.opening <:+: text.toList) (rest : List Char) :
    ∃ text, (Value.map identity entries).toText = .ok text ∧
      ∃ found, (Directive.all delimiters "include".toList .call (delimiters.opening ++
          Directive.callText "include".toList (passing path text.toList) ++ rest)).head? =
            some found ∧ found.start = 0 ∧
        Arguments.parse? found.args = some ⟨path, some text.toList, []⟩ ∧
        ∃ value, (Parameter.resolve tree delimiters data base origin (some text.toList) :
            Run Warning ε Datum) = pure value ∧
          value.content = (Value.map identity entries).content := by
  obtain ⟨text, htext, hwritten⟩ : ∃ text, (Value.map identity entries).toText = .ok text ∧
      text.toList = (Value.map identity entries).written :=
    ⟨_, by rw [Value.toText, hjson.toJson_eq], String.toList_ofList⟩
  have hfree := hopening text htext
  have hleads := hjson.leads 0
  refine ⟨text, htext, ?_⟩
  rw [hwritten] at hfree ⊢
  obtain ⟨found, hfound, hstart, hargs⟩ := first_call_passing delimiters
    "include".toList (by decide) (by decide) hquote hslash hleads rest
  refine ⟨found, hfound, hstart, ?_, _, Parameter.resolve_written hjson hfree, ?_⟩
  · rw [hargs]
    exact parse?_passing hquote (Parameter.unwrapped_written hjson)
  · have hcontent : (Value.map identity entries).content.IsJson := hjson.mapIdentity _
    rw [hcontent.content_placed []]
    exact Value.mapIdentity_mapIdentity _ _ _

/-- A mapping with brackets, quotes of each kind, a backslash and a line end in its texts. -/
def bracketed : Content :=
  .map () [(.str "a)'\"", .list () [.str "\\`\n(@", .number (.int (-30)), .null])]

/-- What could end a parameter early stands in the texts of the mapping, and a sign of the opening
delimiter too. -/
theorem mapping_comes_back_bracketed :
    ∃ text, bracketed.toText = .ok text ∧
      ∃ found, (Directive.all ⟨"@@".toList, "%>".toList⟩ "include".toList .call ("@@".toList ++
          Directive.callText "include".toList (passing "n(\".html".toList text.toList) ++
            ") @@".toList)).head? = some found ∧ found.start = 0 ∧
        Arguments.parse? found.args = some ⟨"n(\".html".toList, some text.toList, []⟩ ∧
        ∃ value, (Parameter.resolve (FileTree.empty [] []) ⟨"@@".toList, "%>".toList⟩ []
            (Path.ofChars "/site".toList) none (some text.toList) : Run Warning Error Datum) =
              pure value ∧ value.content = bracketed.content := by
  have hjson : bracketed.IsJson := by
    refine .map (by simp) (by simp) (List.forall_mem_singleton.mpr (.list ?_))
    simp only [List.forall_mem_cons]
    exact ⟨.str _, .int _, .null, List.forall_mem_nil _⟩
  have htext : bracketed.toText = .ok "\x7b\"a)'\\\"\":[\"\\\\`\\n(@\",-30,null]\x7d" := by cbv
  refine mapping_comes_back (FileTree.empty [] []) ⟨"@@".toList, "%>".toList⟩ []
    (Path.ofChars "/site".toList) none hjson (by decide) (by decide) (fun text h => ?_)
    ") @@".toList
  obtain rfl := Except.ok.inj (htext.symm.trans h)
  decide

end Include

end Transclude
