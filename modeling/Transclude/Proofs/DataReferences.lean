import Mathlib
import Transclude.Proofs.Passing
import Transclude.Proofs.Replacement

/-! # References to data

A parameter that is a dotted path between the delimiters gives the value to which the
path leads when the data have its first name and every segment behind it leads on.
Otherwise it counts as null and is complained about by its path. One path of ASCII
characters is an exception: the lookup begins in the data as a whole, which has a
length like every mapping, so that `length` is found without being a name. -/

namespace Transclude

/-! ## Plain paths -/

theorem Text.trimmed_of_forall {text : List Char} (hne : text ≠ [])
    (h : ∀ c ∈ text, isBlank c = false) : Trimmed text where
  begins := ⟨text.head hne, List.head?_eq_some_head hne, h _ (List.head_mem hne)⟩
  ends := ⟨text.getLast hne, List.getLast?_eq_some_getLast hne, h _ (List.getLast_mem hne)⟩

namespace Variable

/-- A path of ASCII characters: letters, digits, `_` and `$`. -/
structure IsPlainPath (names : List (List Char)) : Prop where
  path : IsPath names
  ascii : ∀ name ∈ names, ∀ c ∈ name, c.toNat < 128

/-- No ASCII character of a name is blank, and none is a digit without a place in decimal notation. -/
theorem plain_of_ascii {c : Char} (hascii : c.toNat < 128) :
    (Text.isIdentifierPart c = true → Text.isBlank c = false) ∧
      Text.bareDigitRanges.contains c = false := by
  have hall : ∀ n < 128,
      (Text.isIdentifierPart (Char.ofNat n) = true → Text.isBlank (Char.ofNat n) = false) ∧
        Text.bareDigitRanges.contains (Char.ofNat n) = false := by decide
  rw [← Char.ofNat_toNat c]
  exact hall c.toNat hascii

variable {names : List (List Char)}

theorem IsPath.all_part (h : IsPath names) :
    ∀ name ∈ names, ∀ c ∈ name, Text.isIdentifierPart c = true := by
  cases names with
  | nil => exact nofun
  | cons name segments =>
      exact List.forall_mem_cons.mpr ⟨h.1.all_part, fun segment hsegment => (h.2 segment hsegment).2⟩

theorem IsPath.segment_ne_nil (h : IsPath names) : ∀ name ∈ names, name ≠ [] := by
  cases names with
  | nil => exact nofun
  | cons name segments =>
      exact List.forall_mem_cons.mpr ⟨h.1.ne_nil, fun segment hsegment => (h.2 segment hsegment).1⟩

namespace IsPlainPath

theorem not_blank (h : IsPlainPath names) : ∀ c ∈ dotted names, Text.isBlank c = false := by
  have hnames : ∀ name ∈ names, ∀ c ∈ name, Text.isBlank c = false := fun name hname c hc =>
    (plain_of_ascii (h.ascii name hname c hc)).1 (h.path.all_part name hname c hc)
  cases names with
  | nil => exact h.path.elim
  | cons name segments =>
      obtain ⟨hname, hsegments⟩ := List.forall_mem_cons.mp hnames
      intro c hc
      rw [dotted_cons, List.mem_append, pointed, List.mem_flatMap] at hc
      obtain hc | ⟨segment, hsegment, hc⟩ := hc
      · exact hname c hc
      · obtain rfl | hc := List.mem_cons.mp hc
        · decide
        · exact hsegments segment hsegment c hc

theorem ne_nil (h : IsPlainPath names) : names ≠ [] := by
  rintro rfl
  exact h.path

theorem trimmed (h : IsPlainPath names) : Text.Trimmed (dotted names) := by
  obtain ⟨front, last, heq, _⟩ := h.path.exists_last
  exact Text.trimmed_of_forall (by simp [heq]) h.not_blank

theorem dottedSegments (h : IsPlainPath names) :
    Value.dottedSegments (dotted names) = names.map String.ofList := by
  rw [Value.dottedSegments, h.trimmed.trim, h.path.splitOn_dotted, ← List.filterMap_eq_map]
  refine List.filterMap_congr fun name hname => ?_
  rw [if_neg (by simpa using h.path.segment_ne_nil name hname)]
  rfl

/-- A plain path has no segment that a sequence would refuse. -/
theorem not_blocked (h : IsPlainPath names) (data : Data) :
    ¬ (root data).Blocked (names.map String.ofList) := by
  rintro ⟨front, segment, back, inner, hpath, _, _, hdigits⟩
  have hsegment : segment ∈ names.map String.ofList := by simp [hpath]
  obtain ⟨name, hname, rfl⟩ := List.mem_map.mp hsegment
  rw [String.toList_ofList] at hdigits
  obtain ⟨c, hc, hbare⟩ := hdigits.bare
  have hdigit := hdigits.digits c hc
  rw [Text.isDigitLike, hbare, (plain_of_ascii (h.ascii name hname c hc)).2] at hdigit
  cases hdigit

end IsPlainPath

/-- What is found in the data under a first name that they do not have is their length. -/
theorem eq_length_of_leads {data : Data} {value : Datum}
    (hleads : Value.Leads (root data) (names.map String.ofList) value) (hne : names ≠ [])
    (hunknown : ¬ Known data names) :
    names = ["length".toList] ∧ value = .number (.int data.length) := by
  cases names with
  | nil => exact (hne rfl).elim
  | cons name segments =>
      rw [List.map_cons] at hleads
      generalize hfirst : String.ofList name = first at hleads
      cases hleads with
      | step hproperty _ hrest =>
          cases hproperty with
          | entry hentry =>
              refine (hunknown ⟨name, rfl, ?_⟩).elim
              rw [Entries.hasKey_eq_isSome, hfirst, hentry]
              rfl
          | item hitems => cases hitems
          | length hitems => cases hitems
          | size hentry =>
              obtain rfl : name = "length".toList := by rw [← hfirst, String.toList_ofList]
              -- a number has nothing under a further segment
              generalize hothers : segments.map String.ofList = others at hrest
              cases hrest with
              | here =>
                  rw [List.map_eq_nil_iff.mp hothers]
                  exact ⟨rfl, rfl⟩
              | step hbehind =>
                  cases hbehind with
                  | item hitems => cases hitems
                  | length hitems => cases hitems

end Variable

namespace Include.Parameter

open Variable Value

/-! ## The lookup -/

/-- The parameter that refers to a path. -/
def referring (delimiters : Delimiters) (names : List (List Char)) : List Char :=
  delimiters.opening ++ dotted names ++ delimiters.closing

/-- Delimiters of a parameter: the first is not empty, and neither has blanks or quotes. -/
structure IsTight (delimiters : Delimiters) : Prop where
  nonempty : delimiters.opening ≠ []
  plain : ∀ c ∈ delimiters.opening ++ delimiters.closing,
    Text.isBlank c = false ∧ c ≠ '\'' ∧ c ≠ '"'

variable {ε : Type} {tree : FileTree} {delimiters : Delimiters} {data : Data} {base : Path}
  {origin : Option String} {names : List (List Char)}

theorem reference?_referring (delimiters : Delimiters) (h : IsPlainPath names) :
    reference? delimiters (referring delimiters names) = some (dotted names) := by
  have hlength : (referring delimiters names).length -
      (delimiters.opening.length + delimiters.closing.length) = (dotted names).length := by
    simp only [referring, List.length_append]
    omega
  have hpath : ((referring delimiters names).drop delimiters.opening.length).take
      (dotted names).length = dotted names := by
    rw [referring, List.append_assoc, List.drop_left, List.take_left]
  have hwhole : pathLength (dotted names) = (dotted names).length := by
    have hread : pathLength (dotted names ++ []) = (dotted names).length :=
      pathLength_dotted h.path nofun
    rwa [List.append_nil] at hread
  unfold reference?
  rw [if_pos, hlength, hpath, h.trimmed.trim]
  · simp [h.trimmed.isEmpty, hwhole]
  · simp only [Bool.and_eq_true, decide_eq_true_eq, List.isPrefixOf_iff_prefix,
      List.isSuffixOf_iff_suffix]
    refine ⟨⟨?_, ?_⟩, List.suffix_append _ _⟩
    · simp only [referring, List.length_append]
      omega
    · rw [referring, List.append_assoc]
      exact List.prefix_append _ _

/-- A reference between tight delimiters is looked up in the data. -/
theorem resolve_referring (hdelimiters : IsTight delimiters) (h : IsPlainPath names) :
    (resolve tree delimiters data base origin (some (referring delimiters names)) :
      Run Warning ε Datum) = fromData data origin (dotted names) := by
  obtain ⟨first, more, hfirst⟩ := List.exists_cons_of_ne_nil hdelimiters.nonempty
  have htrimmed : Text.Trimmed (referring delimiters names) := by
    refine Text.trimmed_of_forall (by simp [referring, hfirst]) fun c hc => ?_
    simp only [referring, List.mem_append] at hc
    obtain (hc | hc) | hc := hc
    · exact (hdelimiters.plain c (List.mem_append_left _ hc)).1
    · exact h.not_blank c hc
    · exact (hdelimiters.plain c (List.mem_append_right _ hc)).1
  have hquoted : quotedPath? (referring delimiters names) = none := by
    obtain ⟨_, hsingle, hdouble⟩ := hdelimiters.plain first (by simp [hfirst])
    rw [referring, hfirst]
    simp [quotedPath?, hsingle, hdouble]
  have hopening : delimiters.opening <:+: referring delimiters names := by
    rw [referring, List.append_assoc]
    exact (List.prefix_append _ _).isInfix
  exact resolve_of_reference htrimmed hquoted hopening (reference?_referring delimiters h)

theorem fromData_of_leads (h : IsPlainPath names) {value : Datum}
    (hleads : Leads (root data) (names.map String.ofList) value) :
    (fromData data origin (dotted names) : Run Warning ε Datum) = pure value := by
  refine fromData_of_defined ?_ (hleads.ne_undefined nofun)
  rw [lookupDotted, h.dottedSegments]
  exact hleads.lookupPath

theorem fromData_of_not_leads (h : IsPlainPath names)
    (hmissing : ¬ ∃ value, Leads (root data) (names.map String.ofList) value) :
    (fromData data origin (dotted names) : Run Warning ε Datum) =
      complain origin (.missingProperty (String.ofList (dotted names))) := by
  have hbreaks : (root data).BreaksOff (names.map String.ofList) := by
    obtain hleads | hbreaks | hblocked := path_cases (root data) (names.map String.ofList)
    · exact (hmissing hleads).elim
    · exact hbreaks
    · exact (h.not_blocked data hblocked).elim
  have hlookup : lookupDotted (.map (.ofPlace []) data) (dotted names) = .ok .undefined := by
    rw [lookupDotted, h.dottedSegments]
    exact hbreaks.lookupPath
  rw [fromData, hlookup]
  rfl

/-- A reference gives the value to which its path leads, without a warning, when the data have its
first name. When they do not, or the path leads nowhere, it gives null and writes down one warning,
which names the path; only the path `length` gives the length of data without that name. -/
theorem resolved_or_reported (tree : FileTree) (data : Data) (base : Path) (origin : Option String)
    (hdelimiters : IsTight delimiters) (hnames : IsPlainPath names) :
    (∀ value, Known data names → Leads (root data) (names.map String.ofList) value →
      (resolve tree delimiters data base origin (some (referring delimiters names)) :
        Run Warning ε Datum) = pure value) ∧
    (¬ (Known data names ∧ ∃ value, Leads (root data) (names.map String.ofList) value) →
      (names = ["length".toList] → Known data names) →
      (resolve tree delimiters data base origin (some (referring delimiters names)) :
        Run Warning ε Datum) =
          ⟨[.warning ⟨.missingProperty (String.ofList (dotted names)), origin⟩], .ok .null⟩) ∧
    (names = ["length".toList] → ¬ Known data names →
      (resolve tree delimiters data base origin (some (referring delimiters names)) :
        Run Warning ε Datum) = pure (.number (.int data.length))) := by
  rw [resolve_referring hdelimiters hnames]
  refine ⟨fun value _ hleads => fromData_of_leads hnames hleads, fun hnot hlength => ?_, ?_⟩
  · refine fromData_of_not_leads hnames ?_
    rintro ⟨value, hleads⟩
    by_cases hknown : Known data names
    · exact hnot ⟨hknown, value, hleads⟩
    · exact hknown (hlength (eq_length_of_leads hleads hnames.ne_nil hknown).1)
  · rintro rfl hunknown
    have hentry : Entries.get? data (.str "length") = none := by
      rw [← Option.not_isSome_iff_eq_none, ← Entries.hasKey_eq_isSome]
      exact fun hkey => hunknown ⟨"length".toList, rfl, by rwa [String.ofList_toList]⟩
    exact fromData_of_leads hnames (.step (.size hentry) nofun (.here _))

/-- An entry of an item of a list is found, and nothing behind `null`. -/
theorem resolved_or_reported_site :
    let delimiters : Delimiters := ⟨"<%=".toList, "%>".toList⟩
    let data : Data := [(.str "site", .map (.ofPlace []) [
      (.str "links", .list (.ofPlace [1]) [.map (.ofPlace [0]) [(.str "href", .str "/")]]),
      (.str "owner", .null)])]
    let link := ["site".toList, "links".toList, "0".toList, "href".toList]
    let owner := ["site".toList, "owner".toList, "name".toList]
    (IsTight delimiters ∧ IsPlainPath link ∧ IsPlainPath owner ∧ Known data link ∧
      Leads (root data) (link.map String.ofList) (.str "/") ∧
      ¬ ∃ value, Leads (root data) (owner.map String.ofList) value) ∧
    (resolve (FileTree.empty [] []) delimiters data (Path.ofChars "/site".toList)
        (some "index.html") (some "<%=site.links.0.href%>".toList) : Run Warning Error Datum) =
      pure (.str "/") ∧
    (resolve (FileTree.empty [] []) delimiters data (Path.ofChars "/site".toList)
        (some "index.html") (some "<%=site.owner.name%>".toList) : Run Warning Error Datum) =
      ⟨[.warning ⟨.missingProperty "site.owner.name", some "index.html"⟩], .ok .null⟩ := by
  intro delimiters data link owner
  have hdelimiters : IsTight delimiters :=
    ⟨by decide, by simp [delimiters, Text.isBlank, Text.blankRanges, Text.Ranges.contains]⟩
  have hname : IsName "site".toList := by decide
  have hsegment {segment : List Char} (hne : segment ≠ [])
      (hall : segment.all Text.isIdentifierPart = true) : IsSegment segment :=
    ⟨hne, List.all_eq_true.mp hall⟩
  have hlink : IsPlainPath link := by
    refine ⟨⟨hname, ?_⟩, by simp [link]⟩
    simp only [List.forall_mem_cons]
    exact ⟨hsegment (by decide) (by decide), hsegment (by decide) (by decide),
      hsegment (by decide) (by decide), List.forall_mem_nil _⟩
  have howner : IsPlainPath owner := by
    refine ⟨⟨hname, ?_⟩, by simp [owner]⟩
    simp only [List.forall_mem_cons]
    exact ⟨hsegment (by decide) (by decide), hsegment (by decide) (by decide),
      List.forall_mem_nil _⟩
  have hknown : Known data link := ⟨"site".toList, rfl, by decide⟩
  have hleads : Leads (root data) (link.map String.ofList) (.str "/") :=
    leads_of_lookupPath rfl (by simp)
  have hlookup : (root data).lookupPath (owner.map String.ofList) = .ok .undefined := rfl
  have hmissing : ¬ ∃ value, Leads (root data) (owner.map String.ofList) value := by
    rintro ⟨value, h⟩
    exact h.ne_undefined (by simp [root]) (Except.ok.inj (h.lookupPath.symm.trans hlookup))
  refine ⟨⟨hdelimiters, hlink, howner, hknown, hleads, hmissing⟩, ?_, ?_⟩
  · exact (resolved_or_reported _ data _ _ hdelimiters hlink).1 _ hknown hleads
  · exact (resolved_or_reported _ data _ _ hdelimiters howner).2.1 (fun h => hmissing h.2)
      fun h => by simp [owner] at h

/-- The length of the data is found under a name that they do not have. -/
theorem not_resolved_or_reported :
    ¬ ∀ (delimiters : Delimiters) (data : Data) (names : List (List Char)),
      IsTight delimiters → IsPlainPath names → ¬ Known data names →
      (resolve (FileTree.empty [] []) delimiters data (Path.ofChars "/site".toList) none
          (some (referring delimiters names)) : Run Warning Error Datum) =
        ⟨[.warning ⟨.missingProperty (String.ofList (dotted names)), none⟩], .ok .null⟩ := by
  intro h
  have hname : IsName "length".toList := by decide
  have hdelimiters : IsTight .standard :=
    ⟨by decide, by simp [Delimiters.standard, Text.isBlank, Text.blankRanges, Text.Ranges.contains]⟩
  have hnames : IsPlainPath ["length".toList] := ⟨⟨hname, List.forall_mem_nil _⟩, by simp⟩
  have hreported := h .standard [] ["length".toList] hdelimiters hnames
    (by simp [Known, Entries.hasKey])
  rw [resolve_referring hdelimiters hnames,
    fromData_of_leads hnames (.step (.size rfl) (by simp) (.here _))] at hreported
  cases congrArg Run.warnings hreported

end Include.Parameter

end Transclude
