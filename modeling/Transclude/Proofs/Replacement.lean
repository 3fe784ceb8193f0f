import Mathlib
import Transclude.Proofs.Operations
import Transclude.Proofs.References
import Transclude.Proofs.Variables

/-! # What variables are replaced by

A path leads through a value segment by segment: to the entry of a mapping, to the
item at a position of a sequence, or to the length of either. Where a segment is
missing the path breaks off, and a sequence refuses a text of digits that is no
number. By this it is decided what becomes of each variable of a text; the
characters between the variables stay, and what is put in is not searched again. -/

namespace Transclude

/-- A result is known from when it is a value, when it is an error, and that there is nothing
else. -/
theorem except_iff_of_cases {ε α : Type} {result : Except ε α} {gives : α → Prop} {fails : Prop}
    {only : ε} (hgives : ∀ a, gives a → result = .ok a) (hfails : fails → result = .error only)
    (hcases : (∃ a, gives a) ∨ fails) :
    (∀ a, result = .ok a ↔ gives a) ∧ ∀ reason, result = .error reason ↔ reason = only ∧ fails := by
  obtain ⟨value, hvalue⟩ | hfail := hcases
  · rw [hgives value hvalue]
    have hnot : ¬ fails := fun hfail => by cases (hgives value hvalue).symm.trans (hfails hfail)
    refine ⟨fun a => ⟨fun h => ?_, fun h => ?_⟩, fun reason => ⟨nofun, fun h => (hnot h.2).elim⟩⟩
    · cases h
      exact hvalue
    · exact (hgives value hvalue).symm.trans (hgives a h)
  · rw [hfails hfail]
    refine ⟨fun a => ⟨nofun, fun h => ?_⟩, fun reason => ⟨fun h => ?_, fun h => ?_⟩⟩
    · exact (hfails hfail).symm.trans (hgives a h)
    · cases h
      exact ⟨rfl, hfail⟩
    · rw [h.1]

namespace Value

variable {ι : Type}

/-! ## Segments -/

/-- What a value has under a segment. -/
inductive Has : Value ι → String → Value ι → Prop
  | entry {identity : ι} {entries : Entries ι} {segment : String} {property : Value ι}
    (hentry : Entries.get? entries (.str segment) = some property) :
    Has (.map identity entries) segment property
  | size {identity : ι} {entries : Entries ι}
    (hentry : Entries.get? entries (.str "length") = none) :
    Has (.map identity entries) "length" (.number (.int entries.length))
  | item {value property : Value ι} {items : List (Value ι)} {segment : String} {place : Nat}
    (hitems : value.items? = some items) (hsegment : segment ≠ "")
    (hplace : Text.decimalNumber? segment.toList = some place)
    (hitem : items[place]? = some property) : Has value segment property
  | length {value : Value ι} {items : List (Value ι)} (hitems : value.items? = some items) :
    Has value "length" (.number (.int items.length))

/-- A sequence refuses digits that are no number. -/
def Refuses (value : Value ι) (segment : String) : Prop :=
  value.IsSequence ∧ BareDigits segment.toList

/-- The value has nothing under a segment that it does not refuse. -/
def Misses (value : Value ι) (segment : String) : Prop :=
  ¬ value.Refuses segment ∧ ∀ property, Has value segment property → property = .undefined

/-- A number in decimal notation is the position that its text stands for. -/
theorem position?_of_decimalNumber? {segment : String} {place : Nat} (hsegment : segment ≠ "")
    (hplace : Text.decimalNumber? segment.toList = some place) :
    position? (.str segment : Value ι) = .ok (some place) := by
  have hdigits : ¬ ∃ c ∈ segment.toList, Text.isDecimalDigit c = false := by
    rw [← decimalNumber?_eq_none_iff, hplace]
    exact nofun
  have hempty : segment.toList ≠ [] := fun h => hsegment (String.toList_injective h)
  rw [position?, hplace, if_neg]
  rw [Bool.or_eq_true, List.isEmpty_iff, Bool.not_eq_true', not_or, Bool.not_eq_false,
    List.all_eq_true]
  refine ⟨hempty, fun c hc => ?_⟩
  rw [Text.isDigitLike, Bool.eq_true_of_not_eq_false fun h => hdigits ⟨c, hc, h⟩, Bool.true_or]

theorem Has.getProperty {value property : Value ι} {segment : String}
    (h : Has value segment property) : value.getProperty (.str segment) = .ok property := by
  cases h with
  | entry hentry => rw [Value.getProperty, entryProperty_name, hentry]; rfl
  | size hentry => rw [Value.getProperty, entryProperty_name, hentry]; rfl
  | length hitems => rw [getProperty_of_items? hitems]; rfl
  | item hitems hsegment hplace hitem =>
      have hlength : (.str segment : Value ι) ≠ .str "length" := by
        intro heq
        cases heq
        cases hplace
      rw [getProperty_of_items? hitems,
        itemProperty_eq_itemAt hlength (position?_of_decimalNumber? hsegment hplace)]
      simp [itemAt, hitem]

/-- A value has something under a segment, or misses it, or refuses it. -/
theorem segment_cases (value : Value ι) (segment : String) :
    (∃ property, property ≠ .undefined ∧ Has value segment property) ∨
      value.Misses segment ∨ value.Refuses segment := by
  by_cases hrefuses : value.Refuses segment
  · exact Or.inr (Or.inr hrefuses)
  · by_cases hhas : ∃ property, property ≠ .undefined ∧ Has value segment property
    · exact Or.inl hhas
    · refine Or.inr (Or.inl ⟨hrefuses, fun property hproperty => ?_⟩)
      by_contra hpresent
      exact hhas ⟨property, hpresent, hproperty⟩

/-- A text that stands for a position is a number in decimal notation. -/
theorem exists_of_position? {segment : String} {position : Int}
    (h : position? (.str segment : Value ι) = .ok (some position)) :
    ∃ place : Nat, position = place ∧ segment ≠ "" ∧
      Text.decimalNumber? segment.toList = some place := by
  rw [position?] at h
  split at h
  next => cases h
  next hdigits =>
    rw [Bool.or_eq_true, not_or, List.isEmpty_iff] at hdigits
    split at h
    next place hplace =>
      cases h
      exact ⟨place, rfl, fun hempty => hdigits.1 (by rw [hempty]; rfl), hplace⟩
    next => cases h

theorem has_of_itemProperty {value property : Value ι} {items : List (Value ι)} {segment : String}
    (hitems : value.items? = some items) (h : itemProperty items (.str segment) = .ok property)
    (hpresent : property ≠ .undefined) : Has value segment property := by
  by_cases hlength : segment = "length"
  · subst hlength
    cases h
    exact .length hitems
  · have hkey : (.str segment : Value ι) ≠ .str "length" := by simpa using hlength
    cases hposition : position? (.str segment : Value ι) with
    | error kind =>
        rw [itemProperty_of_ne hkey, hposition] at h
        cases h
    | ok position =>
        rw [itemProperty_eq_itemAt hkey hposition] at h
        obtain rfl : itemAt items position = property := Except.ok.inj h
        cases position with
        | none => exact (hpresent rfl).elim
        | some position =>
            obtain ⟨place, rfl, hsegment, hplace⟩ := exists_of_position? hposition
            have hitem : itemAt items (some (place : Int)) = (items[place]?).getD .undefined := by
              simp [itemAt]
            rw [hitem] at hpresent ⊢
            cases hfound : items[place]? with
            | none => rw [hfound] at hpresent; exact (hpresent rfl).elim
            | some item => exact .item hitems hsegment hplace hfound

theorem has_of_entryProperty {identity : ι} {entries : Entries ι} {property : Value ι}
    {segment : String} (h : entryProperty entries (.str segment) = .ok property)
    (hpresent : property ≠ .undefined) : Has (.map identity entries) segment property := by
  rw [entryProperty_name] at h
  cases hentry : Entries.get? entries (.str segment) with
  | some found =>
      rw [hentry] at h
      cases h
      exact .entry hentry
  | none =>
      rw [hentry, Option.getD_none, lengthNamed] at h
      split at h
      next hlength =>
        cases h
        subst hlength
        exact .size hentry
      next =>
        cases h
        exact (hpresent rfl).elim

/-- What a segment is found to give is what the value has under it. -/
theorem has_of_getProperty {value property : Value ι} {segment : String}
    (h : value.getProperty (.str segment) = .ok property) (hpresent : property ≠ .undefined) :
    Has value segment property := by
  cases hitems : value.items? with
  | some items =>
      rw [getProperty_of_items? hitems] at h
      exact has_of_itemProperty hitems h hpresent
  | none =>
      cases hmap : value.isMap with
      | true =>
          cases value with
          | map identity entries => exact has_of_entryProperty h hpresent
          | _ => cases hmap
      | false =>
          rw [getProperty_of_items?_eq_none hitems hmap] at h
          cases h
          exact (hpresent rfl).elim

/-- A segment has no answer where it is refused. -/
theorem getProperty_str_eq_error_iff (value : Value ι) (segment : String) (kind : Fault) :
    value.getProperty (.str segment) = .error kind ↔ kind = .badValue ∧ value.Refuses segment := by
  rw [getProperty_eq_error_iff]
  constructor
  · rintro (⟨_, _, hkey⟩ | ⟨s, hs, hkind, hsequence, hdigits⟩)
    · cases hkey
    · cases hs
      exact ⟨hkind, hsequence, hdigits⟩
  · exact fun ⟨hkind, hsequence, hdigits⟩ => Or.inr ⟨segment, rfl, hkind, hsequence, hdigits⟩

theorem Misses.getProperty {value : Value ι} {segment : String} (h : value.Misses segment) :
    value.getProperty (.str segment) = .ok .undefined := by
  cases hproperty : value.getProperty (.str segment) with
  | error kind =>
      exact (h.1 ((getProperty_str_eq_error_iff value segment kind).mp hproperty).2).elim
  | ok property =>
      by_contra hpresent
      have hne : property ≠ .undefined := fun heq => hpresent (by rw [heq])
      exact hne (h.2 property (has_of_getProperty hproperty hne))

/-! ## Paths -/

/-- The segments lead from a value to another one, always to something. -/
inductive Leads : Value ι → List String → Value ι → Prop
  | here (value : Value ι) : Leads value [] value
  | step {value property last : Value ι} {segment : String} {rest : List String}
    (hproperty : Has value segment property) (hpresent : property ≠ .undefined)
    (hrest : Leads property rest last) : Leads value (segment :: rest) last

/-- On its way a path comes to a value that misses its next segment. -/
def BreaksOff (value : Value ι) (path : List String) : Prop :=
  ∃ front segment back inner, path = front ++ segment :: back ∧ Leads value front inner ∧
    inner.Misses segment

/-- On its way a path comes to a value that refuses its next segment. -/
def Blocked (value : Value ι) (path : List String) : Prop :=
  ∃ front segment back inner, path = front ++ segment :: back ∧ Leads value front inner ∧
    inner.Refuses segment

theorem Leads.lookupPath_append {value inner : Value ι} {front : List String}
    (h : Leads value front inner) (back : List String) :
    value.lookupPath (front ++ back) = inner.lookupPath back := by
  induction h with
  | here => rfl
  | step hproperty _ _ ih =>
      rw [List.cons_append, lookupPath_cons, hproperty.getProperty, ok_bind, ih]

theorem Leads.lookupPath {value last : Value ι} {path : List String} (h : Leads value path last) :
    value.lookupPath path = .ok last := by
  rw [← List.append_nil path, h.lookupPath_append]
  rfl

theorem BreaksOff.lookupPath {value : Value ι} {path : List String} (h : value.BreaksOff path) :
    value.lookupPath path = .ok .undefined := by
  obtain ⟨front, segment, back, inner, rfl, hleads, hmisses⟩ := h
  rw [hleads.lookupPath_append, lookupPath_cons, hmisses.getProperty, ok_bind, lookupPath_undefined]

theorem Blocked.lookupPath {value : Value ι} {path : List String} (h : value.Blocked path) :
    value.lookupPath path = .error .badValue := by
  obtain ⟨front, segment, back, inner, rfl, hleads, hrefuses⟩ := h
  rw [hleads.lookupPath_append, lookupPath_cons,
    (getProperty_str_eq_error_iff inner segment .badValue).mpr ⟨rfl, hrefuses⟩, error_bind]

theorem Leads.ne_undefined {value last : Value ι} {path : List String} (h : Leads value path last)
    (hvalue : value ≠ .undefined) : last ≠ .undefined := by
  induction h with
  | here => exact hvalue
  | step _ hpresent _ ih => exact ih hpresent

/-- A path leads somewhere, or breaks off, or is blocked. -/
theorem path_cases (value : Value ι) (path : List String) :
    (∃ last, Leads value path last) ∨ value.BreaksOff path ∨ value.Blocked path := by
  induction path generalizing value with
  | nil => exact Or.inl ⟨value, .here value⟩
  | cons segment rest ih =>
      obtain ⟨property, hpresent, hproperty⟩ | hmisses | hrefuses := segment_cases value segment
      · have hstep : ∀ {front : List String} {inner : Value ι}, Leads property front inner →
            Leads value (segment :: front) inner := fun h => .step hproperty hpresent h
        obtain ⟨last, hlast⟩ | ⟨front, next, back, inner, rfl, hleads, hmisses⟩ |
          ⟨front, next, back, inner, rfl, hleads, hrefuses⟩ := ih property
        · exact Or.inl ⟨last, hstep hlast⟩
        · exact Or.inr (Or.inl ⟨_, next, back, inner, rfl, hstep hleads, hmisses⟩)
        · exact Or.inr (Or.inr ⟨_, next, back, inner, rfl, hstep hleads, hrefuses⟩)
      · exact Or.inr (Or.inl ⟨[], segment, rest, value, rfl, .here value, hmisses⟩)
      · exact Or.inr (Or.inr ⟨[], segment, rest, value, rfl, .here value, hrefuses⟩)

/-- What a path is found to lead to is what it leads to. -/
theorem leads_of_lookupPath {value last : Value ι} {path : List String}
    (h : value.lookupPath path = .ok last) (hpresent : last ≠ .undefined) :
    Leads value path last := by
  obtain ⟨other, hother⟩ | hbreaks | hblocked := path_cases value path
  · obtain rfl := Except.ok.inj (hother.lookupPath.symm.trans h)
    exact hother
  · exact (hpresent (Except.ok.inj (h.symm.trans hbreaks.lookupPath))).elim
  · cases hblocked.lookupPath.symm.trans h

/-- A value with parts that a variable does not show. -/
def IsCollection : Value ι → Prop
  | .list _ _ | .tuple _ | .map _ _ => True
  | _ => False

end Value

namespace Variable

open Value

/-! ## What becomes of a variable -/

/-- The data as the mapping in which paths begin. -/
def root (data : Data) : Datum := .map (.ofPlace []) data

/-- The data have the first name. -/
def Known (data : Data) (names : List (List Char)) : Prop :=
  ∃ name ∈ names.head?, Entries.hasKey data (.str (String.ofList name)) = true

/-- What a variable with a path gives way to. -/
inductive Gives (data : Data) (names : List (List Char)) (source : List Char) : List Char → Prop
  /-- It stays when its first name is absent, -/
  | unknown (hunknown : ¬ Known data names) : Gives data names source source
  /-- and before a list or a mapping. -/
  | collection {value : Datum} (hknown : Known data names)
    (hleads : Leads (root data) (names.map String.ofList) value)
    (hcollection : value.IsCollection) : Gives data names source source
  /-- Nothing stands for what is missing, also behind `null`. -/
  | missing (hknown : Known data names)
    (hmissing : (root data).BreaksOff (names.map String.ofList)) : Gives data names source []
  /-- Any other value is shown. -/
  | shown {value : Datum} {text : String} (hknown : Known data names)
    (hleads : Leads (root data) (names.map String.ofList) value)
    (hsingle : ¬ value.IsCollection) (htext : value.toText = .ok text) :
    Gives data names source text.toList

/-- A variable is refused where its path is blocked. -/
def IsRefused (data : Data) (names : List (List Char)) : Prop :=
  Known data names ∧ (root data).Blocked (names.map String.ofList)

variable {data : Data} {names : List (List Char)} {source text : List Char}

theorem outcome_of_not_known (hnames : IsPath names) (h : ¬ Known data names) :
    outcome data (dotted names) = .ok .kept := by
  unfold outcome
  rw [hnames.splitOn_dotted]
  cases names with
  | nil => rfl
  | cons name segments =>
      rw [List.map_cons]
      dsimp only
      rw [if_neg fun hkey => h ⟨name, rfl, hkey⟩]

theorem outcome_of_known (hnames : IsPath names) (h : Known data names) :
    outcome data (dotted names) =
      ((root data).lookupPath (names.map String.ofList) >>= fun value => .ok (ofValue value)) := by
  unfold outcome
  rw [hnames.splitOn_dotted]
  obtain ⟨name, hname, hkey⟩ := h
  cases names with
  | nil => cases hname
  | cons name' segments =>
      cases hname
      rw [List.map_cons]
      dsimp only
      rw [if_pos hkey]
      rfl

theorem ofValue_of_isCollection {value : Datum} (h : value.IsCollection) :
    ofValue value = .kept := by
  cases value with
  | scalar _ | set _ => exact h.elim
  | list _ _ | tuple _ | map _ _ => rfl

theorem ofValue_of_not_isCollection {value : Datum} {text : String} (h : ¬ value.IsCollection)
    (hpresent : value ≠ .undefined) (htext : value.toText = .ok text) :
    ofValue value = .replaced text := by
  cases value with
  | scalar s =>
      rw [Value.toText, Except.ok.injEq] at htext
      subst htext
      cases s with
      | undefined => exact (hpresent rfl).elim
      | _ => rfl
  | set members =>
      rw [Value.toText, Except.ok.injEq] at htext
      subst htext
      rfl
  | list _ _ | tuple _ | map _ _ => exact (h trivial).elim

/-- Only collections may be without a text. -/
theorem exists_toText {value : Datum} (h : ¬ value.IsCollection) :
    ∃ text, value.toText = .ok text := by
  cases value with
  | scalar s => exact ⟨s.toText, by rw [Value.toText]⟩
  | set members => exact ⟨shownSet members, by rw [Value.toText]⟩
  | list _ _ | tuple _ | map _ _ => exact (h trivial).elim

theorem Gives.outcome_expand (h : Gives data names source text) (hnames : IsPath names) :
    (expand data (.variable (dotted names) source)).outcome = .ok text := by
  cases h with
  | unknown hunknown => exact outcome_expand_variable (outcome_of_not_known hnames hunknown) _
  | collection hknown hleads hcollection =>
      have hkept : outcome data (dotted names) = .ok .kept := by
        rw [outcome_of_known hnames hknown, hleads.lookupPath, ok_bind,
          ofValue_of_isCollection hcollection]
      exact outcome_expand_variable hkept source
  | missing hknown hmissing =>
      have hempty : outcome data (dotted names) = .ok .empty := by
        rw [outcome_of_known hnames hknown, hmissing.lookupPath, ok_bind]
        rfl
      exact outcome_expand_variable hempty source
  | @shown value shown hknown hleads hsingle htext =>
      have hreplaced : outcome data (dotted names) = .ok (.replaced shown) := by
        rw [outcome_of_known hnames hknown, hleads.lookupPath, ok_bind,
          ofValue_of_not_isCollection hsingle (hleads.ne_undefined nofun) htext]
      exact outcome_expand_variable hreplaced source

theorem IsRefused.outcome_expand (h : IsRefused data names) (hnames : IsPath names) :
    (expand data (.variable (dotted names) source)).outcome = .error (.fault .badValue) := by
  have houtcome : outcome data (dotted names) = .error .badValue := by
    rw [outcome_of_known hnames h.1, h.2.lookupPath, error_bind]
  rw [expand, houtcome]
  rfl

/-- A variable gives way to something, or is refused. -/
theorem gives_cases (data : Data) (names : List (List Char)) (source : List Char) :
    (∃ text, Gives data names source text) ∨ IsRefused data names := by
  by_cases hknown : Known data names
  · obtain ⟨value, hleads⟩ | hmissing | hblocked :=
      path_cases (root data) (names.map String.ofList)
    · by_cases hcollection : value.IsCollection
      · exact Or.inl ⟨_, .collection hknown hleads hcollection⟩
      · obtain ⟨text, htext⟩ := exists_toText hcollection
        exact Or.inl ⟨_, .shown hknown hleads hcollection htext⟩
    · exact Or.inl ⟨_, .missing hknown hmissing⟩
    · exact Or.inr ⟨hknown, hblocked⟩
  · exact Or.inl ⟨_, .unknown hknown⟩

/-! ## What becomes of a text -/

/-- What becomes of a fragment: a character stays. -/
inductive Becomes (data : Data) : Fragment → List Char → Prop
  | char (c : Char) : Becomes data (.char c) [c]
  | token {names : List (List Char)} {source text : List Char} (hnames : IsPath names)
    (hgives : Gives data names source text) : Becomes data (.variable (dotted names) source) text

/-- A fragment that is a variable and refused. -/
inductive Fragment.IsRefused (data : Data) : Fragment → Prop
  | token {names : List (List Char)} {source : List Char} (hnames : IsPath names)
    (hrefused : Variable.IsRefused data names) :
    Fragment.IsRefused data (.variable (dotted names) source)

theorem Becomes.outcome_expand {fragment : Fragment} (h : Becomes data fragment text) :
    (expand data fragment).outcome = .ok text := by
  cases h with
  | char c => rfl
  | token hnames hgives => exact hgives.outcome_expand hnames

theorem Fragment.IsRefused.outcome_expand {fragment : Fragment} (h : fragment.IsRefused data) :
    (expand data fragment).outcome = .error (.fault .badValue) := by
  cases h with
  | token hnames hrefused => exact Variable.IsRefused.outcome_expand hrefused hnames

/-- Every fragment of a divided text becomes something, or is refused. -/
theorem Divides.fragment_cases {delimiters : Delimiters} {divided : List Fragment}
    (h : Divides delimiters text divided) (data : Data) :
    ∀ fragment ∈ divided, (∃ shown, Becomes data fragment shown) ∨ fragment.IsRefused data := by
  induction h with
  | nil => exact nofun
  | char _ _ ih => exact List.forall_mem_cons.mpr ⟨Or.inl ⟨_, .char _⟩, ih⟩
  | token hnames _ _ ih =>
      refine List.forall_mem_cons.mpr ⟨?_, ih⟩
      obtain ⟨shown, hgives⟩ | hrefused := gives_cases data _ _
      · exact Or.inl ⟨shown, .token hnames hgives⟩
      · exact Or.inr (.token hnames hrefused)

theorem outcome_expandAll_cons (data : Data) (fragment : Fragment) (rest : List Fragment) :
    (expandAll data (fragment :: rest)).outcome =
      (expand data fragment).outcome >>= fun text =>
        (expandAll data rest).outcome >>= fun following => .ok (text ++ following) := by
  rw [expandAll]
  simp only [Run.outcome_bind, Run.outcome_pure]

/-- What the fragments become is put together. -/
theorem outcome_expandAll_of_becomes {fragments : List Fragment} {texts : List (List Char)}
    (h : List.Forall₂ (Becomes data) fragments texts) :
    (expandAll data fragments).outcome = .ok texts.flatten := by
  induction h with
  | nil => rfl
  | cons hfirst _ ih =>
      rw [outcome_expandAll_cons, hfirst.outcome_expand, ok_bind, ih, ok_bind, List.flatten_cons]

/-- Fragments become something one by one, or one of them is refused and then the whole. -/
theorem expandAll_cases {fragments : List Fragment}
    (h : ∀ fragment ∈ fragments, (∃ shown, Becomes data fragment shown) ∨ fragment.IsRefused data) :
    (∃ texts, List.Forall₂ (Becomes data) fragments texts) ∨
      ∃ fragment ∈ fragments, fragment.IsRefused data := by
  induction fragments with
  | nil => exact Or.inl ⟨[], .nil⟩
  | cons fragment rest ih =>
      obtain ⟨hfirst, hrest⟩ := List.forall_mem_cons.mp h
      obtain ⟨shown, hshown⟩ | hrefused := hfirst
      · obtain ⟨texts, htexts⟩ | ⟨other, hother, hrefused⟩ := ih hrest
        · exact Or.inl ⟨shown :: texts, .cons hshown htexts⟩
        · exact Or.inr ⟨other, List.mem_cons_of_mem fragment hother, hrefused⟩
      · exact Or.inr ⟨fragment, List.mem_cons_self, hrefused⟩

theorem outcome_expandAll_of_isRefused {fragments : List Fragment}
    (h : ∀ fragment ∈ fragments, (∃ shown, Becomes data fragment shown) ∨ fragment.IsRefused data)
    (hrefused : ∃ fragment ∈ fragments, fragment.IsRefused data) :
    (expandAll data fragments).outcome = .error (.fault .badValue) := by
  induction fragments with
  | nil => simp at hrefused
  | cons fragment rest ih =>
      obtain ⟨hfirst, hrest⟩ := List.forall_mem_cons.mp h
      rw [outcome_expandAll_cons]
      obtain ⟨shown, hshown⟩ | hstop := hfirst
      · rw [hshown.outcome_expand, ok_bind]
        obtain ⟨other, hother, hstop⟩ := hrefused
        obtain rfl | hother := List.mem_cons.mp hother
        · cases hshown.outcome_expand.symm.trans hstop.outcome_expand
        · rw [ih hrest ⟨other, hother, hstop⟩, error_bind]
      · rw [hstop.outcome_expand, error_bind]

/-- A text is divided into its variables and the characters between them in one way. Unless one of
the variables is refused, each gives way to its own text, to nothing or to the text of its value,
and the characters stay. -/
theorem replaces_exactly (delimiters : Delimiters) (data : Data) (text : List Char) :
    ∃ divided, Divides delimiters text divided ∧
      (∀ other, Divides delimiters text other → other = divided) ∧
      (∀ result, (replace delimiters data text).outcome = .ok result ↔
        ∃ texts, List.Forall₂ (Becomes data) divided texts ∧ texts.flatten = result) ∧
      ∀ reason, (replace delimiters data text).outcome = .error reason ↔
        reason = .fault .badValue ∧ ∃ fragment ∈ divided, fragment.IsRefused data := by
  have hdivides := divides_fragments delimiters text
  have hcases := hdivides.fragment_cases data
  refine ⟨fragments delimiters text, hdivides, fun _ h => h.eq_fragments, ?_⟩
  refine except_iff_of_cases ?_ (outcome_expandAll_of_isRefused hcases) ?_
  · rintro result ⟨texts, htexts, rfl⟩
    exact outcome_expandAll_of_becomes htexts
  · obtain ⟨texts, htexts⟩ | hrefused := expandAll_cases hcases
    · exact Or.inl ⟨_, texts, htexts, rfl⟩
    · exact Or.inr hrefused

set_option maxRecDepth 4000 in
/-- A superscript behind the name of a list stops the replacement. -/
theorem not_replaces_exactly :
    ¬ ∀ (delimiters : Delimiters) (data : Data) (text : List Char),
      delimiters.opening ≠ [] → delimiters.closing ≠ [] →
      ∃ result, (replace delimiters data text).outcome = .ok result := by
  intro h
  obtain ⟨result, hresult⟩ := h ⟨['<', '%'], ['%', '>']⟩
    [(.str "items", .list (.ofPlace []) [.number (.int 1)])] "<%items.²%>".toList
    (List.cons_ne_nil _ _) (List.cons_ne_nil _ _)
  have hstopped : (replace ⟨['<', '%'], ['%', '>']⟩
      [(.str "items", .list (.ofPlace []) [.number (.int 1)])] "<%items.²%>".toList).outcome =
        .error (.fault .badValue) := by cbv
  cases hstopped.symm.trans hresult

end Variable

end Transclude
