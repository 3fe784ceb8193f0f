import Mathlib
import Transclude.Proofs.Comments
import Transclude.Proofs.Layout

/-! # What begins no directive

With the standard delimiters only two signs `@` in a row begin a directive. Text
without the sign is silent to every scan, and so is a name behind the signs to the
scans for other names. -/

namespace Transclude

theorem opening_not_prefix_of_ne {c : Char} {text : List Char} (h : c ≠ '@') :
    Delimiters.standard.opening.isPrefixOf (c :: text) = false := by
  simp [Delimiters.standard, List.isPrefixOf, h.symm]

theorem opening_not_prefix_of_single {text : List Char} (h : ∀ c ∈ text.head?, c ≠ '@') :
    Delimiters.standard.opening.isPrefixOf ('@' :: text) = false := by
  cases text with
  | nil => rfl
  | cons c rest => simp [Delimiters.standard, List.isPrefixOf, (h c rfl).symm]

/-- Where a text that holds the sign only in front begins with the opening delimiter. -/
theorem opening_not_prefix_inside {path rest front back : List Char} {c first : Char}
    {name : List Char} (hpath : path = first :: name) (hplain : '@' ∉ path)
    (h : '@' :: '@' :: path = front ++ c :: back) (hfront : front ≠ []) :
    Delimiters.standard.opening.isPrefixOf (c :: back ++ rest) = false := by
  subst hpath
  have hfirst : first ≠ '@' := fun heq => hplain (by simp [heq])
  -- the place is at the second sign or in the name behind it
  cases front with
  | nil => exact absurd rfl hfront
  | cons _ front =>
      cases front with
      | nil =>
          obtain ⟨rfl, rfl⟩ := List.cons.inj (List.cons.inj h).2
          exact opening_not_prefix_of_single (by simpa using hfirst)
      | cons _ front =>
          have heq : first :: name = front ++ c :: back := (List.cons.inj (List.cons.inj h).2).2
          exact opening_not_prefix_of_ne fun hc => hplain (by rw [heq, hc]; simp)

/-- No opening delimiter stands in a text that is followed by a rest. -/
def Unopened (text rest : List Char) : Prop :=
  Everywhere (fun text => Delimiters.standard.opening.isPrefixOf text = false) text rest

namespace Unopened

theorem of_plain {text : List Char} (h : '@' ∉ text) (rest : List Char) : Unopened text rest := by
  rintro front c back rfl
  exact opening_not_prefix_of_ne fun hc => h (by simp [hc])

/-- The signs of a delimiter stand next to each other. -/
theorem of_single {text : List Char} (h : ¬ ['@', '@'] <:+: text) (hlast : text.getLast? ≠ some '@')
    (rest : List Char) : Unopened text rest := by
  rintro front c back rfl
  by_cases hc : c = '@'
  · subst hc
    cases back with
    | nil => exact absurd (List.getLast?_concat ..) hlast
    | cons d back =>
        refine opening_not_prefix_of_single ?_
        rintro _ ⟨⟩ rfl
        exact h ⟨front, back, by simp⟩
  · exact opening_not_prefix_of_ne hc

end Unopened

namespace Everywhere

variable {holds : List Char → Prop}

/-- Where only an opening delimiter can break it, a property holds all over text without the
sign. -/
theorem of_plain (hholds : ∀ text, Delimiters.standard.opening.isPrefixOf text = false → holds text)
    {text : List Char} (h : '@' ∉ text) (rest : List Char) : Everywhere holds text rest :=
  (Unopened.of_plain h rest).imp hholds

/-- Where only an opening delimiter can break it, it is enough to look at the one in front. -/
theorem of_reference
    (hholds : ∀ text, Delimiters.standard.opening.isPrefixOf text = false → holds text)
    {path rest : List Char} (hplain : '@' ∉ path) (hne : path ≠ [])
    (hhead : holds ('@' :: '@' :: path ++ rest)) : Everywhere holds ('@' :: '@' :: path) rest := by
  obtain ⟨first, more, hpath⟩ := List.exists_cons_of_ne_nil hne
  intro front c back heq
  by_cases hfront : front = []
  · subst hfront
    obtain ⟨rfl, rfl⟩ := List.cons.inj heq
    exact hhead
  · exact hholds _ (opening_not_prefix_inside hpath hplain heq hfront)

end Everywhere

namespace Directive

variable {name : List Char}

theorem headLength?_of_not_prefix {opening text : List Char}
    (h : opening.isPrefixOf text = false) : headLength? opening name text = none := by
  rw [headLength?, h]
  rfl

/-- Text without delimiters is silent. -/
theorem silent_of_unopened {text rest : List Char} (h : Unopened text rest) :
    Silent .standard name text rest :=
  h.imp fun _ => headLength?_of_not_prefix

theorem silent_of_plain {text : List Char} (h : '@' ∉ text) (rest : List Char) :
    Silent .standard name text rest :=
  silent_of_unopened (.of_plain h rest)

/-- Behind the delimiter a name that does not begin with a space stands there at once or not at
all. -/
theorem headLength?_standard {c : Char} {text : List Char} (h : c ≠ ' ') :
    headLength? Delimiters.standard.opening name ('@' :: '@' :: c :: text) =
      if nameEnds name (c :: text) then some (2 + name.length) else none := by
  simp only [headLength?, Delimiters.standard, List.isPrefixOf, beq_self_eq_true, Bool.and_self,
    if_true, List.length_cons, List.length_nil, List.drop_succ_cons, List.drop_zero]
  rw [List.takeWhile_cons_of_neg (by simpa using h), List.length_nil, spacesBefore?]
  split <;> rfl

/-- Another name behind the delimiter is silent. -/
theorem silent_reference {path rest : List Char} (hplain : '@' ∉ path)
    (hfirst : ∃ c more, path = c :: more ∧ c ≠ ' ') (hname : nameEnds name (path ++ rest) = false) :
    Silent .standard name ('@' :: '@' :: path) rest := by
  obtain ⟨c, more, rfl, hspace⟩ := hfirst
  refine .of_reference (fun _ => headLength?_of_not_prefix) hplain (List.cons_ne_nil c more) ?_
  rw [List.cons_append] at hname
  simp only [List.cons_append]
  rw [headLength?_standard hspace, hname]
  rfl

end Directive

namespace Comment

theorem includeLength?_of_no_opening {text : List Char}
    (h : Delimiters.standard.opening.isPrefixOf text = false) :
    includeLength? .standard text = none := by
  rw [includeLength?, h]
  rfl

/-- Behind the delimiter an include that does not begin with a space stands there at once or not at
all. -/
theorem includeLength?_of_other_name {c : Char} {text : List Char} (hspace : c ≠ ' ')
    (h : ¬ "include".toList <+: c :: text) :
    includeLength? .standard ('@' :: '@' :: c :: text) = none := by
  have hopening : Delimiters.standard.opening.isPrefixOf ('@' :: '@' :: c :: text) = true := rfl
  have hspaces : (c :: text).takeWhile (· == ' ') = [] :=
    List.takeWhile_cons_of_neg (by simpa using hspace)
  have hname : "include".toList.isPrefixOf (c :: text) = false := by
    rw [Bool.eq_false_iff]
    exact fun hfound => h (List.isPrefixOf_iff_prefix.mp hfound)
  unfold includeLength?
  rw [if_pos hopening]
  simp only [Delimiters.standard, List.length_cons, List.length_nil, List.drop_succ_cons,
    List.drop_zero, hspaces, hname, Bool.false_eq_true, if_false]

/-- Another name behind the delimiter begins no include. -/
theorem no_include_reference {path rest : List Char} (hplain : '@' ∉ path)
    (hfirst : ∃ c more, path = c :: more ∧ c ≠ ' ') (hname : ¬ "include".toList <+: path ++ rest) :
    Everywhere (fun text => includeLength? .standard text = none) ('@' :: '@' :: path) rest := by
  obtain ⟨c, more, rfl, hspace⟩ := hfirst
  exact .of_reference (fun _ => includeLength?_of_no_opening) hplain (List.cons_ne_nil c more)
    (includeLength?_of_other_name hspace hname)

/-- A text in which no include begins has no commented ones. -/
theorem strip_of_no_include {text : List Char}
    (h : Everywhere (fun text => includeLength? .standard text = none) text []) :
    strip .standard text = text := by
  apply strip_eq_self_of_no_include
  intro front back heq
  cases back with
  | nil => rfl
  | cons c back =>
      have hnone := h front c back heq
      rwa [List.append_nil] at hnone

theorem strip_plain {text : List Char} (h : '@' ∉ text) : strip .standard text = text :=
  strip_of_no_include (.of_plain (fun _ => includeLength?_of_no_opening) h [])

end Comment

end Transclude
