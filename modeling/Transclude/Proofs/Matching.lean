import Mathlib
import Transclude.Proofs.Balance
import Transclude.Proofs.Scanning

/-! # The grammar of bracketed text

A bracketed text is an opening bracket, any number of characters, quotations and
bracketed texts, and a closing bracket. The scan for a closing bracket finds the end of
the bracketed text at a position, and nothing when there is none. -/

namespace Transclude.Bracket

/-- The inside of a quotation: a backslash hides the character behind it, and the quote stands
nowhere else. -/
inductive Quotation (quote : Char) : List Char → Prop
  | nil : Quotation quote []
  | escape (c : Char) {rest : List Char} (hrest : Quotation quote rest) :
    Quotation quote ('\\' :: c :: rest)
  | other {c : Char} {rest : List Char} (hquote : c ≠ quote) (hslash : c ≠ '\\')
    (hrest : Quotation quote rest) : Quotation quote (c :: rest)

/-- What stands between two brackets that match. Quotations count when the scan minds quotes, which
are plain characters to it otherwise. -/
inductive Inside (minds : Bool) (opening closing : Char) : List Char → Prop
  | nil : Inside minds opening closing []
  | plain {c : Char} {rest : List Char} (hquote : minds = true → isQuote c = false)
    (hopening : c ≠ opening) (hclosing : c ≠ closing) (hrest : Inside minds opening closing rest) :
    Inside minds opening closing (c :: rest)
  | quoted {quote : Char} {inner rest : List Char} (hminds : minds = true)
    (hquote : isQuote quote = true) (hinner : Quotation quote inner)
    (hrest : Inside minds opening closing rest) :
    Inside minds opening closing (quote :: (inner ++ quote :: rest))
  | group {inner rest : List Char} (hinner : Inside minds opening closing inner)
    (hrest : Inside minds opening closing rest) :
    Inside minds opening closing (opening :: (inner ++ closing :: rest))

/-- A bracketed text. -/
def Group (minds : Bool) (opening closing : Char) (text : List Char) : Prop :=
  ∃ inner, text = opening :: (inner ++ [closing]) ∧ Inside minds opening closing inner

variable {minds : Bool} {opening closing : Char}

theorem Inside.append {front back : List Char} (hfront : Inside minds opening closing front)
    (hback : Inside minds opening closing back) : Inside minds opening closing (front ++ back) := by
  induction hfront with
  | nil => exact hback
  | plain hquote hopening hclosing _ ih => exact ih.plain hquote hopening hclosing
  | quoted hminds hquote hinner _ ih => simpa using ih.quoted hminds hquote hinner
  | group hinner _ _ ih => simpa using hinner.group ih

/-! ## The scan reads what the grammar allows -/

theorem closingFrom_quotation {quote : Char} (hslash : quote ≠ '\\') {inner : List Char}
    (h : Quotation quote inner) (depth : Int) (rest : List Char) :
    closingFrom minds opening closing depth (some quote) (inner ++ quote :: rest) =
      (closingFrom minds opening closing depth none rest).map (· + (inner.length + 1)) := by
  induction h with
  | nil => exact closingFrom_endQuote hslash
  | escape c _ ih =>
      rw [List.cons_append, List.cons_append, closingFrom_escape, ih, Option.map_map]
      rfl
  | other hquote hother _ ih =>
      rw [List.cons_append, closingFrom_inside hquote hother, ih, Option.map_map]
      rfl

theorem slash_ne_quote {quote : Char} (h : isQuote quote = true) : quote ≠ '\\' := by
  rintro rfl
  exact absurd h (by decide)

theorem Leads.quoted {quote : Char} (hquote : isQuote quote = true) {inner : List Char}
    (h : Quotation quote inner) (depth : Nat) :
    Leads true opening closing (quote :: (inner ++ [quote])) depth depth := by
  intro base rest
  have htext : quote :: (inner ++ [quote]) ++ rest = quote :: (inner ++ quote :: rest) := by simp
  rw [htext, closingFrom_beginQuote hquote, closingFrom_quotation (slash_ne_quote hquote) h,
    Option.map_map]
  congr 1
  funext length
  simp only [Function.comp_apply, List.length_cons, List.length_append, List.length_nil]
  omega

section

variable (hopening : minds = true → isQuote opening = false)
  (hclosing : minds = true → isQuote closing = false) (hne : closing ≠ opening)

include hopening hclosing hne

/-- The inside of brackets leads back to the depth before it. -/
theorem Inside.leads {text : List Char} (h : Inside minds opening closing text) (depth : Nat) :
    Leads minds opening closing text depth depth := by
  induction h generalizing depth with
  | nil => exact .nil depth
  | plain hquote hnotOpening hnotClosing _ ih =>
      exact (Leads.other hquote hnotOpening hnotClosing depth).append (ih depth)
  | quoted hminds hquote hinner _ ih =>
      subst hminds
      simpa using (Leads.quoted hquote hinner depth).append (ih depth)
  | group _ _ ihinner ih =>
      have hinner := (Leads.opens hopening depth).append (ihinner (depth + 1))
      simpa using (hinner.append (Leads.closes hclosing hne depth)).append (ih depth)

theorem Group.closing? {text : List Char} (h : Group minds opening closing text)
    (rest : List Char) :
    Bracket.closing? minds opening closing (text ++ rest) = some (text.length - 1) := by
  obtain ⟨inner, rfl, hinner⟩ := h
  have hleads := (hinner.leads hopening hclosing hne 0).closing? hopening hclosing hne rest
  simpa using hleads

end

/-! ## The grammar allows what the scan reads -/

/-- A text that closes a number of open brackets, the last of them at its end. -/
inductive Closes (minds : Bool) (opening closing : Char) : Nat → List Char → Prop
  | none : Closes minds opening closing 0 []
  | next {count : Nat} {inner rest : List Char} (hinner : Inside minds opening closing inner)
    (hrest : Closes minds opening closing count rest) :
    Closes minds opening closing (count + 1) (inner ++ closing :: rest)

/-- A text that closes a number of open brackets, and before them a quotation if one is open. -/
def Finishes (minds : Bool) (opening closing : Char) (count : Nat) :
    Option Char → List Char → Prop
  | none, text => Closes minds opening closing count text
  | some quote, text => ∃ inner rest, text = inner ++ quote :: rest ∧ Quotation quote inner ∧
      Closes minds opening closing count rest

namespace Closes

variable {count : Nat} {text : List Char}

theorem plain {c : Char} (hquote : minds = true → isQuote c = false) (hopening : c ≠ opening)
    (hclosing : c ≠ closing) (h : Closes minds opening closing (count + 1) text) :
    Closes minds opening closing (count + 1) (c :: text) := by
  cases h with
  | next hinner hrest => exact .next (hinner.plain hquote hopening hclosing) hrest

theorem quoted {quote : Char} (hminds : minds = true) (hquote : isQuote quote = true)
    (h : Finishes minds opening closing (count + 1) (some quote) text) :
    Closes minds opening closing (count + 1) (quote :: text) := by
  obtain ⟨inner, rest, rfl, hinner, hrest⟩ := h
  cases hrest with
  | next hbehind hrest =>
      have hwhole := Closes.next (hbehind.quoted hminds hquote hinner) hrest
      simpa using hwhole

/-- An opening bracket begins a group of what is before the second bracket that is closed. -/
theorem group (h : Closes minds opening closing (count + 2) text) :
    Closes minds opening closing (count + 1) (opening :: text) := by
  cases h with
  | next hinner hrest =>
      cases hrest with
      | next hbehind hrest =>
          have hwhole := Closes.next (hinner.group hbehind) hrest
          simpa using hwhole

end Closes

/-- What the scan has passed when it ends closes all brackets that were open. -/
theorem finishes_of_closingFrom {depth : Int} {quote : Option Char} {text : List Char}
    {offset : Nat} (h : closingFrom minds opening closing depth quote text = some offset)
    {count : Nat} (hdepth : depth = count + 1) :
    Finishes minds opening closing (count + 1) quote (text.take (offset + 1)) := by
  -- every case but the last bracket goes on behind one character, or two after a backslash
  fun_induction closingFrom minds opening closing depth quote text generalizing offset count with
  | case1 => cases h
  | case2 => cases h
  | case3 depth c q hslash e more ih =>
      obtain ⟨found, hfound, rfl⟩ := Option.map_eq_some_iff.mp h
      obtain ⟨inner, rest, hinner, hquotation, hrest⟩ := ih hfound hdepth
      obtain rfl := beq_iff_eq.mp hslash
      refine ⟨'\\' :: e :: inner, rest, ?_, .escape e hquotation, hrest⟩
      rw [List.take_succ_cons, List.take_succ_cons, hinner]
      rfl
  | case4 depth c rest q hslash behind =>
      rename_i ih
      obtain ⟨found, hfound, rfl⟩ := Option.map_eq_some_iff.mp h
      have hbehind := ih hfound hdepth
      rw [List.take_succ_cons]
      by_cases hquote : c = q
      · subst hquote
        simp only [behind, beq_self_eq_true, if_true] at hbehind
        exact ⟨[], _, rfl, .nil, hbehind⟩
      · simp only [behind, beq_iff_eq, hquote, if_false] at hbehind
        obtain ⟨inner, rest', hinner, hquotation, hrest⟩ := hbehind
        exact ⟨c :: inner, rest', by rw [hinner]; rfl,
          .other hquote (by simpa using hslash) hquotation, hrest⟩
  | case5 depth c rest hquote ih =>
      obtain ⟨found, hfound, rfl⟩ := Option.map_eq_some_iff.mp h
      rw [Bool.and_eq_true] at hquote
      exact Closes.quoted hquote.1 hquote.2 (ih hfound hdepth)
  | case6 depth c rest hquote hopening ih =>
      obtain ⟨found, hfound, rfl⟩ := Option.map_eq_some_iff.mp h
      obtain rfl := beq_iff_eq.mp hopening
      exact Closes.group (ih hfound (by omega))
  | case7 depth c rest hquote hopening hclosing hlast =>
      cases h
      obtain rfl := beq_iff_eq.mp hclosing
      obtain rfl : count = 0 := by
        have hone := beq_iff_eq.mp hlast
        omega
      exact .next .nil .none
  | case8 depth c rest hquote hopening hclosing hlast ih =>
      obtain ⟨found, hfound, rfl⟩ := Option.map_eq_some_iff.mp h
      obtain rfl := beq_iff_eq.mp hclosing
      have hnot : depth ≠ 1 := by simpa using hlast
      obtain ⟨less, rfl⟩ := Nat.exists_eq_succ_of_ne_zero (n := count) (by omega)
      exact .next .nil (ih hfound (by omega))
  | case9 depth c rest hquote hopening hclosing ih =>
      obtain ⟨found, hfound, rfl⟩ := Option.map_eq_some_iff.mp h
      exact Closes.plain (by simpa using hquote) (by simpa using hopening) (by simpa using hclosing)
        (ih hfound hdepth)

/-! ## The end of a bracketed text -/

/-- A bracketed text stands in a text from a position to another one, which are both its own. -/
def GroupAt (minds : Bool) (opening closing : Char) (text : List Char) (start stop : Nat) : Prop :=
  stop < text.length ∧ Group minds opening closing (text.extract start (stop + 1))

theorem Group.two_le_length {text : List Char} (h : Group minds opening closing text) :
    2 ≤ text.length := by
  obtain ⟨inner, rfl, _⟩ := h
  simp only [List.length_cons, List.length_append, List.length_nil]
  omega

theorem GroupAt.start_lt {text : List Char} {start stop : Nat}
    (h : GroupAt minds opening closing text start stop) : start < stop := by
  have hlength := h.2.two_le_length
  rw [List.extract_eq_take_drop, List.length_take] at hlength
  omega

/-- The scan from a position of the text is one from there on. -/
theorem closingAt?_natCast (minds : Bool) (opening closing : Char) (text : List Char)
    (start : Nat) :
    closingAt? minds opening closing text start =
      .ok ((closing? minds opening closing (text.drop start)).map fun offset =>
        ((start + offset : Nat) : Int)) := by
  have hnot : ¬ (start : Int) < -(text.length : Int) := by omega
  have hnonneg : ¬ (start : Int) < 0 := by omega
  rw [closingAt?, if_neg hnot, if_neg hnonneg, Int.toNat_natCast]
  dsimp only
  cases closing? minds opening closing (text.drop start) <;> rfl

section

variable (hopening : minds = true → isQuote opening = false)
  (hclosing : minds = true → isQuote closing = false) (hne : closing ≠ opening)

include hopening hclosing hne

/-- The scan from an opening bracket ends where the bracketed text does. -/
theorem closing?_eq_some_iff {text : List Char} (hhead : text.head? = some opening)
    {offset : Nat} :
    closing? minds opening closing text = some offset ↔
      offset < text.length ∧ Group minds opening closing (text.take (offset + 1)) := by
  constructor
  · intro h
    refine ⟨closingFrom_lt h, ?_⟩
    obtain ⟨rest, rfl⟩ : ∃ rest, text = opening :: rest := List.head?_eq_some_iff.mp hhead
    rw [closing?, closingFrom_opening hopening] at h
    obtain ⟨found, hfound, rfl⟩ := Option.map_eq_some_iff.mp h
    have hcloses : Closes minds opening closing 1 (rest.take (found + 1)) :=
      finishes_of_closingFrom hfound rfl
    rw [List.take_succ_cons]
    generalize rest.take (found + 1) = passed at hcloses
    -- one bracket is closed, and nothing follows it
    cases hcloses with
    | next hinner hrest =>
        cases hrest
        exact ⟨_, rfl, hinner⟩
  · rintro ⟨hlt, hgroup⟩
    have hfound := hgroup.closing? hopening hclosing hne (text.drop (offset + 1))
    rw [List.take_append_drop, List.length_take] at hfound
    rw [hfound]
    congr 1
    omega

theorem closingAt?_eq_some_iff {text : List Char} {start : Nat}
    (hat : text[start]? = some opening) {stop : Nat} :
    closingAt? minds opening closing text start = .ok (some (stop : Int)) ↔
      GroupAt minds opening closing text start stop := by
  have hhead : (text.drop start).head? = some opening := by rw [List.head?_drop, hat]
  rw [closingAt?_natCast, Except.ok.injEq, Option.map_eq_some_iff]
  constructor
  · rintro ⟨offset, hoffset, hstop⟩
    obtain rfl : start + offset = stop := Int.ofNat.inj hstop
    obtain ⟨hlt, hgroup⟩ := (closing?_eq_some_iff hopening hclosing hne hhead).mp hoffset
    rw [List.length_drop] at hlt
    refine ⟨by omega, ?_⟩
    rwa [List.extract_eq_take_drop, Nat.add_assoc, Nat.add_sub_cancel_left]
  · intro h
    have hstart := h.start_lt
    obtain ⟨hlt, hgroup⟩ := h
    rw [List.extract_eq_take_drop] at hgroup
    have hsize : stop + 1 - start = stop - start + 1 := by omega
    refine ⟨stop - start, (closing?_eq_some_iff hopening hclosing hne hhead).mpr
      ⟨by rw [List.length_drop]; omega, by rwa [← hsize]⟩, ?_⟩
    rw [Nat.add_sub_cancel' (Nat.le_of_lt hstart)]

theorem closingAt?_eq_none_iff {text : List Char} {start : Nat}
    (hat : text[start]? = some opening) :
    closingAt? minds opening closing text start = .ok none ↔
      ∀ stop, ¬ GroupAt minds opening closing text start stop := by
  simp only [← closingAt?_eq_some_iff hopening hclosing hne hat, closingAt?_natCast,
    Except.ok.injEq]
  cases closing? minds opening closing (text.drop start) with
  | none => simp
  | some offset => simpa using ⟨start + offset, by simp⟩

end

/-- From an opening bracket the scan finds the position at which the bracketed text ends that begins
there. There is at most one such position, and when there is none the scan finds nothing. What
stands before and behind the bracketed text makes no difference. -/
theorem closingAt?_exact {minds : Bool} {opening closing : Char} (hne : closing ≠ opening)
    (hopening : minds = true → isQuote opening = false)
    (hclosing : minds = true → isQuote closing = false) {text : List Char} {start : Nat}
    (hat : text[start]? = some opening) :
    (∀ stop : Nat, closingAt? minds opening closing text start = .ok (some (stop : Int)) ↔
        GroupAt minds opening closing text start stop) ∧
      (∀ stop stop', GroupAt minds opening closing text start stop →
        GroupAt minds opening closing text start stop' → stop = stop') ∧
      (closingAt? minds opening closing text start = .ok none ↔
        ¬ ∃ stop, GroupAt minds opening closing text start stop) ∧
      ∀ stop : Nat, closingAt? minds opening closing text start = .ok (some (stop : Int)) →
        ∀ front back, closingAt? minds opening closing
            (front ++ text.extract start (stop + 1) ++ back) front.length =
          .ok (some ((front.length + (stop - start) : Nat) : Int)) := by
  have hfinds (stop : Nat) : closingAt? minds opening closing text start = .ok (some (stop : Int)) ↔
      GroupAt minds opening closing text start stop :=
    closingAt?_eq_some_iff hopening hclosing hne hat
  refine ⟨hfinds, fun stop stop' h h' => ?_, ?_, fun stop h front back => ?_⟩
  · have heq := ((hfinds stop).mpr h).symm.trans ((hfinds stop').mpr h')
    simpa using heq
  · rw [closingAt?_eq_none_iff hopening hclosing hne hat, not_exists]
  · obtain ⟨hlt, hgroup⟩ := (hfinds stop).mp h
    have hfound := hgroup.closing? hopening hclosing hne back
    rw [closingAt?_natCast, List.append_assoc, List.drop_left, hfound]
    simp only [List.extract_eq_take_drop, List.length_take, List.length_drop, Option.map_some]
    congr 3
    omega

/-- A quoted bracket, an escaped quote and a group stand between the brackets. -/
theorem closingAt?_exact_quoted :
    "a(')\\')' (b))c".toList[1]? = some '(' ∧
      closingAt? true '(' ')' "a(')\\')' (b))c".toList (1 : Nat) = .ok (some (12 : Nat)) ∧
      GroupAt true '(' ')' "a(')\\')' (b))c".toList 1 12 := by
  have hat : "a(')\\')' (b))c".toList[1]? = some '(' := by decide
  have hfound : closingAt? true '(' ')' "a(')\\')' (b))c".toList (1 : Nat) =
      .ok (some (12 : Nat)) := by cbv
  exact ⟨hat, hfound,
    ((closingAt?_exact (by decide) (by decide) (by decide) hat).1 12).mp hfound⟩

end Transclude.Bracket
