import Mathlib
import Transclude.Proofs.Digits
import Transclude.Proofs.Words
import Transclude.Proofs.Wrapping

/-! # Cutting a text between its tokens

Whether a lexeme stands at the beginning of a text is seen from the lexeme itself and
from what follows it, so that a text may be cut behind any of its lexemes, and a
blank may be put there with another text behind it: the lexemes in front stay as
they are. -/

namespace Transclude.Expr

/-! ## Lexemes of shorter texts -/

theorem leadingDigits_take (text : List Char) (n : Nat) :
    leadingDigits (text.take n) = min n (leadingDigits text) := by
  rw [leadingDigits, ← List.take_takeWhile, List.length_take, leadingDigits]

/-- The length of the sign that an exponent may have. -/
def signLength : List Char → Nat
  | '+' :: _ | '-' :: _ => 1
  | _ => 0

theorem signLength_le (text : List Char) : signLength text ≤ 1 := by
  unfold signLength
  split <;> decide

theorem signLength_cons (c : Char) (rest rest' : List Char) :
    signLength (c :: rest) = signLength (c :: rest') := by
  by_cases hplus : c = '+'
  · rw [hplus]
    rfl
  · by_cases hminus : c = '-'
    · rw [hminus]
      rfl
    · simp [signLength, hplus, hminus]

theorem exponentLength_cons (mark : Char) (rest : List Char) :
    exponentLength (mark :: rest) =
      if mark == 'e' || mark == 'E' then
        if leadingDigits (rest.drop (signLength rest)) = 0 then 0
        else 1 + signLength rest + leadingDigits (rest.drop (signLength rest))
      else 0 := rfl

theorem exponentLength_take {text : List Char} {n : Nat} (h : exponentLength text ≤ n) :
    exponentLength (text.take n) = exponentLength text := by
  cases text with
  | nil => rw [List.take_nil]
  | cons mark rest =>
      cases n with
      | zero => exact (Nat.le_zero.mp h).symm
      | succ n =>
          rw [List.take_succ_cons]
          rw [exponentLength_cons] at h ⊢
          rw [exponentLength_cons]
          by_cases hmark : (mark == 'e' || mark == 'E') = true
          · rw [if_pos hmark] at h ⊢
            rw [if_pos hmark]
            cases n with
            | zero =>
                split at h
                next hnone => rw [if_pos hnone]; rfl
                next => omega
            | succ n =>
                have hsign : signLength (rest.take (n + 1)) = signLength rest := by
                  cases rest with
                  | nil => rfl
                  | cons c rest => exact signLength_cons c _ _
                have hle := signLength_le rest
                rw [hsign, List.drop_take, leadingDigits_take]
                split at h
                next hnone => rw [if_pos hnone, if_pos (by omega)]
                next hsome =>
                  rw [Nat.min_eq_right (by omega)]
          · rw [if_neg hmark, if_neg hmark]

/-- The length of the digits with an optional point that the text begins with. -/
def mantissaLength (text : List Char) : Nat :=
  let whole := leadingDigits text
  match text.drop whole with
  | '.' :: rest =>
    let fraction := leadingDigits rest
    if whole = 0 && fraction = 0 then 0 else whole + 1 + fraction
  | _ => whole

theorem numberLength_eq (text : List Char) :
    numberLength text =
      if mantissaLength text = 0 then 0
      else mantissaLength text + exponentLength (text.drop (mantissaLength text)) := rfl

theorem mantissaLength_of_point {text rest : List Char}
    (h : text.drop (leadingDigits text) = '.' :: rest) :
    mantissaLength text =
      if leadingDigits text = 0 ∧ leadingDigits rest = 0 then 0
      else leadingDigits text + 1 + leadingDigits rest := by
  simp [mantissaLength, h]

theorem mantissaLength_of_no_point {text : List Char}
    (h : ∀ rest, text.drop (leadingDigits text) ≠ '.' :: rest) :
    mantissaLength text = leadingDigits text := by
  unfold mantissaLength
  dsimp only
  split
  next rest heq => exact absurd heq (h rest)
  next => rfl

theorem mantissaLength_take {text : List Char} {n : Nat} (h : mantissaLength text ≤ n) :
    mantissaLength (text.take n) = mantissaLength text := by
  cases n with
  | zero => exact (Nat.le_zero.mp h).symm
  | succ n =>
      have hdrop := @List.drop_take Char (leadingDigits text) (n + 1) text
      by_cases hpoint : ∃ rest, text.drop (leadingDigits text) = '.' :: rest
      · obtain ⟨rest, hrest⟩ := hpoint
        rw [mantissaLength_of_point hrest] at h ⊢
        have hwhole : leadingDigits (text.take (n + 1)) = leadingDigits text := by
          rw [leadingDigits_take]
          split at h <;> omega
        have hrest' : (text.take (n + 1)).drop (leadingDigits (text.take (n + 1))) =
            '.' :: rest.take (n - leadingDigits text) := by
          have hle : leadingDigits text ≤ n := by split at h <;> omega
          rw [hwhole, hdrop, hrest, Nat.succ_sub hle, List.take_succ_cons]
        rw [mantissaLength_of_point hrest', hwhole, leadingDigits_take]
        split at h
        next hnone => rw [if_pos hnone, if_pos (by omega)]
        next hsome => rw [Nat.min_eq_right (by omega)]
      · rw [mantissaLength_of_no_point fun rest hrest => hpoint ⟨rest, hrest⟩] at h ⊢
        have hwhole : leadingDigits (text.take (n + 1)) = leadingDigits text := by
          rw [leadingDigits_take, Nat.min_eq_right h]
        rw [mantissaLength_of_no_point, hwhole]
        intro rest hrest
        rw [hwhole, hdrop] at hrest
        obtain ⟨more, hmore⟩ := hrest ▸ List.take_prefix _ (text.drop (leadingDigits text))
        exact hpoint ⟨rest ++ more, hmore.symm⟩

/-- Behind a number the text may be cut, and where there is none it may be cut anywhere. -/
theorem numberLength_take {text : List Char} {n : Nat} (h : numberLength text ≤ n) :
    numberLength (text.take n) = numberLength text := by
  rw [numberLength_eq] at h ⊢
  rw [numberLength_eq]
  split at h
  next hnone =>
    rw [mantissaLength_take (by omega), if_pos hnone, if_pos hnone]
  next hsome =>
    rw [mantissaLength_take (by omega), if_neg hsome, if_neg hsome, List.drop_take,
      exponentLength_take (by omega)]

theorem stringContent?_take {quote : Char} {text content : List Char} {length n : Nat}
    (h : stringContent? quote text = some (content, length)) (hle : length ≤ n) :
    stringContent? quote (text.take n) = some (content, length) := by
  fun_induction stringContent? quote text generalizing content length n with
  | case1 => cases h
  | case2 c rest hquote =>
      cases h
      obtain ⟨n, rfl⟩ := Nat.exists_eq_add_of_le' hle
      rw [List.take_succ_cons, stringContent?.eq_def]
      simp only [hquote, if_true]
  | case3 => cases h
  | case4 c hquote hescape e more ih =>
      obtain ⟨⟨inner, count⟩, hinner, heq⟩ := Option.map_eq_some_iff.mp h
      cases heq
      obtain ⟨n, rfl⟩ := Nat.exists_eq_add_of_le' hle
      rw [← Nat.add_assoc, List.take_succ_cons, List.take_succ_cons, stringContent?.eq_def]
      simp only [hquote, hescape, if_true, Bool.false_eq_true, if_false,
        ih hinner (Nat.le_add_left count n),
        Option.map_some]
  | case5 c rest hquote hescape ih =>
      obtain ⟨⟨inner, count⟩, hinner, heq⟩ := Option.map_eq_some_iff.mp h
      cases heq
      obtain ⟨n, rfl⟩ := Nat.exists_eq_add_of_le' hle
      rw [← Nat.add_assoc, List.take_succ_cons, stringContent?.eq_def]
      simp only [hquote, hescape, Bool.false_eq_true, if_false, ih hinner (Nat.le_add_left count n),
        Option.map_some]

theorem Operator.length_spelling_pos (op : Operator) : 0 < op.spelling.length := by
  cases op <;> decide

/-- What a text may begin with: a number, a closed string, an operator, a symbol or a word. -/
theorem lexeme?_cases {text : List Char} {lexeme : Lexeme} {length : Nat}
    (h : lexeme? text = some (lexeme, length)) :
    (numberLength text ≠ 0 ∧ lexeme = .number (text.take (numberLength text)) ∧
        length = numberLength text) ∨
      ∃ c rest, text = c :: rest ∧
        ((∃ content count, stringContent? c rest = some (content, count) ∧
            lexeme = .string (String.ofList content) ∧ length = count + 1) ∨
          (∃ op : Operator, op.spelling.toList <+: text ∧ lexeme = .operator op ∧
            length = op.spelling.length) ∨
          (∃ symbol : Symbol, symbol.char = c ∧ lexeme = .symbol symbol ∧ length = 1) ∨
          Text.isIdentifierStart c = true ∧
            lexeme = wordLexeme (c :: rest.takeWhile Text.isIdentifierPart) ∧
            length = (rest.takeWhile Text.isIdentifierPart).length + 1) := by
  rw [lexeme?.eq_def] at h
  dsimp only at h
  split at h
  next hnumber =>
    cases h
    exact .inl ⟨hnumber, rfl, rfl⟩
  next hnumber =>
    clear hnumber
    split at h
    next => cases h
    next c rest =>
      refine .inr ⟨c, rest, rfl, ?_⟩
      split at h
      next =>
        obtain ⟨⟨content, count⟩, hcontent, heq⟩ := Option.map_eq_some_iff.mp h
        cases heq
        exact .inl ⟨content, count, hcontent, rfl, rfl⟩
      next =>
        split at h
        next op hop =>
          cases h
          have hfront := (List.find?_eq_some_iff_append.mp hop).1
          exact .inr (.inl ⟨op, List.isPrefixOf_iff_prefix.mp hfront, rfl, rfl⟩)
        next =>
          split at h
          next symbol hsymbol =>
            cases h
            have hchar := List.find?_some hsymbol
            exact .inr (.inr (.inl ⟨symbol, beq_iff_eq.mp hchar, rfl, rfl⟩))
          next =>
            split at h
            next hstart =>
              cases h
              exact .inr (.inr (.inr ⟨hstart, rfl, rfl⟩))
            next => cases h

theorem length_pos_of_lexeme? {text : List Char} {lexeme : Lexeme} {length : Nat}
    (h : lexeme? text = some (lexeme, length)) : 0 < length := by
  obtain ⟨hnumber, -, rfl⟩ | ⟨c, rest, -, ⟨_, _, -, -, rfl⟩ | ⟨op, -, -, rfl⟩ | ⟨_, -, -, rfl⟩ |
    ⟨-, -, rfl⟩⟩ := lexeme?_cases h
  · exact Nat.pos_of_ne_zero hnumber
  · exact Nat.succ_pos _
  · exact op.length_spelling_pos
  · exact Nat.one_pos
  · exact Nat.succ_pos _

/-- An operator that is not cut is found as before. -/
theorem find?_operator_take {text : List Char} {op : Operator} {n : Nat}
    (h : Operator.all.find? (fun op => op.spelling.toList.isPrefixOf text) = some op)
    (hle : op.spelling.length ≤ n) :
    Operator.all.find? (fun op => op.spelling.toList.isPrefixOf (text.take n)) = some op := by
  obtain ⟨hsame, front, back, hall, hfront⟩ := List.find?_eq_some_iff_append.mp h
  refine List.find?_eq_some_iff_append.mpr ⟨?_, front, back, hall, fun other hother => ?_⟩
  · rw [List.isPrefixOf_iff_prefix] at hsame ⊢
    exact List.prefix_take_iff.mpr ⟨hsame, by rwa [String.length_toList]⟩
  · have hnot := hfront other hother
    rw [Bool.not_eq_true', Bool.eq_false_iff, ne_eq, List.isPrefixOf_iff_prefix] at hnot ⊢
    exact fun htake => hnot (List.prefix_take_iff.mp htake).1

theorem find?_operator_take_eq_none {text : List Char}
    (h : Operator.all.find? (fun op => op.spelling.toList.isPrefixOf text) = none) (n : Nat) :
    Operator.all.find? (fun op => op.spelling.toList.isPrefixOf (text.take n)) = none := by
  refine List.find?_eq_none.mpr fun op hop htake => List.find?_eq_none.mp h op hop ?_
  rw [List.isPrefixOf_iff_prefix] at htake ⊢
  exact (List.prefix_take_iff.mp htake).1

/-- Whatever stands at the beginning of a text stands there when the text is cut behind it. -/
theorem lexeme?_take {text : List Char} {lexeme : Lexeme} {length n : Nat}
    (h : lexeme? text = some (lexeme, length)) (hle : length ≤ n) :
    lexeme? (text.take n) = some (lexeme, length) := by
  have hpos := length_pos_of_lexeme? h
  obtain ⟨m, rfl⟩ : ∃ m, n = m + 1 := ⟨n - 1, by omega⟩
  rw [lexeme?.eq_def] at h ⊢
  dsimp only at h ⊢
  split at h
  next hnumber =>
    cases h
    rw [numberLength_take hle, if_pos hnumber, List.take_take, Nat.min_eq_left hle]
  next hnumber =>
    rw [numberLength_take (by omega), if_neg hnumber]
    split at h
    next => cases h
    next c rest =>
      rw [List.take_succ_cons]
      dsimp only
      split at h
      next hquote =>
        rw [if_pos hquote]
        obtain ⟨⟨content, count⟩, hcontent, heq⟩ := Option.map_eq_some_iff.mp h
        cases heq
        rw [stringContent?_take hcontent (by omega)]
        rfl
      next hquote =>
        rw [if_neg hquote]
        split at h
        next op hop =>
          cases h
          have htake := find?_operator_take hop hle
          rw [List.take_succ_cons] at htake
          rw [htake]
        next hop =>
          have htake := find?_operator_take_eq_none hop (m + 1)
          rw [List.take_succ_cons] at htake
          rw [htake]
          dsimp only
          split at h
          next symbol hsymbol =>
            cases h
            rfl
          next hsymbol =>
            split at h
            next hstart =>
              cases h
              rw [if_pos hstart, ← List.take_takeWhile, List.take_of_length_le]
              simpa using hle
            next => cases h

/-! ## Lengths of lexemes -/

theorem leadingDigits_le (text : List Char) : leadingDigits text ≤ text.length :=
  (List.takeWhile_sublist _).length_le

theorem exponentLength_le (text : List Char) : exponentLength text ≤ text.length := by
  cases text with
  | nil => exact Nat.le_refl 0
  | cons mark rest =>
      have hdigits := leadingDigits_le (rest.drop (signLength rest))
      rw [List.length_drop] at hdigits
      rw [exponentLength_cons, List.length_cons]
      split
      next =>
        split
        next => omega
        next => omega
      next => omega

theorem mantissaLength_le (text : List Char) : mantissaLength text ≤ text.length := by
  have hwhole := leadingDigits_le text
  by_cases hpoint : ∃ rest, text.drop (leadingDigits text) = '.' :: rest
  · obtain ⟨rest, hrest⟩ := hpoint
    have hlength := congrArg List.length hrest
    have hfraction := leadingDigits_le rest
    rw [List.length_drop, List.length_cons] at hlength
    rw [mantissaLength_of_point hrest]
    split <;> omega
  · rw [mantissaLength_of_no_point fun rest hrest => hpoint ⟨rest, hrest⟩]
    exact hwhole

theorem numberLength_le (text : List Char) : numberLength text ≤ text.length := by
  have hmantissa := mantissaLength_le text
  have hexponent := exponentLength_le (text.drop (mantissaLength text))
  rw [List.length_drop] at hexponent
  rw [numberLength_eq]
  split <;> omega

theorem length_le_of_stringContent? {quote : Char} {text content : List Char} {length : Nat}
    (h : stringContent? quote text = some (content, length)) : length ≤ text.length := by
  fun_induction stringContent? quote text generalizing content length with
  | case1 => cases h
  | case2 c rest hquote =>
      cases h
      exact Nat.succ_pos _
  | case3 => cases h
  | case4 c hquote hescape e more ih | case5 c more hquote hescape ih =>
      obtain ⟨⟨inner, count⟩, hinner, heq⟩ := Option.map_eq_some_iff.mp h
      cases heq
      have hle := ih hinner
      simp only [List.length_cons]
      omega

theorem length_le_of_lexeme? {text : List Char} {lexeme : Lexeme} {length : Nat}
    (h : lexeme? text = some (lexeme, length)) : length ≤ text.length := by
  obtain ⟨-, -, rfl⟩ | ⟨c, rest, rfl, ⟨_, _, hcontent, -, rfl⟩ | ⟨op, hfront, -, rfl⟩ |
    ⟨_, -, -, rfl⟩ | ⟨-, -, rfl⟩⟩ := lexeme?_cases h
  · exact numberLength_le text
  · exact Nat.succ_le_succ (length_le_of_stringContent? hcontent)
  · rw [← String.length_toList]
    exact hfront.length_le
  · exact Nat.succ_pos _
  · exact Nat.succ_le_succ (List.takeWhile_sublist _).length_le

/-! ## Lexemes with a blank behind them -/

theorem takeWhile_append_cons {p : Char → Bool} {c : Char} (h : p c = false)
    (text rest : List Char) : (text ++ c :: rest).takeWhile p = text.takeWhile p := by
  induction text with
  | nil => simp [h]
  | cons d text ih => simp only [List.cons_append, List.takeWhile_cons, ih]

/-- A blank is no part of a number, an operator, a symbol or a name. -/
theorem apart_of_isBlank {c : Char} (h : Text.isBlank c = true) :
    Text.isDecimalDigit c = false ∧ isOperatorSign c = false ∧ Text.isIdentifierPart c = false ∧
      c ∉ ['e', 'E', '+', '-', '.'] := by
  have hsigns : (operatorSigns ++ ['e', 'E', '.']).all (fun d => !Text.isBlank d) = true := by
    decide
  have hnot {d : Char} (hd : d ∈ operatorSigns ++ ['e', 'E', '.']) : c ≠ d := by
    rintro rfl
    have hblank := List.all_eq_true.mp hsigns c hd
    rw [h] at hblank
    cases hblank
  refine ⟨?_, ?_, Text.isIdentifierPart_of_isBlank h, fun hmem => ?_⟩
  · rw [Text.isDecimalDigit, Option.isSome_eq_false_iff, Option.isNone_iff_eq_none,
      Option.eq_none_iff_forall_ne_some]
    intro value hvalue
    rw [Text.isBlank_of_decimalValue? hvalue] at h
    cases h
  · rw [isOperatorSign, Bool.eq_false_iff]
    intro hsign
    exact hnot (List.mem_append_left _ (List.contains_iff_mem.mp hsign)) rfl
  · simp only [List.mem_cons, List.not_mem_nil, or_false] at hmem
    rcases hmem with rfl | rfl | rfl | rfl | rfl <;> exact hnot (by decide) rfl

section

variable {c : Char} (hblank : Text.isBlank c = true)

include hblank

theorem leadingDigits_append (text rest : List Char) :
    leadingDigits (text ++ c :: rest) = leadingDigits text := by
  rw [leadingDigits, takeWhile_append_cons (apart_of_isBlank hblank).1, leadingDigits]

theorem exponentLength_append (text rest : List Char) :
    exponentLength (text ++ c :: rest) = exponentLength text := by
  have hmarks := (apart_of_isBlank hblank).2.2.2
  simp only [List.mem_cons, List.not_mem_nil, or_false, not_or] at hmarks
  cases text with
  | nil =>
      rw [List.nil_append, exponentLength_cons, if_neg (by simp [hmarks])]
      rfl
  | cons mark more =>
      have hsign : signLength (more ++ c :: rest) = signLength more := by
        cases more with
        | nil => simp [signLength, hmarks]
        | cons d more => exact signLength_cons d _ _
      have hle : signLength more ≤ more.length := by
        cases more with
        | nil => exact Nat.le_refl 0
        | cons d more => exact (signLength_le _).trans (Nat.succ_pos _)
      rw [List.cons_append, exponentLength_cons, exponentLength_cons, hsign,
        List.drop_append_of_le_length hle, leadingDigits_append hblank]

theorem mantissaLength_append (text rest : List Char) :
    mantissaLength (text ++ c :: rest) = mantissaLength text := by
  have hmarks := (apart_of_isBlank hblank).2.2.2
  simp only [List.mem_cons, List.not_mem_nil, or_false, not_or] at hmarks
  have hwhole := leadingDigits_append hblank text rest
  have hle := leadingDigits_le text
  have hdrop : (text ++ c :: rest).drop (leadingDigits (text ++ c :: rest)) =
      text.drop (leadingDigits text) ++ c :: rest := by
    rw [hwhole, List.drop_append_of_le_length hle]
  by_cases hpoint : ∃ more, text.drop (leadingDigits text) = '.' :: more
  · obtain ⟨more, hmore⟩ := hpoint
    rw [hmore, List.cons_append] at hdrop
    rw [mantissaLength_of_point hdrop, mantissaLength_of_point hmore, hwhole,
      leadingDigits_append hblank]
  · rw [mantissaLength_of_no_point fun more hmore => hpoint ⟨more, hmore⟩,
      mantissaLength_of_no_point, hwhole]
    intro more hmore
    rw [hdrop] at hmore
    cases hbehind : text.drop (leadingDigits text) with
    | nil =>
        rw [hbehind] at hmore
        exact hmarks.2.2.2.2 (List.cons.inj hmore).1
    | cons d others =>
        rw [hbehind] at hmore
        exact hpoint ⟨others, by rw [hbehind, (List.cons.inj hmore).1]⟩

theorem numberLength_append (text rest : List Char) :
    numberLength (text ++ c :: rest) = numberLength text := by
  rw [numberLength_eq, numberLength_eq, mantissaLength_append hblank,
    List.drop_append_of_le_length (mantissaLength_le text), exponentLength_append hblank]

omit hblank in
/-- A string is closed, so that anything may stand behind it. -/
theorem stringContent?_append {quote : Char} {text content : List Char} {length : Nat}
    (h : stringContent? quote text = some (content, length)) (rest : List Char) :
    stringContent? quote (text ++ rest) = some (content, length) := by
  fun_induction stringContent? quote text generalizing content length with
  | case1 => cases h
  | case2 c more hquote =>
      rw [List.cons_append, stringContent?.eq_def]
      simpa only [hquote, if_true] using h
  | case3 => cases h
  | case4 c hquote hescape e more ih =>
      obtain ⟨⟨inner, count⟩, hinner, heq⟩ := Option.map_eq_some_iff.mp h
      cases heq
      rw [List.cons_append, List.cons_append, stringContent?.eq_def]
      simp only [hquote, hescape, if_true, Bool.false_eq_true, if_false, ih hinner,
        Option.map_some]
  | case5 c more hquote hescape ih =>
      obtain ⟨⟨inner, count⟩, hinner, heq⟩ := Option.map_eq_some_iff.mp h
      cases heq
      rw [List.cons_append, stringContent?.eq_def]
      simp only [hquote, hescape, Bool.false_eq_true, if_false, ih hinner, Option.map_some]

/-- What stands at the beginning of a text stands there when a blank and more are put behind the
text. -/
theorem lexeme?_append {text : List Char} {lexeme : Lexeme} {length : Nat}
    (h : lexeme? text = some (lexeme, length)) (rest : List Char) :
    lexeme? (text ++ c :: rest) = some (lexeme, length) := by
  obtain ⟨-, hsign, hpart, -⟩ := apart_of_isBlank hblank
  rw [lexeme?.eq_def] at h ⊢
  dsimp only at h ⊢
  rw [numberLength_append hblank]
  split at h
  next hnumber =>
    rw [if_pos hnumber, List.take_append_of_le_length (numberLength_le text)]
    exact h
  next hnumber =>
    rw [if_neg hnumber]
    split at h
    next => cases h
    next d more =>
      rw [List.cons_append]
      dsimp only
      split at h
      next hquote =>
        obtain ⟨⟨content, count⟩, hcontent, heq⟩ := Option.map_eq_some_iff.mp h
        rw [if_pos hquote, stringContent?_append hcontent]
        exact congrArg some heq
      next hquote =>
        have hsame (op : Operator) :
            op.spelling.toList.isPrefixOf (d :: (more ++ c :: rest)) =
              op.spelling.toList.isPrefixOf (d :: more) :=
          @isPrefixOf_append_of_signs _ (d :: more) (c :: rest) op.isOperatorSign_of_mem
            (by rintro _ ⟨⟩; exact hsign)
        rw [if_neg hquote]
        simp only [hsame, takeWhile_append_cons hpart]
        exact h

end

/-! ## Tokens -/

/-- The position of the first token, or else the end. -/
def headPosition (stop : Nat) : List Token → Nat
  | [] => stop
  | token :: _ => token.position

theorem le_position_of_tokensFrom {position : Nat} {text : List Char} {tokens : List Token}
    (h : tokensFrom position text = .ok tokens) : ∀ token ∈ tokens, position ≤ token.position := by
  fun_induction tokensFrom position text generalizing tokens with
  | case1 => cases h; simp
  | case2 position c rest hblank ih =>
      intro token htoken
      exact Nat.le_of_succ_le (ih h token htoken)
  | case3 position c rest hblank lexeme length hlexeme ih =>
      obtain ⟨following, hfollowing, h⟩ := bind_eq_ok.mp h
      cases h
      refine List.forall_mem_cons.mpr ⟨Nat.le_refl position, fun token htoken => ?_⟩
      have hle := ih hfollowing token htoken
      omega
  | case4 => cases h

theorem le_headPosition {position : Nat} {text : List Char} {front back : List Token}
    (h : tokensFrom position text = .ok (front ++ back)) :
    position ≤ headPosition (position + text.length) back := by
  cases back with
  | nil => exact Nat.le_add_right _ _
  | cons token back => exact le_position_of_tokensFrom h token (by simp)

/-- A text that is cut at a token has the tokens in front of that one. -/
theorem tokensFrom_take {position : Nat} {text : List Char} {front back : List Token}
    (h : tokensFrom position text = .ok (front ++ back)) :
    tokensFrom position
      (text.take (headPosition (position + text.length) back - position)) = .ok front := by
  generalize htokens : front ++ back = tokens at h
  fun_induction tokensFrom position text generalizing tokens front with
  | case1 position =>
      cases h
      obtain ⟨rfl, rfl⟩ := List.append_eq_nil_iff.mp htokens
      rw [List.take_nil, tokensFrom]
  | case2 position c rest hblank ih =>
      subst htokens
      have hle := le_headPosition h
      have htake := ih _ rfl h
      rw [List.length_cons, show position + (rest.length + 1) = position + 1 + rest.length by omega]
      obtain ⟨n, hn⟩ := Nat.exists_eq_add_of_le hle
      rw [hn, Nat.add_sub_cancel_left] at htake
      rw [hn, show position + 1 + n - position = n + 1 by omega, List.take_succ_cons, tokensFrom,
        if_pos hblank, htake]
  | case3 position c rest hblank lexeme length hlexeme ih =>
      obtain ⟨following, hfollowing, h⟩ := bind_eq_ok.mp h
      cases h
      cases front with
      | nil =>
          rw [List.nil_append] at htokens
          rw [htokens, headPosition, Nat.sub_self, List.take_zero, tokensFrom]
      | cons token front =>
          obtain ⟨rfl, rfl⟩ := List.cons.inj htokens
          have hpositive := length_pos_of_lexeme? hlexeme
          have hlength := length_le_of_lexeme? hlexeme
          have hle := le_headPosition hfollowing
          have htake := ih _ rfl hfollowing
          rw [List.length_cons] at hlength
          rw [List.length_drop, show position + (length - 1) + 1 + (rest.length - (length - 1)) =
            position + (rest.length + 1) by omega] at hle htake
          rw [List.length_cons]
          obtain ⟨n, hn⟩ := Nat.exists_eq_add_of_le hle
          rw [hn, Nat.add_sub_cancel_left] at htake
          have hcut := lexeme?_take hlexeme (show length ≤ length + n by omega)
          obtain ⟨k, rfl⟩ : ∃ k, length = k + 1 := ⟨length - 1, by omega⟩
          rw [show k + 1 + n = k + n + 1 by omega, List.take_succ_cons] at hcut
          rw [hn, show position + (k + 1 - 1) + 1 + n - position = k + n + 1 by omega,
            List.take_succ_cons, tokensFrom, if_neg hblank, hcut]
          simp only [Nat.add_sub_cancel, List.drop_take] at htake ⊢
          rw [show k + n - k = n by omega, htake]
          rfl
  | case4 => cases h

/-- Behind a blank the tokens of another text follow. -/
theorem tokensFrom_append {c : Char} (hblank : Text.isBlank c = true) {position : Nat}
    {text : List Char} {tokens : List Token} (h : tokensFrom position text = .ok tokens)
    (rest : List Char) :
    tokensFrom position (text ++ c :: rest) =
      (tokensFrom (position + text.length + 1) rest).map (tokens ++ ·) := by
  fun_induction tokensFrom position text generalizing tokens with
  | case1 position =>
      cases h
      rw [List.nil_append, tokensFrom, if_pos hblank, List.length_nil, Nat.add_zero]
      cases tokensFrom (position + 1) rest <;> rfl
  | case2 position d more hblank' ih =>
      rw [List.cons_append, tokensFrom, if_pos hblank', ih h, List.length_cons]
      congr 2
      omega
  | case3 position d more hblank' lexeme length hlexeme ih =>
      obtain ⟨following, hfollowing, h⟩ := bind_eq_ok.mp h
      cases h
      have hpositive := length_pos_of_lexeme? hlexeme
      have hlength := length_le_of_lexeme? hlexeme
      rw [List.length_cons] at hlength
      have hnext := lexeme?_append hblank hlexeme rest
      rw [List.cons_append] at hnext ⊢
      rw [tokensFrom, if_neg hblank', hnext]
      dsimp only
      rw [List.drop_append_of_le_length (by omega), ih hfollowing, List.length_drop,
        List.length_cons, show position + (length - 1) + 1 + (more.length - (length - 1)) + 1 =
          position + (more.length + 1) + 1 by omega]
      cases tokensFrom (position + (more.length + 1) + 1) rest <;> rfl
  | case4 => cases h

end Transclude.Expr
