import Mathlib
import Transclude.Bracket

/-! # Steps of the bracket scan

What the scan for a closing bracket does with each kind of character, and with
whole quotations. -/

namespace Transclude.Bracket

variable {minds : Bool} {opening closing quote c : Char} {depth : Int} {rest : List Char}

theorem closingFrom_inside (hquote : c ≠ quote) (hslash : c ≠ '\\') :
    closingFrom minds opening closing depth (some quote) (c :: rest) =
      (closingFrom minds opening closing depth (some quote) rest).map (· + 1) := by
  rw [closingFrom.eq_def]
  simp [hquote, hslash]

theorem closingFrom_escape (e : Char) :
    closingFrom minds opening closing depth (some quote) ('\\' :: e :: rest) =
      (closingFrom minds opening closing depth (some quote) rest).map (· + 2) := by
  rw [closingFrom.eq_def]
  simp

theorem closingFrom_endQuote (hne : quote ≠ '\\') :
    closingFrom minds opening closing depth (some quote) (quote :: rest) =
      (closingFrom minds opening closing depth none rest).map (· + 1) := by
  rw [closingFrom.eq_def]
  simp [hne]

theorem closingFrom_beginQuote (hquote : isQuote c = true) :
    closingFrom true opening closing depth none (c :: rest) =
      (closingFrom true opening closing depth (some c) rest).map (· + 1) := by
  rw [closingFrom.eq_def]
  simp [hquote]

/-- A character that is a quote to no scan that minds them begins no quotation. -/
theorem not_beginsQuote (hquote : minds = true → isQuote c = false) :
    (minds && isQuote c) = false := by
  cases minds with
  | false => rfl
  | true => exact hquote rfl

theorem closingFrom_opening (hquote : minds = true → isQuote opening = false) :
    closingFrom minds opening closing depth none (opening :: rest) =
      (closingFrom minds opening closing (depth + 1) none rest).map (· + 1) := by
  rw [closingFrom.eq_def]
  simp [not_beginsQuote hquote]

theorem closingFrom_closing (hquote : minds = true → isQuote closing = false)
    (hne : closing ≠ opening) (hdepth : depth ≠ 1) :
    closingFrom minds opening closing depth none (closing :: rest) =
      (closingFrom minds opening closing (depth - 1) none rest).map (· + 1) := by
  rw [closingFrom.eq_def]
  simp [not_beginsQuote hquote, hne, hdepth]

theorem closingFrom_last (hquote : minds = true → isQuote closing = false)
    (hne : closing ≠ opening) :
    closingFrom minds opening closing 1 none (closing :: rest) = some 0 := by
  rw [closingFrom.eq_def]
  simp [not_beginsQuote hquote, hne]

theorem closingFrom_other (hquote : minds = true → isQuote c = false) (hopening : c ≠ opening)
    (hclosing : c ≠ closing) :
    closingFrom minds opening closing depth none (c :: rest) =
      (closingFrom minds opening closing depth none rest).map (· + 1) := by
  rw [closingFrom.eq_def]
  simp [not_beginsQuote hquote, hopening, hclosing]

/-- Inside a quotation the scan passes over text that holds neither the quote around it nor a
backslash. -/
theorem closingFrom_insideAll {text : List Char} (hquote : quote ∉ text) (hslash : '\\' ∉ text)
    (rest : List Char) :
    closingFrom minds opening closing depth (some quote) (text ++ rest) =
      (closingFrom minds opening closing depth (some quote) rest).map (· + text.length) := by
  induction text with
  | nil => simp
  | cons c text ih =>
      rw [List.mem_cons, not_or] at hquote hslash
      rw [List.cons_append, closingFrom_inside (Ne.symm hquote.1) (Ne.symm hslash.1),
        ih hquote.2 hslash.2, Option.map_map]
      rfl

theorem closingFrom_quoted {text : List Char} (hquote : quote ∉ text) (hslash : '\\' ∉ text)
    (hne : quote ≠ '\\') (rest : List Char) :
    closingFrom minds opening closing depth (some quote) (text ++ quote :: rest) =
      (closingFrom minds opening closing depth none rest).map (· + (text.length + 1)) := by
  rw [closingFrom_insideAll hquote hslash, closingFrom_endQuote hne, Option.map_map]
  congr 1
  funext length
  simp only [Function.comp_apply]
  omega

end Transclude.Bracket
