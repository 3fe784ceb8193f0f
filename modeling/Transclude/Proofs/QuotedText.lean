import Mathlib
import Transclude.Proofs.Words
import Transclude.Text.Quoted

/-! # Quoted texts as words

A text between its quotes is one word of an expression. Of the escapes in it only
those of the quote, the backslash, the tabulator and the line breaks mean in an
expression what they are written for: where a character is escaped by its number,
the letter and the digits of the escape are read as they stand. -/

namespace Transclude

namespace Text

/-- Whether the escape of a character, if it has one, is read as that character. -/
def isLegible (c : Char) : Bool := isPrintable c || ['\t', '\n', '\r'].contains c

/-- The text as which a character between quotes is read. -/
def readAs (c : Char) : List Char := if isLegible c then [c] else (escapeCode c).drop 1

theorem quoteFor_cases (text : List Char) : quoteFor text = '\'' ∨ quoteFor text = '"' := by
  unfold quoteFor
  split
  next => exact Or.inr rfl
  next => exact Or.inl rfl

/-! ## Escapes -/

theorem exists_digit_of_mem_toDigits {base n : Nat} (hbase : 1 < base) {c : Char}
    (h : c ∈ Nat.toDigits base n) : ∃ digit < base, c = Nat.digitChar digit := by
  induction n using Nat.strongRecOn with
  | ind n ih =>
      rw [Nat.toDigits_eq_if hbase] at h
      split at h
      next hlt => exact ⟨n, hlt, List.mem_singleton.mp h⟩
      next hge =>
        rw [List.mem_append, List.mem_singleton] at h
        obtain h | h := h
        · exact ih _ (Nat.div_lt_self (by omega) hbase) h
        · exact ⟨n % base, Nat.mod_lt n (by omega), h⟩

theorem not_mark_of_mem_hexDigits {width n : Nat} {c : Char} (h : c ∈ hexDigits width n) :
    c ≠ '\'' ∧ c ≠ '"' ∧ c ≠ '\\' := by
  rw [hexDigits, List.mem_append] at h
  obtain h | h := h
  · rw [List.eq_of_mem_replicate h]
    decide
  · obtain ⟨digit, hdigit, rfl⟩ := exists_digit_of_mem_toDigits (by decide) h
    have hall : ∀ digit < 16, Nat.digitChar digit ≠ '\'' ∧ Nat.digitChar digit ≠ '"' ∧
        Nat.digitChar digit ≠ '\\' := by decide
    exact hall digit hdigit

/-- A character is escaped by the letter of its line break or tabulator, or else by its number in
hexadecimal digits. -/
theorem escapeCode_cases (c : Char) :
    (['\t', '\n', '\r'].contains c = true ∧
        ∃ letter, escapeCode c = ['\\', letter] ∧ Expr.escaped letter = c) ∨
      ['\t', '\n', '\r'].contains c = false ∧ ∃ letter width,
        escapeCode c = '\\' :: letter :: hexDigits width c.toNat ∧
          Expr.escaped letter = letter := by
  by_cases hbreak : c ∈ ['\t', '\n', '\r']
  · refine Or.inl ⟨List.contains_iff_mem.mpr hbreak, ?_⟩
    simp only [List.mem_cons, List.not_mem_nil, or_false] at hbreak
    rcases hbreak with rfl | rfl | rfl <;> exact ⟨_, rfl, rfl⟩
  · refine Or.inr ⟨by rwa [Bool.eq_false_iff, ne_eq, List.contains_iff_mem], ?_⟩
    simp only [List.mem_cons, List.not_mem_nil, or_false, not_or] at hbreak
    simp only [escapeCode, beq_iff_eq, hbreak, if_false]
    split
    next => exact ⟨'x', 2, rfl, rfl⟩
    next =>
      split
      next => exact ⟨'u', 4, rfl, rfl⟩
      next => exact ⟨'U', 8, rfl, rfl⟩

/-! ## Legible texts -/

/-- An escape that is not read as its character is read as several ones. -/
theorem length_readAs (c : Char) : 1 ≤ (readAs c).length ∧
    ((readAs c).length = 1 → isLegible c = true) := by
  unfold readAs
  split
  next hlegible => exact ⟨Nat.le_refl 1, fun _ => hlegible⟩
  next hlegible =>
    obtain ⟨hbreak, _⟩ | ⟨_, letter, width, hcode, _⟩ := escapeCode_cases c
    · exact absurd (by rw [isLegible, hbreak, Bool.or_true]) hlegible
    · have hdigits := List.length_pos_iff.mpr (@Nat.toDigits_ne_nil c.toNat 16)
      rw [hcode, List.drop_succ_cons, List.drop_zero, List.length_cons, hexDigits,
        List.length_append]
      omega

theorem length_le_flatMap_readAs (text : List Char) :
    text.length ≤ (text.flatMap readAs).length := by
  induction text with
  | nil => exact Nat.le_refl 0
  | cons c text ih =>
      have hc := (length_readAs c).1
      rw [List.flatMap_cons, List.length_append, List.length_cons]
      omega

/-- A quoted text is read as itself exactly when all of its characters are. -/
theorem flatMap_readAs_eq_iff (text : List Char) :
    text.flatMap readAs = text ↔ text.all isLegible = true := by
  induction text with
  | nil => simp
  | cons c text ih =>
      rw [List.flatMap_cons, List.all_cons, Bool.and_eq_true, ← ih]
      constructor
      · intro h
        have hlength := congrArg List.length h
        have hle := length_le_flatMap_readAs text
        obtain ⟨hpos, hone⟩ := length_readAs c
        rw [List.length_append, List.length_cons] at hlength
        have hlegible := hone (by omega)
        rw [readAs, if_pos hlegible] at h
        exact ⟨hlegible, (List.cons.inj h).2⟩
      · rintro ⟨hc, htext⟩
        rw [readAs, if_pos hc, htext, List.singleton_append]

end Text

namespace Expr

open Text

/-! ## Between quotes -/

/-- Between the given quotes some code is read as a text, whatever follows it. -/
def Decodes (quote : Char) (code text : List Char) : Prop :=
  ∀ rest content length, stringContent? quote rest = some (content, length) →
    stringContent? quote (code ++ rest) = some (text ++ content, length + code.length)

namespace Decodes

variable {quote : Char} {code code' text text' : List Char}

theorem nil : Decodes quote [] [] := fun _ _ _ h => h

theorem append (h : Decodes quote code text) (h' : Decodes quote code' text') :
    Decodes quote (code ++ code') (text ++ text') := by
  intro rest content length hrest
  rw [List.append_assoc, h _ _ _ (h' _ _ _ hrest), List.append_assoc, List.length_append,
    Nat.add_assoc, Nat.add_comm code'.length]

/-- A character that is neither the quote nor a backslash stands for itself. -/
theorem char {c : Char} (hquote : c ≠ quote) (hescape : c ≠ '\\') : Decodes quote [c] [c] := by
  intro rest content length hrest
  rw [List.singleton_append, stringContent?.eq_def]
  simp [hquote, hescape, hrest]

/-- A backslash gives the character behind it a meaning. -/
theorem escape (hquote : quote ≠ '\\') (c : Char) : Decodes quote ['\\', c] [escaped c] := by
  intro rest content length hrest
  change stringContent? quote ('\\' :: c :: rest) = _
  rw [stringContent?.eq_def]
  simp [hquote.symm, hrest]

theorem chars (h : ∀ c ∈ text, c ≠ quote ∧ c ≠ '\\') : Decodes quote text text := by
  induction text with
  | nil => exact nil
  | cons c text ih =>
      obtain ⟨hc, htext⟩ := List.forall_mem_cons.mp h
      exact (char hc.1 hc.2).append (ih htext)

theorem flatMap {encode decode : Char → List Char} (text : List Char)
    (h : ∀ c, Decodes quote (encode c) (decode c)) :
    Decodes quote (text.flatMap encode) (text.flatMap decode) := by
  induction text with
  | nil => exact nil
  | cons c text ih =>
      rw [List.flatMap_cons, List.flatMap_cons]
      exact (h c).append ih

end Decodes

theorem decodes_quoteChar {quote : Char} (hquote : quote = '\'' ∨ quote = '"') (c : Char) :
    Decodes quote (quoteChar quote c) (readAs c) := by
  have hbackslash : quote ≠ '\\' := by rcases hquote with rfl | rfl <;> decide
  unfold quoteChar
  by_cases hmark : c = quote ∨ c = '\\'
  · -- the quote and the backslash are printable and stand for themselves behind a backslash
    obtain ⟨hlegible, hescaped⟩ : isLegible c = true ∧ escaped c = c := by
      obtain rfl | rfl := hmark
      · rcases hquote with rfl | rfl <;> decide
      · decide
    rw [if_pos (by simpa using hmark), readAs, if_pos hlegible]
    simpa only [hescaped] using Decodes.escape hbackslash c
  · rw [if_neg (by simpa using hmark)]
    rw [not_or] at hmark
    split
    next hprintable =>
      rw [readAs, isLegible, hprintable, Bool.true_or, if_pos rfl]
      exact .char hmark.1 hmark.2
    next hprintable =>
      rw [readAs, isLegible, Bool.eq_false_iff.mpr hprintable, Bool.false_or]
      obtain ⟨hbreak, letter, hcode, hescaped⟩ | ⟨hbreak, letter, width, hcode, hescaped⟩ :=
        escapeCode_cases c
      · rw [hbreak, if_pos rfl, hcode]
        simpa only [hescaped] using Decodes.escape hbackslash letter
      · have hdigits : Decodes quote (hexDigits width c.toNat) (hexDigits width c.toNat) := by
          refine .chars fun d hd => ?_
          have hmarks := not_mark_of_mem_hexDigits hd
          obtain rfl | rfl := hquote
          · exact ⟨hmarks.1, hmarks.2.2⟩
          · exact ⟨hmarks.2.1, hmarks.2.2⟩
        rw [hbreak, if_neg Bool.false_ne_true, hcode, List.drop_succ_cons, List.drop_zero]
        have hcode := (Decodes.escape hbackslash letter).append hdigits
        rwa [hescaped] at hcode

/-- A text with its quotes is a word, whatever follows it. -/
theorem word_quoted (text rest : List Char) :
    Word (quoted text) (.string (String.ofList (text.flatMap readAs))) rest := by
  have hquote := quoteFor_cases text
  have hcontent := Decodes.flatMap text (decodes_quoteChar hquote)
  unfold quoted
  dsimp only
  generalize quoteFor text = quote at hquote hcontent
  obtain ⟨hblank, hdigit, hpoint, hmark⟩ : isBlank quote = false ∧ isDecimalDigit quote = false ∧
      quote ≠ '.' ∧ (quote == '\'' || quote == '"') = true := by
    rcases hquote with rfl | rfl <;> decide
  have hclosed : stringContent? quote (quote :: rest) = some ([], 1) := by
    rw [stringContent?.eq_def]
    simp
  refine ⟨⟨quote, _, rfl, hblank⟩, ?_⟩
  rw [List.cons_append, List.cons_append, List.append_assoc, List.singleton_append, lexeme?.eq_def,
    numberLength_of_head hdigit hpoint]
  simp only [ne_eq, not_true_eq_false, if_false, hmark, if_true, hcontent _ _ _ hclosed,
    List.append_nil, Option.map_some, List.length_cons, List.length_append, List.length_nil]
  congr 2
  omega

end Expr

end Transclude
