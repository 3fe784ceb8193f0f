import Mathlib
import Transclude.Json.Reader
import Transclude.Proofs.Conditions
import Transclude.Proofs.Inclusion
import Transclude.Proofs.Matching

/-! # The braces of a JSON text

What is read as JSON is a text in which the braces match outside of strings, and the
text of an object is bracketed by them. A scan for the brace that closes the first one
of an object, which minds quotes, ends where the object does. -/

namespace Transclude.Json

open Transclude.Bracket

/-- The text goes on with the rest behind a part in which the braces match. -/
def Crosses (text rest : List Char) : Prop :=
  ∃ part, text = part ++ rest ∧ Inside true '\x7b' '\x7d' part

namespace Crosses

variable {text middle rest : List Char}

theorem refl (text : List Char) : Crosses text text := ⟨[], rfl, .nil⟩

theorem trans (h : Crosses text middle) (h' : Crosses middle rest) : Crosses text rest := by
  obtain ⟨part, rfl, hpart⟩ := h
  obtain ⟨part', rfl, hpart'⟩ := h'
  exact ⟨part ++ part', by rw [List.append_assoc], hpart.append hpart'⟩

theorem cons {c : Char} (hc : Expr.Harmless .braces c) (h : Crosses text rest) :
    Crosses (c :: text) rest := by
  obtain ⟨part, rfl, hpart⟩ := h
  exact ⟨c :: part, rfl, .plain (fun _ => hc.1) hc.2.1 hc.2.2 hpart⟩

/-- An object is crossed when what stands between its braces is. -/
theorem braces (h : Crosses text ('\x7d' :: rest)) : Crosses ('\x7b' :: text) rest := by
  obtain ⟨part, rfl, hpart⟩ := h
  exact ⟨'\x7b' :: (part ++ ['\x7d']), by simp, hpart.group .nil⟩

theorem of_harmless {part : List Char} (h : ∀ c ∈ part, Expr.Harmless .braces c)
    (rest : List Char) : Crosses (part ++ rest) rest := by
  induction part with
  | nil => exact refl rest
  | cons c part ih =>
      obtain ⟨hc, hpart⟩ := List.forall_mem_cons.mp h
      exact cons hc (ih hpart)

/-- Harmless characters that are taken off the beginning are crossed. -/
theorem drop {part : List Char} (hbegins : part <+: text)
    (h : ∀ c ∈ part, Expr.Harmless .braces c) : Crosses text (text.drop part.length) := by
  obtain ⟨rest, rfl⟩ := hbegins
  rw [List.drop_left]
  exact of_harmless h rest

end Crosses

/-! ## Blanks, words and numbers -/

theorem crosses_skipSpace (text : List Char) : Crosses text (skipSpace text) := by
  have hspace : ∀ c ∈ text.takeWhile (fun c => c == ' ' || c == '\t' || c == '\n' || c == '\r'),
      Expr.Harmless .braces c :=
    fun c hc => Expr.harmless_of (by decide) (List.mem_takeWhile_imp hc)
  have hcrosses := Crosses.of_harmless hspace (skipSpace text)
  rwa [skipSpace, List.takeWhile_append_dropWhile] at hcrosses

theorem crosses_digits (text : List Char) :
    Crosses text (text.drop (text.takeWhile Char.isDigit).length) :=
  .drop (text.takeWhile_prefix _)
    fun _ hc => Expr.harmless_of (by decide) (List.mem_takeWhile_imp hc)

theorem crosses_wholeDigits (text : List Char) :
    Crosses text (text.drop (wholeDigits text).length) := by
  unfold wholeDigits
  split
  next rest => exact (Crosses.refl rest).cons (by decide)
  next => exact crosses_digits text

theorem crosses_fractionPart (text : List Char) :
    Crosses text (text.drop (fractionPart text).length) := by
  unfold fractionPart
  split
  next rest =>
    dsimp only
    split
    next => exact .refl _
    next => exact (crosses_digits rest).cons (by decide)
  next => exact .refl _

/-- A mark is crossed with the sign and the digits behind it, if there are digits. -/
theorem crosses_marked {mark : Char} {sign rest : List Char} (hmark : Expr.Harmless .braces mark)
    (hbegins : sign <+: rest) (hsign : ∀ c ∈ sign, Expr.Harmless .braces c) :
    Crosses (mark :: rest) ((mark :: rest).drop
      (if ((rest.drop sign.length).takeWhile Char.isDigit).isEmpty then []
        else mark :: sign ++ (rest.drop sign.length).takeWhile Char.isDigit).length) := by
  split
  next => exact .refl _
  next =>
    rw [List.cons_append, List.length_cons, List.length_append, List.drop_succ_cons,
      ← List.drop_drop]
    exact .cons hmark (.trans (.drop hbegins hsign) (crosses_digits _))

theorem crosses_exponentPart (text : List Char) :
    Crosses text (text.drop (exponentPart text).length) := by
  have hsign : ∀ sign ∈ ['-', '+'], ∀ c ∈ [sign], Expr.Harmless .braces c := by
    simp [Expr.harmless_mark]
  unfold exponentPart
  split
  next mark rest =>
    split
    next hmark =>
      have hletter : Expr.Harmless .braces mark :=
        Expr.harmless_of (p := fun c => c == 'e' || c == 'E') (by decide) hmark
      dsimp only
      split
      next rest => exact crosses_marked hletter (List.prefix_append ['-'] rest) (hsign _ (by simp))
      next rest => exact crosses_marked hletter (List.prefix_append ['+'] rest) (hsign _ (by simp))
      next => exact crosses_marked hletter List.nil_prefix (by simp)
    next => exact .refl _
  next => exact .refl _

/-- What is left behind the digits of a number, its fraction and its exponent. -/
def behindNumber (unsigned : List Char) : List Char :=
  let afterWhole := unsigned.drop (wholeDigits unsigned).length
  let afterFraction := afterWhole.drop (fractionPart afterWhole).length
  afterFraction.drop (exponentPart afterFraction).length

theorem crosses_behindNumber (unsigned : List Char) : Crosses unsigned (behindNumber unsigned) :=
  .trans (crosses_wholeDigits _) (.trans (crosses_fractionPart _) (crosses_exponentPart _))

theorem crosses_number? {text rest : List Char} {n : Number} (h : number? text = some (n, rest)) :
    Crosses text rest := by
  unfold number? at h
  split at h
  next negative unsigned hsigned =>
    have hsign : Crosses text unsigned := by
      split at hsigned
      next =>
        obtain ⟨_, rfl⟩ := Prod.mk.inj hsigned
        exact .cons (by decide) (.refl _)
      next =>
        obtain ⟨_, rfl⟩ := Prod.mk.inj hsigned
        exact .refl _
    suffices hrest : behindNumber unsigned = rest by
      rw [← hrest]
      exact hsign.trans (crosses_behindNumber unsigned)
    dsimp only at h
    split at h
    next => cases h
    next =>
      split at h
      next =>
        obtain ⟨_, _, h⟩ := Option.map_eq_some_iff.mp h
        exact (Prod.mk.inj h).2
      next =>
        obtain ⟨_, _, h⟩ := Option.map_eq_some_iff.mp h
        exact (Prod.mk.inj h).2

theorem harmless_words : ∀ word ∈ words, ∀ c ∈ word.1, Expr.Harmless .braces c := by
  have hall : (words.all fun word => word.1.all fun c => decide (Expr.Harmless .braces c)) = true := by
    decide
  intro word hword c hc
  exact of_decide_eq_true (List.all_eq_true.mp (List.all_eq_true.mp hall word hword) c hc)

theorem crosses_readPlain {text rest : List Char} {value : Content}
    (h : readPlain text = .ok (value, rest)) : Crosses text rest := by
  unfold readPlain at h
  split at h
  next word _ hword =>
    cases h
    have hbegins := List.find?_some hword
    exact .drop (List.isPrefixOf_iff_prefix.mp hbegins)
      (harmless_words _ (List.mem_of_find?_eq_some hword))
  next =>
    split at h
    next hnumber =>
      cases h
      exact crosses_number? hnumber
    next => cases h

/-! ## Strings -/

/-- Characters that may stand in a string before any others. -/
def Quotable (part : List Char) : Prop :=
  ∀ inner, Quotation '"' inner → Quotation '"' (part ++ inner)

theorem Quotable.append {part part' : List Char} (h : Quotable part) (h' : Quotable part') :
    Quotable (part ++ part') := by
  intro inner hinner
  rw [List.append_assoc]
  exact h _ (h' _ hinner)

theorem quotable_escape (c : Char) : Quotable ['\\', c] := fun _ hinner => .escape c hinner

theorem quotable_of_forall {part : List Char} (h : ∀ c ∈ part, c ≠ '"' ∧ c ≠ '\\') :
    Quotable part := by
  intro inner hinner
  induction part with
  | nil => exact hinner
  | cons c part ih =>
      obtain ⟨hc, hpart⟩ := List.forall_mem_cons.mp h
      exact .other hc.1 hc.2 (ih hpart)

theorem hexValue?_of_numberInBase? {digits : List Char} {n : Nat}
    (h : Text.numberInBase? 16 digits = some n) : ∀ c ∈ digits, (Text.hexValue? c).isSome := by
  unfold Text.numberInBase? at h
  generalize 0 = start at h
  induction digits generalizing start with
  | nil => exact List.forall_mem_nil _
  | cons c digits ih =>
      rw [List.foldlM_cons] at h
      obtain ⟨next, hnext, hrest⟩ := Option.bind_eq_some_iff.mp h
      obtain ⟨value, hvalue, _⟩ := Option.bind_eq_some_iff.mp hnext
      exact List.forall_mem_cons.mpr ⟨Option.isSome_iff_exists.mpr ⟨value, hvalue⟩, ih _ hrest⟩

/-- Four hexadecimal digits may stand in a string. -/
theorem exists_of_fourHex? {text rest : List Char} {n : Nat} (h : fourHex? text = some (n, rest)) :
    ∃ part, text = part ++ rest ∧ Quotable part := by
  unfold fourHex? at h
  split at h
  next a b c d e rest =>
    obtain ⟨_, hdigits, heq⟩ := Option.map_eq_some_iff.mp h
    obtain ⟨_, rfl⟩ := Prod.mk.inj heq
    refine ⟨[a, b, c, d], rfl, quotable_of_forall fun digit hdigit => ?_⟩
    have hvalue := hexValue?_of_numberInBase? hdigits digit hdigit
    constructor <;> rintro rfl <;> exact absurd hvalue (by decide)
  next => cases h

/-- So may what is read behind a backslash and a letter. -/
theorem exists_of_unicodeEscape {text rest : List Char} {c : Char}
    (h : unicodeEscape text = .ok (c, rest)) : ∃ part, text = part ++ rest ∧ Quotable part := by
  unfold unicodeEscape at h
  split at h
  next => cases h
  next high after hhigh =>
    obtain ⟨part, rfl, hpart⟩ := exists_of_fourHex? hhigh
    have hfirst {c' : Char} (h : (.ok (c', after) : Except Failure _) = .ok (c, rest)) :
        ∃ part', part ++ after = part' ++ rest ∧ Quotable part' := by
      obtain ⟨_, rfl⟩ := Prod.mk.inj (Except.ok.inj h)
      exact ⟨part, rfl, hpart⟩
    split at h
    next more =>
      split at h
      next => exact hfirst h
      next =>
        split at h
        next => cases h
        next low behind hlow =>
          split at h
          next =>
            obtain ⟨_, rfl⟩ := Prod.mk.inj (Except.ok.inj h)
            obtain ⟨part', rfl, hpart'⟩ := exists_of_fourHex? hlow
            exact ⟨part ++ (['\\', 'u'] ++ part'), by simp,
              hpart.append ((quotable_escape 'u').append hpart')⟩
          next => exact hfirst h
    next => exact hfirst h

/-- The rest of a string is a quotation up to its quote. -/
theorem exists_of_readString {start text rest chars : List Char} {fuel : Nat}
    (h : readString start fuel text = .ok (chars, rest)) :
    ∃ inner, text = inner ++ '"' :: rest ∧ Quotation '"' inner := by
  fun_induction readString start fuel text generalizing chars with
  | case1 => cases h
  | case2 => cases h
  | case3 fuel c behind hquote =>
      cases h
      exact ⟨[], by rw [beq_iff_eq.mp hquote]; rfl, .nil⟩
  | case4 => cases h
  | case5 fuel c hquote hslash e more hu ih =>
      obtain ⟨⟨char, after⟩, hescape, h⟩ := bind_eq_ok.mp h
      obtain ⟨⟨others, final⟩, hothers, heq⟩ := bind_eq_ok.mp h
      cases heq
      obtain ⟨part, rfl, hpart⟩ := exists_of_unicodeEscape hescape
      obtain ⟨inner, rfl, hinner⟩ := ih after hothers
      exact ⟨c :: e :: (part ++ inner), by simp,
        by rw [beq_iff_eq.mp hslash]; exact .escape e (hpart inner hinner)⟩
  | case6 => cases h
  | case7 fuel c hquote hslash e more hu char hchar ih =>
      obtain ⟨⟨others, final⟩, hothers, heq⟩ := bind_eq_ok.mp h
      cases heq
      obtain ⟨inner, rfl, hinner⟩ := ih hothers
      exact ⟨c :: e :: inner, rfl, by rw [beq_iff_eq.mp hslash]; exact .escape e hinner⟩
  | case8 => cases h
  | case9 fuel c more hquote hslash hcontrol ih =>
      obtain ⟨⟨others, final⟩, hothers, heq⟩ := bind_eq_ok.mp h
      cases heq
      obtain ⟨inner, rfl, hinner⟩ := ih hothers
      exact ⟨c :: inner, rfl, .other (by simpa using hquote) (by simpa using hslash) hinner⟩

theorem crosses_stringAt {text rest : List Char} {s : String} (h : stringAt text = .ok (s, rest)) :
    Crosses ('"' :: text) rest := by
  obtain ⟨⟨chars, behind⟩, hread, heq⟩ := bind_eq_ok.mp h
  cases heq
  obtain ⟨inner, rfl, hinner⟩ := exists_of_readString hread
  exact ⟨'"' :: (inner ++ ['"']), by simp, .quoted rfl rfl hinner .nil⟩

/-! ## Values -/

/-- What the readers of values, entries and items with a bound on the depth have read is crossed. The
entries are read up to their closing brace. -/
structure ReadersCross (fuel : Nat) : Prop where
  value : ∀ {text rest value}, readValue fuel text = .ok (value, rest) → Crosses text rest
  entries : ∀ {before text found rest}, readEntries fuel before text = .ok (found, rest) →
    Crosses text ('\x7d' :: rest)
  items : ∀ {text items rest}, readItems fuel text = .ok (items, rest) → Crosses text rest

section

variable {fuel : Nat} {text rest : List Char}

/-- Behind the opening brace of an object, what is read is crossed up to its closing brace. -/
theorem crosses_object (hreaders : ReadersCross fuel) {value : Content}
    (h : readValue (fuel + 1) ('\x7b' :: text) = .ok (value, rest)) :
    Crosses text ('\x7d' :: rest) := by
  simp only [readValue] at h
  split at h
  next after hend =>
    cases h
    rw [← hend]
    exact crosses_skipSpace text
  next =>
    obtain ⟨⟨entries, after⟩, hentries, heq⟩ := bind_eq_ok.mp h
    cases heq
    exact (crosses_skipSpace text).trans (hreaders.entries hentries)

theorem crosses_array (hreaders : ReadersCross fuel) {value : Content}
    (h : readValue (fuel + 1) ('[' :: text) = .ok (value, rest)) : Crosses text rest := by
  simp only [readValue] at h
  split at h
  next after hend =>
    cases h
    have hspace := crosses_skipSpace text
    rw [hend] at hspace
    exact hspace.trans (.cons (by decide) (.refl _))
  next =>
    obtain ⟨⟨items, after⟩, hitems, heq⟩ := bind_eq_ok.mp h
    cases heq
    exact (crosses_skipSpace text).trans (hreaders.items hitems)

theorem crosses_readValue (hreaders : ReadersCross fuel) {value : Content}
    (h : readValue (fuel + 1) text = .ok (value, rest)) : Crosses text rest := by
  unfold readValue at h
  split at h
  next =>
    obtain ⟨⟨s, after⟩, hstring, heq⟩ := bind_eq_ok.mp h
    cases heq
    exact crosses_stringAt hstring
  next => exact (crosses_object hreaders h).braces
  next => exact .cons (by decide) (crosses_array hreaders h)
  next => exact crosses_readPlain h

theorem crosses_readEntries (hreaders : ReadersCross fuel) {before found : Entries Unit}
    (h : readEntries (fuel + 1) before text = .ok (found, rest)) : Crosses text ('\x7d' :: rest) := by
  unfold readEntries at h
  split at h
  next text =>
    obtain ⟨⟨name, afterName⟩, hname, h⟩ := bind_eq_ok.mp h
    dsimp only at h
    split at h
    next afterColon hcolon =>
      obtain ⟨⟨value, afterValue⟩, hvalue, h⟩ := bind_eq_ok.mp h
      have hentry : Crosses ('"' :: text) (skipSpace afterValue) := by
        have hspace := crosses_skipSpace afterName
        rw [hcolon] at hspace
        have hbehind : Crosses (':' :: afterColon) (skipSpace afterValue) :=
          .cons (by decide) (.trans (crosses_skipSpace afterColon)
            (.trans (hreaders.value hvalue) (crosses_skipSpace afterValue)))
        exact (crosses_stringAt hname).trans (hspace.trans hbehind)
      dsimp only at h
      split at h
      next after hend =>
        cases h
        rwa [hend] at hentry
      next more hcomma =>
        rw [hcomma] at hentry
        exact hentry.trans (.cons (by decide)
          (.trans (crosses_skipSpace more) (hreaders.entries h)))
      next => cases h
    next => cases h
  next => cases h

theorem crosses_readItems (hreaders : ReadersCross fuel) {items : List Content}
    (h : readItems (fuel + 1) text = .ok (items, rest)) : Crosses text rest := by
  unfold readItems at h
  obtain ⟨⟨item, afterItem⟩, hitem, h⟩ := bind_eq_ok.mp h
  have hcrosses := (hreaders.value hitem).trans (crosses_skipSpace afterItem)
  dsimp only at h
  split at h
  next after hend =>
    cases h
    rw [hend] at hcrosses
    exact hcrosses.trans (.cons (by decide) (.refl _))
  next more hcomma =>
    obtain ⟨⟨others, after⟩, hothers, heq⟩ := bind_eq_ok.mp h
    cases heq
    rw [hcomma] at hcrosses
    exact hcrosses.trans (.cons (by decide)
      (.trans (crosses_skipSpace more) (hreaders.items hothers)))
  next => cases h

end

theorem readers_cross (fuel : Nat) : ReadersCross fuel := by
  induction fuel with
  | zero => exact ⟨nofun, nofun, nofun⟩
  | succ fuel ih => exact ⟨crosses_readValue ih, crosses_readEntries ih, crosses_readItems ih⟩

/-! ## Objects -/

/-- Only what begins with a brace is read as an object. -/
theorem exists_of_readValue {fuel : Nat} {text rest : List Char} {entries : Entries Unit}
    (h : readValue (fuel + 1) text = .ok (.map () entries, rest)) :
    ∃ inside, text = '\x7b' :: inside := by
  have hwords : ∀ word ∈ words, ∀ entries, word.2 ≠ .map () entries := by simp [words]
  unfold readValue at h
  split at h
  next =>
    obtain ⟨_, _, heq⟩ := bind_eq_ok.mp h
    cases heq
  next inside => exact ⟨inside, rfl⟩
  next =>
    split at h
    next => cases h
    next =>
      obtain ⟨_, _, heq⟩ := bind_eq_ok.mp h
      cases heq
  next =>
    unfold readPlain at h
    split at h
    next hword =>
      obtain ⟨heq, _⟩ := Prod.mk.inj (Except.ok.inj h)
      exact absurd heq (hwords _ (List.mem_of_find?_eq_some hword) entries)
    next => split at h <;> cases h

/-- What JSON skips is blank. -/
theorem isBlank_of_space {c : Char} (h : (c == ' ' || c == '\t' || c == '\n' || c == '\r') = true) :
    Text.isBlank c = true := by
  simp only [Bool.or_eq_true, beq_iff_eq] at h
  rcases h with ((rfl | rfl) | rfl) | rfl <;> decide

theorem skipSpace_of_head {c : Char} (h : Text.isBlank c = false) (rest : List Char) :
    skipSpace (c :: rest) = c :: rest := by
  refine List.dropWhile_cons_of_neg fun hspace => ?_
  rw [isBlank_of_space hspace] at h
  cases h

theorem eq_nil_of_skipSpace {front rest : List Char} {last : Char}
    (hlast : (front ++ rest).getLast? = some last) (hblank : Text.isBlank last = false)
    (hrest : skipSpace rest = []) : rest = [] := by
  by_contra hne
  rw [List.getLast?_append_of_ne_nil front hne] at hlast
  have hspace := List.dropWhile_eq_nil_iff.mp hrest last (List.mem_of_getLast? hlast)
  rw [isBlank_of_space hspace] at hblank
  cases hblank

theorem exists_of_read {text : List Char} {value : Content} (h : read text = .ok value) :
    ∃ rest, readValue (2 * text.length + 2) (skipSpace text) = .ok (value, rest) ∧
      skipSpace rest = [] := by
  have hdocument : readDocument text = .ok value := by
    unfold read at h
    split at h
    next heq =>
      cases h
      exact heq
    next => cases h
  unfold readDocument at hdocument
  split at hdocument
  next => cases hdocument
  next =>
    obtain ⟨⟨found, rest⟩, hread, hdocument⟩ := bind_eq_ok.mp hdocument
    dsimp only at hdocument
    split at hdocument
    next hrest =>
      cases hdocument
      exact ⟨rest, hread, hrest⟩
    next => cases hdocument

/-- The text of an object, without blanks around it, is bracketed by its braces. -/
theorem group_of_read {text : List Char} (htext : Text.Trimmed text) {entries : Entries Unit}
    (h : read text = .ok (.map () entries)) : Group true '\x7b' '\x7d' text := by
  obtain ⟨⟨first, hfirst, hblank⟩, last, hlast, hblank'⟩ := htext
  obtain ⟨more, rfl⟩ := List.head?_eq_some_iff.mp hfirst
  obtain ⟨rest, hread, hrest⟩ := exists_of_read h
  rw [skipSpace_of_head hblank] at hread
  obtain ⟨inside, hinside⟩ := exists_of_readValue hread
  rw [hinside] at hread hlast ⊢
  obtain ⟨inner, rfl, hinner⟩ := crosses_object (readers_cross _) hread
  have hends : ('\x7b' :: (inner ++ ['\x7d']) ++ rest).getLast? = some last := by simpa using hlast
  obtain rfl := eq_nil_of_skipSpace hends hblank' hrest
  exact ⟨inner, rfl, hinner⟩

end Transclude.Json
