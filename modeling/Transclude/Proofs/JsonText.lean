import Mathlib
import Transclude.Json.Reader
import Transclude.Proofs.Identities

/-! # Reading written JSON

The JSON text of a value that JSON can express is read back as what the value holds,
whatever follows it. -/

namespace Transclude

/-- A value that JSON expresses, with integers as its numbers. The names in a mapping are
different. -/
inductive Value.IsJson {ι : Type} : Value ι → Prop
  | null : IsJson .null
  | bool (b : Bool) : IsJson (.bool b)
  | int (n : Int) : IsJson (.number (.int n))
  | str (s : String) : IsJson (.str s)
  | list {identity : ι} {items : List (Value ι)} (hitems : ∀ item ∈ items, IsJson item) :
    IsJson (.list identity items)
  | map {identity : ι} {entries : Entries ι}
    (hnames : ∀ entry ∈ entries, ∃ name, entry.1 = .str name)
    (hdistinct : entries.Pairwise fun first second => first.1.same second.1 = false)
    (hvalues : ∀ entry ∈ entries, IsJson entry.2) : IsJson (.map identity entries)

namespace Json

/-! ## Strings -/

theorem readString_plain {start rest : List Char} {fuel : Nat} {c : Char} (hquote : c ≠ '"')
    (hslash : c ≠ '\\') (hcontrol : 0x20 ≤ c.toNat) :
    readString start (fuel + 1) (c :: rest) =
      (do let (chars, final) ← readString start fuel rest; return (c :: chars, final)) := by
  conv_lhs => unfold readString
  dsimp only
  rw [if_neg (by simpa using hquote), if_neg (by simpa using hslash), if_neg (by omega)]

theorem readString_escape {start rest : List Char} {fuel : Nat} {e char : Char} (hu : e ≠ 'u')
    (hsimple : simpleEscape? e = some char) :
    readString start (fuel + 1) ('\\' :: e :: rest) =
      (do let (chars, final) ← readString start fuel rest; return (char :: chars, final)) := by
  rw [readString]
  rw [if_neg (by decide), if_pos (by decide)]
  dsimp only
  rw [if_neg (by simpa using hu), hsimple]

theorem unicodeEscape_hexDigits {c : Char} (hcontrol : c.toNat < 0x20) {rest : List Char}
    (hrest : rest ≠ []) :
    unicodeEscape (Text.hexDigits 4 c.toNat ++ rest) = .ok (c, rest) := by
  obtain ⟨e, more, rfl⟩ := List.exists_cons_of_ne_nil hrest
  have hchar : Char.ofNat c.toNat = c := Char.ofNat_toNat c
  generalize c.toNat = n at *
  subst hchar
  interval_cases n <;> rfl

theorem readString_unicode {start rest : List Char} {fuel : Nat} {c : Char}
    (hcontrol : c.toNat < 0x20) (hrest : rest ≠ []) :
    readString start (fuel + 1) ('\\' :: 'u' :: (Text.hexDigits 4 c.toNat ++ rest)) =
      (do let (chars, final) ← readString start fuel rest; return (c :: chars, final)) := by
  rw [readString]
  rw [if_neg (by decide), if_pos (by decide)]
  dsimp only
  rw [if_pos (by decide), unicodeEscape_hexDigits hcontrol hrest]
  rfl

/-- A character is written as a short escape, by its number or as itself. -/
theorem escapeChar_cases (c : Char) :
    (∃ e, escapeChar c = ['\\', e] ∧ e ≠ 'u' ∧ simpleEscape? e = some c) ∨
    (escapeChar c = '\\' :: 'u' :: Text.hexDigits 4 c.toNat ∧ c.toNat < 0x20) ∨
    (escapeChar c = [c] ∧ c ≠ '"' ∧ c ≠ '\\' ∧ 0x20 ≤ c.toNat) := by
  have hshort : ∀ {d e : Char}, (c == d) = true → e ≠ 'u' → simpleEscape? e = some d →
      ∃ e', ['\\', e] = ['\\', e'] ∧ e' ≠ 'u' ∧ simpleEscape? e' = some c := by
    intro d e hc hu hsimple
    rw [beq_iff_eq.mp hc]
    exact ⟨e, rfl, hu, hsimple⟩
  unfold escapeChar
  split_ifs with hquote hslash hnewline hreturn htab hback hfeed hcontrol
  · exact .inl (hshort hquote (by decide) rfl)
  · exact .inl (hshort hslash (by decide) rfl)
  · exact .inl (hshort hnewline (by decide) rfl)
  · exact .inl (hshort hreturn (by decide) rfl)
  · exact .inl (hshort htab (by decide) rfl)
  · exact .inl (hshort hback (by decide) rfl)
  · exact .inl (hshort hfeed (by decide) rfl)
  · exact .inr (.inl ⟨rfl, hcontrol⟩)
  · exact .inr (.inr ⟨rfl, by simpa using hquote, by simpa using hslash, Nat.le_of_not_lt hcontrol⟩)

theorem readString_escapeChar {start rest : List Char} {fuel : Nat} {c : Char} (hrest : rest ≠ []) :
    readString start (fuel + 1) (escapeChar c ++ rest) =
      (do let (chars, final) ← readString start fuel rest; return (c :: chars, final)) := by
  rcases escapeChar_cases c with ⟨e, htext, hu, hsimple⟩ | ⟨htext, hcontrol⟩ |
    ⟨htext, hquote, hslash, hcontrol⟩
  · rw [htext]
    exact readString_escape hu hsimple
  · rw [htext]
    exact readString_unicode hcontrol hrest
  · rw [htext]
    exact readString_plain hquote hslash hcontrol

theorem readString_escaped (start : List Char) (text rest : List Char) {fuel : Nat}
    (hfuel : text.length < fuel) :
    readString start fuel (text.flatMap escapeChar ++ '"' :: rest) = .ok (text, rest) := by
  induction text generalizing fuel with
  | nil =>
      obtain ⟨fuel, rfl⟩ := Nat.exists_eq_succ_of_ne_zero (Nat.ne_zero_of_lt hfuel)
      simp [readString]
  | cons c text ih =>
      obtain ⟨fuel, rfl⟩ := Nat.exists_eq_succ_of_ne_zero (Nat.ne_zero_of_lt hfuel)
      rw [List.flatMap_cons, List.append_assoc, readString_escapeChar (by simp),
        ih (Nat.lt_of_succ_lt_succ hfuel)]
      rfl

theorem length_le_escaped (text : List Char) : text.length ≤ (text.flatMap escapeChar).length := by
  induction text with
  | nil => exact Nat.le_refl 0
  | cons c text ih =>
      have hpos : 1 ≤ (escapeChar c).length := by
        rcases escapeChar_cases c with ⟨e, htext, _⟩ | ⟨htext, _⟩ | ⟨htext, _⟩ <;> simp [htext]
      rw [List.flatMap_cons, List.length_append, List.length_cons]
      omega

theorem stringAt_escaped (s : String) (rest : List Char) :
    stringAt (s.toList.flatMap escapeChar ++ '"' :: rest) = .ok (s, rest) := by
  have hlength := length_le_escaped s.toList
  unfold stringAt
  rw [readString_escaped]
  · simp
  · simp only [List.length_append]
    omega

/-! ## Numbers -/

/-- What follows a value: nothing, or the next sign of a list or mapping. -/
def Follows (rest : List Char) : Prop := ∀ c ∈ rest.head?, c = ',' ∨ c = ']' ∨ c = '\x7d'

theorem decimalNumber?_of_digits {digits : List Char} (h : ∀ c ∈ digits, c.isDigit = true)
    (start : Nat) :
    digits.foldlM (fun number c => (Text.decimalValue? c).map (10 * number + ·)) start =
      some (Nat.ofDigitChars 10 digits start) := by
  induction digits generalizing start with
  | nil => rfl
  | cons c digits ih =>
      have hvalue : Text.decimalValue? c = some (c.toNat - 48) := by
        rw [Text.decimalValue?, if_pos (h c List.mem_cons_self)]
      rw [List.foldlM_cons, hvalue]
      exact ih (fun d hd => h d (List.mem_cons_of_mem c hd)) _

theorem decimalNumber?_toDigits (n : Nat) : Text.decimalNumber? (Nat.toDigits 10 n) = some n := by
  unfold Text.decimalNumber?
  rw [decimalNumber?_of_digits fun c hc => Nat.isDigit_of_mem_toDigits (by decide) (by decide) hc,
    Nat.ofDigitChars_ten_toDigits]

theorem head?_toDigits {n : Nat} (hn : 0 < n) : (Nat.toDigits 10 n).head? ≠ some '0' := by
  induction n using Nat.strong_induction_on with
  | _ n ih =>
      rw [Nat.toDigits_eq_if (by decide)]
      split
      next hlt =>
        interval_cases n <;> decide
      next hge =>
        rw [List.head?_append_of_ne_nil _ Nat.toDigits_ne_nil]
        exact ih (n / 10) (by omega) (by omega)

theorem wholeDigits_toDigits (n : Nat) {rest : List Char} (hrest : Follows rest) :
    wholeDigits (Nat.toDigits 10 n ++ rest) = Nat.toDigits 10 n := by
  have hdigits : ∀ c ∈ Nat.toDigits 10 n, c.isDigit = true :=
    fun c hc => Nat.isDigit_of_mem_toDigits (by decide) (by decide) hc
  have htake : (Nat.toDigits 10 n ++ rest).takeWhile Char.isDigit = Nat.toDigits 10 n := by
    rw [List.takeWhile_append_of_pos hdigits]
    cases rest with
    | nil => simp
    | cons c rest =>
        have hc : c.isDigit = false := by
          rcases hrest c rfl with rfl | rfl | rfl <;> decide
        simp [hc]
  rcases Nat.eq_zero_or_pos n with rfl | hn
  · rfl
  · unfold wholeDigits
    split
    next more hzero =>
      refine absurd ?_ (head?_toDigits hn)
      rw [← List.head?_append_of_ne_nil (Nat.toDigits 10 n) Nat.toDigits_ne_nil, hzero]
      rfl
    next => exact htake

theorem fractionPart_of_follows {rest : List Char} (hrest : Follows rest) :
    fractionPart rest = [] := by
  unfold fractionPart
  split
  next more => rcases hrest '.' rfl with h | h | h <;> cases h
  next => rfl

theorem exponentPart_of_follows {rest : List Char} (hrest : Follows rest) :
    exponentPart rest = [] := by
  unfold exponentPart
  split
  next mark more => rcases hrest mark rfl with rfl | rfl | rfl <;> rfl
  next => rfl

theorem number?_toDigits (n : Nat) {rest : List Char} (hrest : Follows rest) :
    number? (Nat.toDigits 10 n ++ rest) = some (.int n, rest) ∧
      number? ('-' :: (Nat.toDigits 10 n ++ rest)) = some (.int (-n), rest) := by
  have hempty : (Nat.toDigits 10 n).isEmpty = false :=
    List.isEmpty_eq_false_iff.mpr Nat.toDigits_ne_nil
  have hunsigned : ∀ more, Nat.toDigits 10 n ++ rest ≠ '-' :: more := by
    intro more heq
    rcases List.append_eq_cons_iff.mp heq with ⟨hnil, _⟩ | ⟨digits, hdigits, _⟩
    · exact Nat.toDigits_ne_nil hnil
    · have hmem : '-' ∈ Nat.toDigits 10 n := by simp [hdigits]
      exact absurd (Nat.isDigit_of_mem_toDigits (by decide) (by decide) hmem) (by decide)
  constructor
  · unfold number?
    split
    next negative unsigned heq =>
      split at heq
      next more hcons => exact absurd hcons (hunsigned more)
      next =>
        cases heq
        simp [wholeDigits_toDigits n hrest, hempty, fractionPart_of_follows hrest,
          exponentPart_of_follows hrest, decimalNumber?_toDigits]
  · simp [number?, wholeDigits_toDigits n hrest, hempty, fractionPart_of_follows hrest,
      exponentPart_of_follows hrest, decimalNumber?_toDigits]

/-- An integer is written by its digits, behind a sign when it is negative. -/
theorem toList_toString (n : Int) :
    (toString n).toList = (if n < 0 then ['-'] else []) ++ Nat.toDigits 10 n.natAbs := by
  rw [Int.toString_eq_repr]
  cases n with
  | ofNat n =>
      rw [Int.repr, Nat.repr_eq_ofList_toDigits, String.toList_ofList, if_neg (by simp)]
      rfl
  | negSucc n =>
      rw [Int.repr, Nat.repr_eq_ofList_toDigits, String.toList_append,
        if_pos (Int.negSucc_lt_zero n)]
      exact congrArg ('-' :: ·) String.toList_ofList

theorem toList_toString_int (n : Int) : ∃ m : Nat,
    (n = m ∧ (toString n).toList = Nat.toDigits 10 m) ∨
      (n = -m ∧ (toString n).toList = '-' :: Nat.toDigits 10 m) := by
  refine ⟨n.natAbs, ?_⟩
  rw [toList_toString]
  split
  next hneg => exact .inr ⟨by omega, rfl⟩
  next hnonneg => exact .inl ⟨by omega, rfl⟩

theorem number?_int (n : Int) {rest : List Char} (hrest : Follows rest) :
    number? ((toString n).toList ++ rest) = some (.int n, rest) := by
  obtain ⟨m, ⟨hn, htext⟩ | ⟨hn, htext⟩⟩ := toList_toString_int n
  · rw [htext, hn]
    exact (number?_toDigits m hrest).1
  · rw [htext, hn]
    exact (number?_toDigits m hrest).2

theorem exists_digit_toDigits (n : Nat) :
    ∃ c digits, Nat.toDigits 10 n = c :: digits ∧ c.isDigit = true := by
  obtain ⟨c, digits, hdigits⟩ := List.exists_cons_of_ne_nil (@Nat.toDigits_ne_nil n 10)
  have hmem : c ∈ Nat.toDigits 10 n := by
    rw [hdigits]
    exact List.mem_cons_self
  exact ⟨c, digits, hdigits, Nat.isDigit_of_mem_toDigits (by decide) (by decide) hmem⟩

theorem exists_toList_toString_int (n : Int) :
    ∃ c more, (toString n).toList = c :: more ∧ (c.isDigit = true ∨ c = '-') := by
  obtain ⟨m, ⟨_, htext⟩ | ⟨_, htext⟩⟩ := toList_toString_int n
  · obtain ⟨c, digits, hdigits, hc⟩ := exists_digit_toDigits m
    exact ⟨c, digits, htext.trans hdigits, .inl hc⟩
  · exact ⟨'-', _, htext, .inr rfl⟩

theorem readPlain_int (n : Int) {rest : List Char} (hrest : Follows rest) :
    readPlain ((toString n).toList ++ rest) = .ok (.number (.int n), rest) := by
  have hword :
      words.find? (fun word => word.1.isPrefixOf ((toString n).toList ++ rest)) = none := by
    obtain ⟨m, hm⟩ := toList_toString_int n
    obtain ⟨c, digits, hdigits, hc⟩ := exists_digit_toDigits m
    have hletters : c ≠ 'n' ∧ c ≠ 't' ∧ c ≠ 'f' ∧ c ≠ 'N' ∧ c ≠ 'I' ∧ c ≠ '-' := by
      refine ⟨?_, ?_, ?_, ?_, ?_, ?_⟩ <;>
      · rintro rfl
        exact absurd hc (by decide)
    obtain ⟨hn, ht, hf, hN, hI, hminus⟩ := hletters
    -- the word `-Infinity` has a letter where the integer has its first digit
    rcases hm with ⟨_, htext⟩ | ⟨_, htext⟩
    · rw [htext, hdigits]
      simp [words, hn.symm, ht.symm, hf.symm, hN.symm, hI.symm, hminus.symm]
    · rw [htext, hdigits]
      simp [words, hI.symm]
  rw [readPlain, hword, number?_int n hrest]

/-! ## Values -/

theorem readValue_scalar {s : Scalar} {text rest : List Char} {fuel : Nat}
    (hplain : readPlain (text ++ rest) = .ok (.scalar s, rest))
    (hfirst : ∀ c ∈ text.head?, c ≠ '"' ∧ c ≠ '\x7b' ∧ c ≠ '[') (htext : text ≠ []) :
    readValue (fuel + 1) (text ++ rest) = .ok (.scalar s, rest) := by
  obtain ⟨c, more, rfl⟩ := List.exists_cons_of_ne_nil htext
  obtain ⟨hquote, hbrace, hbracket⟩ := hfirst c rfl
  rw [← hplain]
  conv_lhs => unfold readValue
  rw [List.cons_append]
  split
  next heq => exact absurd (List.cons.inj heq).1 hquote
  next heq => exact absurd (List.cons.inj heq).1 hbrace
  next heq => exact absurd (List.cons.inj heq).1 hbracket
  next => rfl

end Json

namespace Value

variable {ι : Type}

/-- The JSON text of a value. -/
def written (value : Value ι) : List Char := (value.toJson.toOption.getD "").toList

/-- The JSON text of an entry. -/
def writtenEntry (entry : Key × Value ι) : List Char :=
  match entry with
  | (.str name, value) => (Json.writeString name).toList ++ ':' :: value.written
  | _ => []

theorem toJsonItems_of {items : List (Value ι)}
    (h : ∀ item ∈ items, item.toJson = .ok (String.ofList item.written)) :
    toJsonItems items = .ok (items.map fun item => String.ofList item.written) := by
  induction items with
  | nil => rfl
  | cons item rest ih =>
      rw [toJsonItems, h item List.mem_cons_self,
        ih fun item hitem => h item (List.mem_cons_of_mem _ hitem)]
      rfl

theorem toJsonEntries_of {entries : Entries ι}
    (hnames : ∀ entry ∈ entries, ∃ name, entry.1 = .str name)
    (h : ∀ entry ∈ entries, entry.2.toJson = .ok (String.ofList entry.2.written)) :
    toJsonEntries entries = .ok (entries.map fun entry => String.ofList (writtenEntry entry)) := by
  induction entries with
  | nil => rfl
  | cons entry rest ih =>
      obtain ⟨key, value⟩ := entry
      obtain ⟨name, rfl⟩ := hnames _ List.mem_cons_self
      rw [toJsonEntries, h _ List.mem_cons_self,
        ih (fun entry hentry => hnames entry (List.mem_cons_of_mem _ hentry))
          fun entry hentry => h entry (List.mem_cons_of_mem _ hentry)]
      have hentry : String.ofList (writtenEntry (.str name, value)) =
          Json.writeString name ++ ":" ++ String.ofList value.written := by
        simp [writtenEntry, ← String.toList_inj]
      rw [List.map_cons, hentry]
      rfl

theorem written_of_toJson {value : Value ι} {text : String} (h : value.toJson = .ok text) :
    value.written = text.toList := by
  rw [written, h]
  rfl

theorem written_mapIdentity {κ : Type} (f : ι → κ) (value : Value ι) :
    (value.mapIdentity f).written = value.written := by
  rw [written, toJson_mapIdentity]
  rfl

theorem written_scalar (s : Scalar) :
    (Value.scalar s : Value ι).written = (Json.writeScalar s).toList :=
  rfl

theorem written_str (s : String) :
    (Value.str s : Value ι).written = '"' :: (s.toList.flatMap Json.escapeChar ++ ['"']) :=
  String.toList_ofList

theorem IsJson.toJson_eq {value : Value ι} (h : IsJson value) :
    value.toJson = .ok (String.ofList value.written) := by
  have hok : ∀ {value : Value ι} {text : String}, value.toJson = .ok text →
      value.toJson = .ok (String.ofList value.written) := by
    intro value text htext
    rw [written_of_toJson htext, String.ofList_toList, htext]
  induction h with
  | null | bool | int | str => exact hok rfl
  | list _ ih => exact hok (by rw [toJson, toJsonItems_of ih]; rfl)
  | map hnames _ _ ih => exact hok (by rw [toJson, toJsonEntries_of hnames ih]; rfl)

theorem written_list {identity : ι} {items : List (Value ι)} (h : ∀ item ∈ items, IsJson item) :
    written (.list identity items) = '[' :: [','].intercalate (items.map written) ++ [']'] := by
  have htext : toJson (.list identity items) =
      .ok ("[" ++ ",".intercalate (items.map fun item => String.ofList item.written) ++ "]") := by
    rw [toJson, toJsonItems_of fun item hitem => (h item hitem).toJson_eq]
    rfl
  have hitems : (items.map fun item => String.ofList item.written).map String.toList =
      items.map written := by simp
  rw [written_of_toJson htext, String.toList_append, String.toList_append,
    String.toList_intercalate, hitems]
  rfl

theorem written_map {identity : ι} {entries : Entries ι}
    (hnames : ∀ entry ∈ entries, ∃ name, entry.1 = .str name)
    (h : ∀ entry ∈ entries, IsJson entry.2) :
    written (.map identity entries) =
      '\x7b' :: [','].intercalate (entries.map writtenEntry) ++ ['\x7d'] := by
  have htext : toJson (.map identity entries) =
      .ok ("\x7b" ++ ",".intercalate (entries.map fun entry => String.ofList (writtenEntry entry)) ++
        "\x7d") := by
    rw [toJson, toJsonEntries_of hnames fun entry hentry => (h entry hentry).toJson_eq]
    rfl
  have hentries : (entries.map fun entry => String.ofList (writtenEntry entry)).map String.toList =
      entries.map writtenEntry := by simp
  rw [written_of_toJson htext, String.toList_append, String.toList_append,
    String.toList_intercalate, hentries]
  rfl

/-- A sign that a value begins with is not blank, ends no list and marks no byte order. -/
def Begins (c : Char) : Prop :=
  (c == ' ' || c == '\t' || c == '\n' || c == '\r') = false ∧ c ≠ ']' ∧ c ≠ '\ufeff'

instance : DecidablePred Begins := fun _ => inferInstanceAs (Decidable (_ ∧ _ ∧ _))

theorem begins_of_isDigit {c : Char} (h : c.isDigit = true) : Begins c := by
  refine ⟨?_, ?_, ?_⟩
  · simp only [Bool.or_eq_false_iff, beq_eq_false_iff_ne]
    refine ⟨⟨⟨?_, ?_⟩, ?_⟩, ?_⟩ <;>
    · rintro rfl
      exact absurd h (by decide)
  · rintro rfl
    exact absurd h (by decide)
  · rintro rfl
    exact absurd h (by decide)

theorem IsJson.exists_written {value : Value ι} (h : IsJson value) :
    ∃ c more, value.written = c :: more ∧ Begins c := by
  cases h with
  | null => exact ⟨'n', "ull".toList, (written_of_toJson rfl).trans (by decide), by decide⟩
  | bool b =>
      cases b with
      | false =>
          exact ⟨'f', "alse".toList, (written_of_toJson rfl).trans (by decide), by decide⟩
      | true => exact ⟨'t', "rue".toList, (written_of_toJson rfl).trans (by decide), by decide⟩
  | int n =>
      obtain ⟨c, more, htext, hc | rfl⟩ := Json.exists_toList_toString_int n
      · exact ⟨c, more, htext, begins_of_isDigit hc⟩
      · exact ⟨'-', more, htext, by decide⟩
  | str s => exact ⟨'"', _, String.toList_ofList, by decide⟩
  | list hitems => exact ⟨'[', _, written_list hitems, by decide⟩
  | map hnames _ hvalues => exact ⟨'\x7b', _, written_map hnames hvalues, by decide⟩

end Value

namespace Json

open Value

variable {ι : Type}

/-- The value is read back from its text. The fuel need not be more than twice the length. -/
def ReadsBack (value : Value ι) : Prop :=
  ∀ fuel rest, 2 * value.written.length ≤ fuel → Follows rest →
    readValue fuel (value.written ++ rest) = .ok (value.content, rest)

theorem skipSpace_written {value : Value ι} (h : IsJson value) (rest : List Char) :
    skipSpace (value.written ++ rest) = value.written ++ rest := by
  obtain ⟨c, more, htext, hblank, _⟩ := h.exists_written
  rw [htext, List.cons_append, skipSpace, List.dropWhile_cons_of_neg (by simp [hblank])]

theorem exists_intercalate (first : List Char) (others : List (List Char)) :
    ∃ tail, [','].intercalate (first :: others) = first ++ tail := by
  cases others with
  | nil => exact ⟨[], by rw [List.intercalate_singleton, List.append_nil]⟩
  | cons second others => exact ⟨_, by rw [List.intercalate_cons_cons, List.append_assoc]⟩

theorem readItems_written {items : List (Value ι)} (hne : items ≠ [])
    (hjson : ∀ item ∈ items, IsJson item) (hitems : ∀ item ∈ items, ReadsBack item) {fuel : Nat}
    {rest : List Char} (hfuel : 2 * ([','].intercalate (items.map written)).length + 1 ≤ fuel) :
    readItems fuel ([','].intercalate (items.map written) ++ ']' :: rest) =
      .ok (items.map content, rest) := by
  induction items generalizing fuel with
  | nil => exact absurd rfl hne
  | cons item more ih =>
      obtain ⟨fuel, rfl⟩ := Nat.exists_eq_succ_of_ne_zero (Nat.ne_zero_of_lt hfuel)
      have hitem := hitems item List.mem_cons_self
      cases more with
      | nil =>
          simp only [List.map_cons, List.map_nil, List.intercalate_singleton] at hfuel ⊢
          rw [readItems, hitem fuel (']' :: rest) (by omega) (by simp [Follows])]
          rfl
      | cons second more =>
          simp only [List.map_cons, List.intercalate_cons_cons] at hfuel ⊢ ih
          simp only [List.length_append, List.length_singleton] at hfuel
          -- no value begins with a blank that would be skipped behind the comma
          have hnext :
              skipSpace ([','].intercalate (second.written :: more.map written) ++ ']' :: rest) =
                [','].intercalate (second.written :: more.map written) ++ ']' :: rest := by
            obtain ⟨tail, htail⟩ := exists_intercalate second.written (more.map written)
            rw [htail, List.append_assoc, skipSpace_written (hjson second (by simp))]
          have hcomma : skipSpace (',' :: ([','].intercalate (second.written :: more.map written) ++
              ']' :: rest)) = ',' :: ([','].intercalate (second.written :: more.map written) ++
                ']' :: rest) := rfl
          rw [readItems, List.append_assoc, List.append_assoc, List.cons_append, List.nil_append,
            hitem fuel _ (by omega) (by simp [Follows])]
          simp only [ok_bind, hcomma, hnext]
          rw [ih (List.cons_ne_nil _ _)
            (fun item hmem => hjson item (List.mem_cons_of_mem _ hmem))
            (fun item hmem => hitems item (List.mem_cons_of_mem _ hmem)) (by omega)]
          rfl

theorem insert_of_not_hasKey {entries : Entries ι} {key : Key} {value : Value ι}
    (h : Entries.hasKey entries key = false) :
    Entries.insert entries key value = entries ++ [(key, value)] := by
  induction entries with
  | nil => rfl
  | cons entry rest ih =>
      obtain ⟨k, v⟩ := entry
      rw [Entries.hasKey, List.any_cons, Bool.or_eq_false_iff] at h
      rw [Entries.insert, if_neg (by simp [h.1]), ih h.2]
      rfl

theorem writtenEntry_str (name : String) (value : Value ι) :
    writtenEntry (.str name, value) =
      '"' :: (name.toList.flatMap escapeChar ++ '"' :: ':' :: value.written) := by
  simp [writtenEntry, writeString]

/-- One entry is read and added, whether it is the last one or not. -/
theorem readEntries_entry {name : String} {value : Value ι} (hjson : IsJson value)
    (hvalue : ReadsBack value) {fuel : Nat} (before : Entries Unit) {rest : List Char}
    (hfuel : 2 * value.written.length ≤ fuel) :
    (∀ after, rest = '\x7d' :: after →
      readEntries (fuel + 1) before (writtenEntry (.str name, value) ++ rest) =
        .ok (before.insert (.str name) value.content, after)) ∧
    (∀ more, rest = ',' :: more →
      readEntries (fuel + 1) before (writtenEntry (.str name, value) ++ rest) =
        readEntries fuel (before.insert (.str name) value.content) (skipSpace more)) := by
  have hcolon : ∀ text, skipSpace (':' :: text) = ':' :: text := fun _ => rfl
  have hbrace : ∀ text, skipSpace ('\x7d' :: text) = '\x7d' :: text := fun _ => rfl
  have hcomma : ∀ text, skipSpace (',' :: text) = ',' :: text := fun _ => rfl
  constructor
  · rintro after rfl
    rw [writtenEntry_str]
    simp only [List.cons_append, List.append_assoc, readEntries, stringAt_escaped, ok_bind, hcolon,
      skipSpace_written hjson]
    rw [hvalue fuel _ hfuel (by simp [Follows])]
    simp only [ok_bind, hbrace]
    rfl
  · rintro more rfl
    rw [writtenEntry_str]
    simp only [List.cons_append, List.append_assoc, readEntries, stringAt_escaped, ok_bind, hcolon,
      skipSpace_written hjson]
    rw [hvalue fuel _ hfuel (by simp [Follows])]
    simp only [ok_bind, hcomma]

theorem readEntries_written {entries : Entries ι} (hne : entries ≠ [])
    (hnames : ∀ entry ∈ entries, ∃ name, entry.1 = .str name)
    (hdistinct : entries.Pairwise fun first second => first.1.same second.1 = false)
    (hjson : ∀ entry ∈ entries, IsJson entry.2) (hvalues : ∀ entry ∈ entries, ReadsBack entry.2)
    {fuel : Nat} {rest : List Char} {before : Entries Unit}
    (hbefore : ∀ entry ∈ entries, Entries.hasKey before entry.1 = false)
    (hfuel : 2 * ([','].intercalate (entries.map writtenEntry)).length + 1 ≤ fuel) :
    readEntries fuel before ([','].intercalate (entries.map writtenEntry) ++ '\x7d' :: rest) =
      .ok (before ++ mapEntryIdentities (fun _ => ()) entries, rest) := by
  induction entries generalizing fuel before with
  | nil => exact absurd rfl hne
  | cons entry more ih =>
      obtain ⟨fuel, rfl⟩ := Nat.exists_eq_succ_of_ne_zero (Nat.ne_zero_of_lt hfuel)
      obtain ⟨key, value⟩ := entry
      obtain ⟨name, rfl⟩ := hnames (key, value) List.mem_cons_self
      have hvalue : ReadsBack value := hvalues (.str name, value) List.mem_cons_self
      have hbegins : IsJson value := hjson (.str name, value) List.mem_cons_self
      -- no entry that has been read has the name, so that this one comes last
      have hinsert : before.insert (.str name) value.content =
          before ++ [(.str name, value.content)] :=
        insert_of_not_hasKey (hbefore (.str name, value) List.mem_cons_self)
      have hlength : value.written.length + 3 ≤ (writtenEntry (.str name, value)).length := by
        rw [writtenEntry_str]
        simp only [List.length_cons, List.length_append]
        omega
      cases more with
      | nil =>
          rw [List.map_singleton, List.intercalate_singleton] at hfuel ⊢
          rw [(readEntries_entry hbegins hvalue before (by omega)).1 rest rfl, hinsert]
          rfl
      | cons second more =>
          rw [List.map_cons, List.map_cons, List.intercalate_cons_cons, ← List.map_cons] at hfuel ⊢
          simp only [List.length_append, List.length_singleton] at hfuel
          have hnext : ∀ rest, skipSpace ([','].intercalate ((second :: more).map writtenEntry) ++
              rest) = [','].intercalate ((second :: more).map writtenEntry) ++ rest := by
            intro rest
            obtain ⟨key', value'⟩ := second
            obtain ⟨name', rfl⟩ := hnames (key', value') (by simp)
            obtain ⟨tail, htail⟩ := exists_intercalate (writtenEntry (.str name', value'))
              (more.map writtenEntry)
            rw [List.map_cons, htail, writtenEntry_str]
            rfl
          rw [List.append_assoc, List.append_assoc, List.singleton_append,
            (readEntries_entry hbegins hvalue before (by omega)).2 _ rfl, hnext, hinsert,
            ih (List.cons_ne_nil _ _)
              (fun entry hentry => hnames entry (List.mem_cons_of_mem _ hentry))
              hdistinct.tail (fun entry hentry => hjson entry (List.mem_cons_of_mem _ hentry))
              (fun entry hentry => hvalues entry (List.mem_cons_of_mem _ hentry)) ?_ (by omega),
            List.append_assoc]
          · rfl
          · intro entry hentry
            rw [Entries.hasKey, List.any_append, List.any_cons, List.any_nil,
              (List.pairwise_cons.mp hdistinct).1 entry hentry]
            simpa [Entries.hasKey] using hbefore entry (List.mem_cons_of_mem _ hentry)

theorem ReadsBack.of_succ {value : Value ι} (h : IsJson value)
    (hreads : ∀ fuel rest, 2 * value.written.length ≤ fuel + 1 → Follows rest →
      readValue (fuel + 1) (value.written ++ rest) = .ok (value.content, rest)) :
    ReadsBack value := by
  intro fuel rest hfuel hrest
  obtain ⟨c, more, htext, _⟩ := h.exists_written
  cases fuel with
  | zero => simp [htext] at hfuel
  | succ fuel => exact hreads fuel rest hfuel hrest

theorem readValue_items {fuel : Nat} {text : List Char} (hskip : skipSpace text = text)
    (hnot : ∀ after, text ≠ ']' :: after) :
    readValue (fuel + 1) ('[' :: text) =
      (do let (items, after) ← readItems fuel text; return (.list () items, after)) := by
  rw [readValue, hskip]
  split
  next after => exact absurd rfl (hnot after)
  next => rfl

theorem readValue_entries {fuel : Nat} {text : List Char} (hskip : skipSpace text = text)
    (hnot : ∀ after, text ≠ '\x7d' :: after) :
    readValue (fuel + 1) ('\x7b' :: text) =
      (do let (entries, after) ← readEntries fuel [] text; return (.map () entries, after)) := by
  rw [readValue, hskip]
  split
  next after => exact absurd rfl (hnot after)
  next => rfl

/-! ## Values read back -/

theorem readsBack_int (n : Int) : ReadsBack (.number (.int n) : Value ι) := by
  refine .of_succ (.int n) fun fuel rest _ hrest => ?_
  obtain ⟨c, more, htext, hc⟩ := exists_toList_toString_int n
  have hwritten : (.number (.int n) : Value ι).written = (toString n).toList := rfl
  rw [hwritten]
  refine readValue_scalar (readPlain_int n hrest) ?_ ?_
  · -- neither a digit nor the sign begins a string, a list or a mapping
    rw [htext]
    rintro d ⟨⟩
    rcases hc with hc | rfl
    · refine ⟨?_, ?_, ?_⟩ <;>
      · rintro rfl
        exact absurd hc (by decide)
    · decide
  · rw [htext]
    exact List.cons_ne_nil c more

theorem readsBack_str (s : String) : ReadsBack (.str s : Value ι) := by
  refine .of_succ (.str s) fun fuel rest _ _ => ?_
  rw [written_str, List.cons_append, List.append_assoc, readValue, List.singleton_append,
    stringAt_escaped]
  rfl

theorem readsBack_list {identity : ι} {items : List (Value ι)}
    (hjson : ∀ item ∈ items, IsJson item) (hitems : ∀ item ∈ items, ReadsBack item) :
    ReadsBack (.list identity items) := by
  refine .of_succ (.list hjson) fun fuel rest hfuel _ => ?_
  rw [written_list hjson] at hfuel ⊢
  cases items with
  | nil => rfl
  | cons item more =>
      have hitem : IsJson item := hjson item List.mem_cons_self
      obtain ⟨c, text, htext, _, hc, _⟩ := hitem.exists_written
      obtain ⟨tail, htail⟩ := exists_intercalate item.written (more.map written)
      rw [List.cons_append, List.cons_append, List.append_assoc, List.singleton_append,
        readValue_items,
        readItems_written (List.cons_ne_nil item more) hjson hitems]
      · rw [content, mapIdentity, mapIdentities_eq_map]
        rfl
      · simp only [List.length_cons, List.length_append] at hfuel
        omega
      · rw [List.map_cons, htail, List.append_assoc, skipSpace_written hitem]
      · intro after heq
        rw [List.map_cons, htail, htext] at heq
        exact hc (List.cons.inj heq).1

theorem readsBack_map {identity : ι} {entries : Entries ι}
    (hnames : ∀ entry ∈ entries, ∃ name, entry.1 = .str name)
    (hdistinct : entries.Pairwise fun first second => first.1.same second.1 = false)
    (hjson : ∀ entry ∈ entries, IsJson entry.2) (hvalues : ∀ entry ∈ entries, ReadsBack entry.2) :
    ReadsBack (.map identity entries) := by
  refine .of_succ (.map hnames hdistinct hjson) fun fuel rest hfuel _ => ?_
  rw [written_map hnames hjson] at hfuel ⊢
  cases entries with
  | nil => rfl
  | cons entry more =>
      obtain ⟨key, value⟩ := entry
      obtain ⟨name, rfl⟩ := hnames (key, value) List.mem_cons_self
      obtain ⟨tail, htail⟩ := exists_intercalate (writtenEntry (.str name, value))
        (more.map writtenEntry)
      rw [List.cons_append, List.cons_append, List.append_assoc, List.singleton_append,
        readValue_entries,
        readEntries_written (List.cons_ne_nil _ more) hnames hdistinct hjson hvalues]
      · rfl
      · exact fun _ _ => rfl
      · simp only [List.length_cons, List.length_append] at hfuel
        omega
      · rw [List.map_cons, htail, writtenEntry_str]
        rfl
      · intro after heq
        rw [List.map_cons, htail, writtenEntry_str] at heq
        exact absurd (List.cons.inj heq).1 (by decide)

theorem readsBack {value : Value ι} (h : IsJson value) : ReadsBack value := by
  induction h with
  | null =>
      refine .of_succ .null fun fuel rest _ _ => ?_
      rw [written_scalar]
      exact readValue_scalar (by simp [readPlain, words, writeScalar]) (by simp [writeScalar])
        (by simp [writeScalar])
  | bool b =>
      refine .of_succ (.bool b) fun fuel rest _ _ => ?_
      rw [written_scalar]
      cases b with
      | false =>
          exact readValue_scalar (by simp [readPlain, words, writeScalar]) (by simp [writeScalar])
            (by simp [writeScalar])
      | true =>
          exact readValue_scalar (by simp [readPlain, words, writeScalar]) (by simp [writeScalar])
            (by simp [writeScalar])
  | int n => exact readsBack_int n
  | str s => exact readsBack_str s
  | list hitems ih => exact readsBack_list hitems ih
  | map hnames hdistinct hvalues ih => exact readsBack_map hnames hdistinct hvalues ih

/-- The JSON text of a value is read as what the value holds. -/
theorem read_written {value : Value ι} (h : IsJson value) :
    read value.written = .ok value.content := by
  obtain ⟨c, more, htext, _, _, hmark⟩ := h.exists_written
  have hread := readsBack h (2 * value.written.length + 2) [] (by omega) (by simp [Follows])
  have hskip := skipSpace_written h []
  rw [List.append_nil] at hread hskip
  have hdocument : readDocument value.written = .ok value.content := by
    unfold readDocument
    split
    next rest heq =>
      rw [htext] at heq
      exact absurd (List.cons.inj heq).1 hmark
    next =>
      rw [hskip, hread]
      rfl
  rw [read, hdocument]

end Json

end Transclude
