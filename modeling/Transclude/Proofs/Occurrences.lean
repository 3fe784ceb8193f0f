import Mathlib
import Transclude.Proofs.Matching
import Transclude.Proofs.Scanning

/-! # Where directives stand

How a directive is spelled is said apart from the scan for it. The directives that are
taken from a text are spelled so, one behind the other, and every place at which one is
spelled lies in one of them. Replacing them changes nothing else. -/

namespace Transclude

namespace Directive

/-- The brackets around a text match when a rest follows. -/
def Enclosed (minds : Bool) (opening closing : Char) (inner rest : List Char) : Prop :=
  Bracket.closing? minds opening closing (opening :: (inner ++ closing :: rest)) =
    some (inner.length + 1)

/-- How the parts of a directive are spelled behind its name, up to the last bracket. -/
inductive Bracketed : Shape → List Char → List Char → List Char → List Char → Prop
  | call {args rest : List Char} (hargs : Enclosed true '(' ')' args rest) :
    Bracketed .call ('(' :: (args ++ [')'])) args [] rest
  | block {gap args between body rest : List Char} (hgap : ∀ c ∈ gap, Text.isBlank c = true)
    (hargs : Enclosed true '(' ')' args (between ++ '\x7b' :: (body ++ '\x7d' :: rest)))
    (hbetween : ∀ c ∈ between, Text.isBlank c = true)
    (hbody : Enclosed false '\x7b' '\x7d' body rest) :
    Bracketed .block
      (gap ++ '(' :: (args ++ ')' :: (between ++ '\x7b' :: (body ++ ['\x7d'])))) args body rest

/-- A text is a directive up to its last bracket, and a rest follows: delimiter, spaces, a name that
ends there, and the parts. -/
structure Spelled (opening name : List Char) (shape : Shape) (source args body rest : List Char) :
    Prop where
  split : ∃ spaces parts, source = opening ++ (spaces ++ (name ++ parts)) ∧
    (∀ c ∈ spaces, c = ' ') ∧ (∀ c ∈ parts.head?, Text.isIdentifierPart c = false) ∧
    Bracketed shape parts args body rest

/-- A directive is spelled at a position of a text. -/
def SpelledAt (opening name : List Char) (shape : Shape) (text : List Char) (start : Nat) : Prop :=
  ∃ front source args body rest, text = front ++ (source ++ rest) ∧ front.length = start ∧
    Spelled opening name shape source args body rest

/-- A directive takes the closing delimiter with the blanks before it when these follow. -/
def Ended (closing ending rest : List Char) : Prop :=
  (∃ blanks, (∀ c ∈ blanks, Text.isBlank c = true) ∧ ending = blanks ++ closing) ∨
    ending = [] ∧ ¬ ∃ blanks, (∀ c ∈ blanks, Text.isBlank c = true) ∧ blanks ++ closing <+: rest

/-- A directive takes the closing delimiter when it follows, unless the delimiter is empty or begins
with a blank. -/
structure Taken (closing ending rest : List Char) : Prop where
  ended : (∀ c ∈ closing.head?, Text.isBlank c = false) → Ended closing ending rest
  left : (∀ c ∈ closing.head?, Text.isBlank c = true) → ending = []

/-- A directive stands in a text that begins at a position; `ends` says what belongs to it behind
its last bracket. -/
def Stands (opening name : List Char) (shape : Shape) (ends : List Char → List Char → Prop)
    (position : Nat) (text : List Char) (found : Directive) : Prop :=
  ∃ front source ending rest, text = front ++ (source ++ (ending ++ rest)) ∧
    found.start = position + front.length ∧
    found.stop = found.start + source.length + ending.length ∧
    Spelled opening name shape source found.args found.body (ending ++ rest) ∧ ends ending rest

/-! ## Reading what is spelled -/

theorem leadingBlanks_append {blanks : List Char} (h : ∀ c ∈ blanks, Text.isBlank c = true)
    {c : Char} (hc : Text.isBlank c = false) (rest : List Char) :
    Text.leadingBlanks (blanks ++ c :: rest) = blanks.length := by
  rw [Text.leadingBlanks, List.takeWhile_append_of_pos h, List.takeWhile_cons_of_neg (by simp [hc]),
    List.append_nil]

theorem Enclosed.bracketed? {minds : Bool} {opening closing : Char} {inner rest : List Char}
    (h : Enclosed minds opening closing inner rest) :
    Directive.bracketed? minds opening closing (opening :: (inner ++ closing :: rest)) =
      some (inner, inner.length + 2) := by
  rw [Directive.bracketed?, h, Option.map_some, List.drop_succ_cons, List.drop_zero,
    Nat.add_sub_cancel, List.take_left]

theorem drop_enclosed (opening closing : Char) (inner rest : List Char) :
    (opening :: (inner ++ closing :: rest)).drop (inner.length + 2) = rest := by
  rw [List.drop_succ_cons, ← List.drop_drop, List.drop_left]
  rfl

/-- The body of a block is read behind blanks. -/
theorem readBody_between {between body rest : List Char}
    (hbetween : ∀ c ∈ between, Text.isBlank c = true)
    (hbody : Enclosed false '\x7b' '\x7d' body rest) (closing args : List Char) (length : Nat) :
    readBody closing args length (between ++ '\x7b' :: (body ++ '\x7d' :: rest)) =
      .complete args body
        (length + between.length + (body.length + 2) + closingLength closing rest) := by
  unfold readBody
  simp only [leadingBlanks_append hbetween (show Text.isBlank '\x7b' = false by decide),
    List.drop_left, hbody.bracketed?, drop_enclosed]

/-- The parts of a directive are read as they are spelled. -/
theorem Bracketed.readTail {shape : Shape} {parts args body rest : List Char}
    (h : Bracketed shape parts args body rest) (closing : List Char) :
    Directive.readTail shape closing (parts ++ rest) =
      .complete args body (parts.length + closingLength closing rest) := by
  cases h with
  | call hargs =>
      have htext : '(' :: (args ++ [')']) ++ rest = '(' :: (args ++ ')' :: rest) := by simp
      unfold Directive.readTail
      simp [htext, hargs.bracketed?]
  | block hgap hargs hbetween hbody =>
      rename_i gap between
      have htext :
          gap ++ '(' :: (args ++ ')' :: (between ++ '\x7b' :: (body ++ ['\x7d']))) ++ rest =
            gap ++ '(' :: (args ++ ')' :: (between ++ '\x7b' :: (body ++ '\x7d' :: rest))) := by
        simp
      unfold Directive.readTail
      simp only [htext, if_true,
        leadingBlanks_append hgap (show Text.isBlank '(' = false by decide), List.drop_left,
        hargs.bracketed?, drop_enclosed, readBody_between hbetween hbody]
      congr 1
      simp only [List.length_append, List.length_cons, List.length_nil]
      omega

/-! ## What is read is spelled so -/

/-- A bracketed part that is read ends with the bracket that matches the first one. -/
theorem enclosed_of_bracketed? {minds : Bool} {opening closing : Char}
    (hopening : minds = true → Bracket.isQuote opening = false)
    (hclosing : minds = true → Bracket.isQuote closing = false) (hne : closing ≠ opening)
    {text inner : List Char} {size : Nat}
    (h : Directive.bracketed? minds opening closing (opening :: text) = some (inner, size)) :
    ∃ rest, text = inner ++ closing :: rest ∧ size = inner.length + 2 ∧
      Enclosed minds opening closing inner rest := by
  obtain ⟨offset, hoffset, heq⟩ := Option.map_eq_some_iff.mp h
  cases heq
  obtain ⟨hlt, inside, hgroup, _⟩ :=
    (Bracket.closing?_eq_some_iff hopening hclosing hne rfl).mp hoffset
  rw [List.take_succ_cons, List.cons.injEq] at hgroup
  have hsize := congrArg List.length hgroup.2
  simp only [List.length_take, List.length_append, List.length_cons, List.length_nil] at hlt hsize
  obtain rfl : offset = inside.length + 1 := by omega
  have htext : text = inside ++ closing :: text.drop (inside.length + 1) := by
    have hsplit := List.take_append_drop (inside.length + 1) text
    rw [hgroup.2] at hsplit
    simpa using hsplit.symm
  have hinside : ((opening :: text).drop 1).take (inside.length + 1 - 1) = inside := by
    rw [List.drop_succ_cons, List.drop_zero, Nat.add_sub_cancel, htext, List.take_left]
  rw [hinside]
  exact ⟨_, htext, rfl, by rwa [Enclosed, ← htext]⟩

/-- The blanks at the beginning of a text. -/
theorem exists_blanks (text : List Char) : ∃ blanks, (∀ c ∈ blanks, Text.isBlank c = true) ∧
    Text.leadingBlanks text = blanks.length ∧
      text = blanks ++ text.drop (Text.leadingBlanks text) :=
  ⟨text.takeWhile Text.isBlank, fun _ hc => List.mem_takeWhile_imp hc, rfl,
    (List.prefix_iff_eq_append.mp (List.takeWhile_prefix _)).symm⟩

theorem between_of_readBody {closing args args' body text : List Char} {front length : Nat}
    (h : readBody closing args front text = .complete args' body length) :
    ∃ between rest, text = between ++ '\x7b' :: (body ++ '\x7d' :: rest) ∧ args' = args ∧
      length = front + between.length + (body.length + 2) + closingLength closing rest ∧
      (∀ c ∈ between, Text.isBlank c = true) ∧ Enclosed false '\x7b' '\x7d' body rest := by
  obtain ⟨between, hbetween, hlength, htext⟩ := exists_blanks text
  unfold readBody at h
  dsimp only at h
  split at h
  next inside hinside =>
    rw [hinside] at h htext
    split at h
    next => cases h
    next inner size hread =>
      cases h
      obtain ⟨rest, rfl, rfl, hbody⟩ :=
        enclosed_of_bracketed? (fun _ => rfl) (fun _ => rfl) (by decide) hread
      refine ⟨between, rest, htext, rfl, ?_, hbetween, hbody⟩
      rw [hlength, drop_enclosed]
  next => cases h

/-- What is read as the parts of a directive is spelled so. -/
theorem bracketed_of_readTail {shape : Shape} {closing text args body : List Char} {length : Nat}
    (h : readTail shape closing text = .complete args body length) :
    ∃ parts rest, text = parts ++ rest ∧ Bracketed shape parts args body rest ∧
      length = parts.length + closingLength closing rest := by
  unfold readTail at h
  dsimp only at h
  cases shape with
  | call =>
      rw [if_neg (by decide), List.drop_zero] at h
      split at h
      next inside =>
        split at h
        next => cases h
        next inner size hread =>
          cases h
          obtain ⟨rest, rfl, rfl, hargs⟩ :=
            enclosed_of_bracketed? (fun _ => rfl) (fun _ => rfl) (by decide) hread
          refine ⟨'(' :: (args ++ [')']), rest, by simp, .call hargs, ?_⟩
          rw [drop_enclosed]
          simp
      next => cases h
  | block =>
      obtain ⟨gap, hgap, hlength, htext⟩ := exists_blanks text
      rw [if_pos rfl] at h
      split at h
      next inside hinside =>
        rw [hinside] at h htext
        split at h
        next => cases h
        next inner size hread =>
          obtain ⟨rest, rfl, rfl, hargs⟩ :=
            enclosed_of_bracketed? (fun _ => rfl) (fun _ => rfl) (by decide) hread
          rw [drop_enclosed] at h
          obtain ⟨between, rest, rfl, rfl, rfl, hbetween, hbody⟩ := between_of_readBody h
          refine ⟨_, rest, ?_, .block hgap hargs hbetween hbody, ?_⟩
          · rw [htext]
            simp
          · rw [hlength]
            simp only [List.length_append, List.length_cons, List.length_nil]
            omega
      next => cases h

/-- No blank is left behind the blanks at the beginning of a text. -/
theorem not_prefix_of_blank {c : Char} (hc : Text.isBlank c = true) (more text : List Char) :
    ¬ c :: more <+: text.drop (Text.leadingBlanks text) := by
  rintro ⟨rest, hrest⟩
  obtain ⟨blanks, hblanks, hlength, htext⟩ := exists_blanks text
  rw [← hrest] at htext
  have hcount := congrArg Text.leadingBlanks htext
  rw [hlength, Text.leadingBlanks, List.takeWhile_append_of_pos hblanks, List.cons_append,
    List.takeWhile_cons_of_pos hc, List.length_append, List.length_cons] at hcount
  omega

/-- The closing delimiter is taken with the blanks before it. -/
theorem taken_closingLength (closing text : List Char) :
    Taken closing (text.take (closingLength closing text))
      (text.drop (closingLength closing text)) := by
  cases closing with
  | nil => exact ⟨fun _ => .inl ⟨[], nofun, rfl⟩, fun _ => rfl⟩
  | cons c more =>
      unfold closingLength
      simp only [List.isEmpty_cons, Bool.false_eq_true, if_false, List.isPrefixOf_iff_prefix]
      obtain ⟨blanks, hblanks, hlength, htext⟩ := exists_blanks text
      constructor
      · intro hc
        split
        next hprefix =>
          refine .inl ⟨blanks, hblanks, ?_⟩
          obtain ⟨rest, hrest⟩ := hprefix
          rw [← hrest, ← List.append_assoc] at htext
          rw [hlength, ← List.length_append, htext, List.take_left]
        next hprefix =>
          refine .inr ⟨rfl, ?_⟩
          rintro ⟨others, hothers, rest, hrest⟩
          rw [List.drop_zero] at hrest
          refine hprefix ⟨rest, ?_⟩
          rw [← hrest, List.append_assoc, List.cons_append,
            leadingBlanks_append hothers (hc c rfl), List.drop_left]
      · intro hc
        rw [if_neg (not_prefix_of_blank (hc c rfl) more text), List.take_zero]

/-- What a directive takes is as long as the scan says. -/
theorem Taken.closingLength {closing ending rest : List Char} (h : Taken closing ending rest) :
    Directive.closingLength closing (ending ++ rest) = ending.length := by
  cases closing with
  | nil =>
      obtain rfl := h.left nofun
      rfl
  | cons c more =>
      unfold Directive.closingLength
      simp only [List.isEmpty_cons, Bool.false_eq_true, if_false, List.isPrefixOf_iff_prefix]
      by_cases hc : Text.isBlank c = true
      · obtain rfl := h.left (by rintro d ⟨⟩; exact hc)
        rw [if_neg (not_prefix_of_blank hc more _)]
        rfl
      · have hc : Text.isBlank c = false := by simpa using hc
        obtain ⟨blanks, hblanks, rfl⟩ | ⟨rfl, hnone⟩ := h.ended (by rintro d ⟨⟩; exact hc)
        · rw [List.append_assoc, List.cons_append, leadingBlanks_append hblanks hc, List.drop_left,
            ← List.cons_append, if_pos (List.prefix_append (c :: more) rest), List.length_append]
        · obtain ⟨blanks, hblanks, _, htext⟩ := exists_blanks rest
          rw [List.nil_append, if_neg fun hprefix => hnone ⟨blanks, hblanks, ?_⟩, List.length_nil]
          rw [htext]
          exact (List.prefix_append_right_inj blanks).mpr hprefix

/-! ## Heads -/

theorem nameEnds_iff {name text : List Char} : nameEnds name text = true ↔
    ∃ rest, text = name ++ rest ∧ ∀ c ∈ rest.head?, Text.isIdentifierPart c = false := by
  unfold nameEnds
  rw [Bool.and_eq_true, List.isPrefixOf_iff_prefix]
  constructor
  · rintro ⟨⟨rest, rfl⟩, hends⟩
    rw [List.drop_left] at hends
    refine ⟨rest, rfl, ?_⟩
    rintro c hc
    obtain ⟨more, rfl⟩ := List.head?_eq_some_iff.mp hc
    simpa using hends
  · rintro ⟨rest, rfl, hends⟩
    refine ⟨List.prefix_append _ _, ?_⟩
    rw [List.drop_left]
    cases rest with
    | nil => rfl
    | cons c more => simpa using hends c rfl

/-- The name stands behind as many spaces as are found, and behind no more of those there are. -/
theorem spacesBefore?_eq_some {name text : List Char} {most count : Nat}
    (h : spacesBefore? name text most = some count) :
    count ≤ most ∧ nameEnds name (text.drop count) = true := by
  induction most with
  | zero =>
      unfold spacesBefore? at h
      split at h
      next hends =>
        cases h
        exact ⟨Nat.le_refl 0, hends⟩
      next => cases h
  | succ most ih =>
      unfold spacesBefore? at h
      split at h
      next hends =>
        cases h
        exact ⟨Nat.le_refl _, hends⟩
      next =>
        obtain ⟨hle, hends⟩ := ih h
        exact ⟨by omega, hends⟩

theorem le_of_nameEnds {name text : List Char} {most spaces : Nat} (hle : spaces ≤ most)
    (h : nameEnds name (text.drop spaces) = true) :
    ∃ count, spacesBefore? name text most = some count ∧ spaces ≤ count := by
  induction most with
  | zero =>
      obtain rfl : spaces = 0 := by omega
      exact ⟨0, by rw [spacesBefore?, if_pos (by simpa using h)], Nat.le_refl 0⟩
  | succ most ih =>
      unfold spacesBefore?
      split
      next => exact ⟨_, rfl, hle⟩
      next hends =>
        refine ih (Nat.lt_succ_iff.mp (Nat.lt_of_le_of_ne hle ?_))
        rintro rfl
        exact hends h

/-- A head is a delimiter, spaces and a name that ends there. -/
theorem exists_of_headLength? {opening name text : List Char} {head : Nat}
    (h : headLength? opening name text = some head) :
    ∃ spaces behind, text = opening ++ (spaces ++ (name ++ behind)) ∧ (∀ c ∈ spaces, c = ' ') ∧
      (∀ c ∈ behind.head?, Text.isIdentifierPart c = false) ∧
      head = opening.length + spaces.length + name.length := by
  unfold headLength? at h
  split at h
  next hprefix =>
    obtain ⟨text, rfl⟩ := List.isPrefixOf_iff_prefix.mp hprefix
    rw [List.drop_left] at h
    obtain ⟨count, hcount, rfl⟩ := Option.map_eq_some_iff.mp h
    obtain ⟨hle, hends⟩ := spacesBefore?_eq_some hcount
    obtain ⟨behind, hbehind, hlast⟩ := nameEnds_iff.mp hends
    have hspaces : text.take count <+: text.takeWhile (· == ' ') :=
      (List.prefix_of_prefix_length_le (List.take_prefix _ _) (List.takeWhile_prefix _)
        ((List.length_take_le _ _).trans hle))
    refine ⟨text.take count, behind, ?_, fun c hc => ?_, hlast, ?_⟩
    · rw [← hbehind, List.take_append_drop]
    · simpa using List.mem_takeWhile_imp (hspaces.subset hc)
    · rw [List.length_take_of_le (hle.trans (List.takeWhile_prefix _).length_le)]
  next => cases h

/-- A head is found where a name stands behind spaces, though the name may be found behind more of
them when it begins with spaces itself. -/
theorem exists_headLength? (opening : List Char) {name spaces behind : List Char}
    (hspaces : ∀ c ∈ spaces, c = ' ')
    (hends : ∀ c ∈ behind.head?, Text.isIdentifierPart c = false) :
    ∃ more behind', name ++ behind = more ++ (name ++ behind') ∧ (∀ c ∈ more, c = ' ') ∧
      headLength? opening name (opening ++ (spaces ++ (name ++ behind))) =
        some (opening ++ (spaces ++ (more ++ name))).length := by
  have hprefix : spaces <+: (spaces ++ (name ++ behind)).takeWhile (· == ' ') := by
    rw [List.takeWhile_append_of_pos (by simpa using hspaces)]
    exact List.prefix_append _ _
  have hname : nameEnds name ((spaces ++ (name ++ behind)).drop spaces.length) = true := by
    rw [List.drop_left]
    exact nameEnds_iff.mpr ⟨behind, rfl, hends⟩
  obtain ⟨count, hcount, hle⟩ := le_of_nameEnds hprefix.length_le hname
  have hhead : headLength? opening name (opening ++ (spaces ++ (name ++ behind))) =
      some (opening.length + count + name.length) := by
    unfold headLength?
    rw [if_pos (List.isPrefixOf_iff_prefix.mpr (List.prefix_append _ _)), List.drop_left]
    dsimp only
    rw [hcount, Option.map_some]
  obtain ⟨others, behind', hsplit, hothers, _, hlength⟩ := exists_of_headLength? hhead
  have hothersPrefix : others <+: spaces ++ (name ++ behind) := by
    rw [List.append_cancel_left hsplit]
    exact List.prefix_append _ _
  obtain ⟨more, rfl⟩ : spaces <+: others :=
    List.prefix_of_prefix_length_le (List.prefix_append _ _) hothersPrefix (by omega)
  refine ⟨more, behind', ?_, fun c hc => hothers c (List.mem_append_right _ hc), ?_⟩
  · rw [List.append_assoc] at hsplit
    exact List.append_cancel_left (List.append_cancel_left hsplit)
  · rw [hhead, hlength]
    simp only [List.length_append, Option.some.injEq]
    omega

/-- What moves behind a name when spaces before it are read as a part of it is spaces. -/
theorem spaces_of_append_eq {spaces name more : List Char} (hspaces : ∀ c ∈ spaces, c = ' ')
    (h : spaces ++ name = name ++ more) : ∀ c ∈ more, c = ' ' := by
  have hcount := congrArg (List.countP (· != ' ')) h
  rw [List.countP_append, List.countP_append, List.countP_eq_zero.mpr (by simpa using hspaces),
    Nat.add_comm, Nat.add_left_cancel_iff] at hcount
  simpa using List.countP_eq_zero.mp hcount.symm

theorem Bracketed.behind_spaces {shape : Shape} {parts args body rest spaces more : List Char}
    (h : Bracketed shape parts args body rest) (htext : parts ++ rest = spaces ++ more)
    (hspaces : ∀ c ∈ spaces, c = ' ') :
    ∃ parts', parts = spaces ++ parts' ∧ Bracketed shape parts' args body rest := by
  -- a round bracket is no space
  have hnil {spaces : List Char} (hspaces : ∀ c ∈ spaces, c = ' ') {inside : List Char}
      (heq : '(' :: inside = spaces ++ more) : spaces = [] := by
    cases spaces with
    | nil => rfl
    | cons c others =>
        obtain rfl := (List.cons.inj heq).1
        exact absurd (hspaces _ List.mem_cons_self) (by decide)
  cases h with
  | call hargs =>
      obtain rfl := hnil hspaces htext
      exact ⟨_, rfl, .call hargs⟩
  | block hgap hargs hbetween hbody =>
      rename_i gap between
      rw [List.append_assoc] at htext
      obtain ⟨others, rfl, hothers⟩ | ⟨others, rfl, hothers⟩ := List.append_eq_append_iff.mp htext
      · obtain rfl := hnil (fun c hc => hspaces c (List.mem_append_right _ hc)) hothers
        have hnone : ∀ c ∈ ([] : List Char), Text.isBlank c = true := by simp
        rw [List.append_nil]
        exact ⟨_, rfl, .block hnone hargs hbetween hbody⟩
      · exact ⟨_, List.append_assoc _ _ _,
          .block (fun c hc => hgap c (List.mem_append_right _ hc)) hargs hbetween hbody⟩

theorem Bracketed.ne_nil {shape : Shape} {parts args body rest : List Char}
    (h : Bracketed shape parts args body rest) : parts ≠ [] := by
  cases h <;> simp

/-- Behind the name that is found stand the parts, though it may not be the name that is meant when
the name begins with spaces. -/
theorem Bracketed.behind_name {shape : Shape} {name parts args body rest spaces behind : List Char}
    (h : Bracketed shape parts args body rest) (hspaces : ∀ c ∈ spaces, c = ' ')
    (htext : name ++ (parts ++ rest) = spaces ++ (name ++ behind)) :
    ∃ parts', behind = parts' ++ rest ∧ Bracketed shape parts' args body rest := by
  rw [← List.append_assoc spaces] at htext
  obtain ⟨more, hname, hparts⟩ | ⟨more, hname, hbehind⟩ := List.append_eq_append_iff.mp htext
  · obtain ⟨parts', rfl, hparts'⟩ :=
      h.behind_spaces hparts (spaces_of_append_eq hspaces hname)
    rw [List.append_assoc] at hparts
    exact ⟨parts', (List.append_cancel_left hparts).symm, hparts'⟩
  · -- the same name is found
    have hlength := congrArg List.length hname
    simp only [List.length_append] at hlength
    obtain rfl : more = [] := List.length_eq_zero_iff.mp (by omega)
    exact ⟨parts, by simpa using hbehind, h⟩

/-- A directive is read where it is spelled. -/
theorem Spelled.reads {opening name : List Char} {shape : Shape} {source args body rest : List Char}
    (h : Spelled opening name shape source args body rest) (closing : List Char) :
    ∃ head length, headLength? opening name (source ++ rest) = some head ∧
      readTail shape closing ((source ++ rest).drop head) = .complete args body length ∧
      head + length = source.length + closingLength closing rest := by
  obtain ⟨spaces, parts, rfl, hspaces, hends, hparts⟩ := h.split
  have htext : opening ++ (spaces ++ (name ++ parts)) ++ rest =
      opening ++ (spaces ++ (name ++ (parts ++ rest))) := by simp
  rw [← List.head?_append_of_ne_nil _ hparts.ne_nil] at hends
  obtain ⟨more, behind, hbehind, hmore, hhead⟩ := exists_headLength? opening hspaces hends
  obtain ⟨parts', rfl, hparts'⟩ := hparts.behind_name hmore hbehind
  refine ⟨_, parts'.length + closingLength closing rest, by rw [htext, hhead], ?_, ?_⟩
  · have hdrop : opening ++ (spaces ++ (name ++ (parts ++ rest))) =
        opening ++ (spaces ++ (more ++ name)) ++ (parts' ++ rest) := by simp [hbehind]
    rw [htext, hdrop, List.drop_left]
    exact hparts'.readTail closing
  · have hlength := congrArg List.length hbehind
    simp only [List.length_append] at hlength ⊢
    omega

/-! ## No directive inside a head -/

section

variable {opening name : List Char} (happart : ∀ c ∈ opening, c ∉ name)

include happart

/-- A delimiter does not begin in a name. -/
theorem le_length_of_delimiter (hopening : opening ≠ []) {behind more others : List Char}
    (htext : name ++ behind = more ++ (opening ++ others)) : name.length ≤ more.length := by
  obtain ⟨sign, opening, rfl⟩ := List.exists_cons_of_ne_nil hopening
  obtain ⟨rest, rfl, _⟩ | ⟨rest, rfl, hrest⟩ := List.append_eq_append_iff.mp htext
  · simp
  · cases rest with
    | nil => simp
    | cons c rest =>
        obtain rfl := (List.cons.inj hrest).1
        exact absurd (by simp) (happart sign List.mem_cons_self)

/-- A delimiter that begins before the end of a name ends before the name. -/
theorem delimiter_before_name {before behind front others : List Char} (hopening : opening ≠ [])
    (hname : name ≠ []) (htext : before ++ (name ++ behind) = front ++ (opening ++ others))
    (hinside : front.length < (before ++ name).length) :
    ∃ rest, before = front ++ opening ++ rest ∧ others = rest ++ (name ++ behind) := by
  obtain ⟨first, word, rfl⟩ := List.exists_cons_of_ne_nil hname
  have hwhole := htext
  rw [← List.append_assoc front] at hwhole
  obtain ⟨rest, hdelimiter, hothers⟩ | ⟨rest, hbefore, hothers⟩ :=
    List.append_eq_append_iff.mp hwhole
  · cases rest with
    | nil => exact ⟨[], by simpa using hdelimiter.symm, by simpa using hothers.symm⟩
    | cons c rest =>
        obtain rfl := (List.cons.inj hothers).1
        obtain ⟨more, _, hsign⟩ | ⟨more, rfl, _⟩ := List.append_eq_append_iff.mp hdelimiter
        · exact absurd List.mem_cons_self (happart first (by rw [hsign]; simp))
        · rw [List.append_assoc] at htext
          have hle := le_length_of_delimiter happart hopening (List.append_cancel_left htext)
          rw [List.length_append, List.length_append] at hinside
          omega
  · exact ⟨rest, hbefore, hothers⟩

/-- A head that begins inside another one ends where that one does. -/
theorem behind_eq_of_inside {spaces behind front spaces' behind' : List Char}
    (hopening : opening ≠ []) (hname : name ≠ []) (hspaces : ∀ c ∈ spaces, c = ' ')
    (hspaces' : ∀ c ∈ spaces', c = ' ')
    (htext : opening ++ (spaces ++ (name ++ behind)) =
      front ++ (opening ++ (spaces' ++ (name ++ behind'))))
    (hfront : front ≠ []) (hinside : front.length < (opening ++ (spaces ++ name)).length) :
    behind' = behind := by
  rw [← List.append_assoc] at htext hinside
  obtain ⟨rest, hbefore, hothers⟩ :=
    delimiter_before_name happart hopening hname htext hinside
  -- the second delimiter ends in the spaces behind the first one
  obtain ⟨more, hmore, rfl⟩ :
      ∃ more, front ++ opening = opening ++ more ∧ spaces = more ++ rest := by
    obtain ⟨more, hmore, hrest⟩ | ⟨more, hmore, hrest⟩ := List.append_eq_append_iff.mp hbefore
    · exact ⟨more, hmore, hrest⟩
    · have hlength := congrArg List.length hmore
      simp only [List.length_append] at hlength
      have hpos := List.length_pos_iff.mpr hfront
      omega
  have hspace : ' ' ∈ opening := by
    have hlength := congrArg List.length hmore
    simp only [List.length_append] at hlength
    have hne : more ≠ [] := by
      rintro rfl
      have hpos := List.length_pos_iff.mpr hfront
      rw [List.length_nil] at hlength
      omega
    have hlast := congrArg List.getLast? hmore
    rw [List.getLast?_append_of_ne_nil _ hopening, List.getLast?_append_of_ne_nil _ hne,
      List.getLast?_eq_some_getLast hne] at hlast
    rw [← hspaces _ (List.mem_append_left _ (List.getLast_mem hne))]
    exact List.mem_of_getLast? hlast
  obtain ⟨first, word, rfl⟩ := List.exists_cons_of_ne_nil hname
  have hfirst : first ≠ ' ' := by
    rintro rfl
    exact happart ' ' hspace List.mem_cons_self
  have hdrop (spaces others : List Char) (h : ∀ c ∈ spaces, c = ' ') :
      (spaces ++ (first :: word ++ others)).dropWhile (· == ' ') = first :: word ++ others := by
    rw [List.dropWhile_append_of_pos (by simpa using h), List.cons_append,
      List.dropWhile_cons_of_neg (by simpa using hfirst)]
  have hrest := congrArg (List.dropWhile (· == ' ')) hothers
  rw [hdrop _ _ hspaces', hdrop _ _ fun c hc => hspaces c (List.mem_append_right _ hc)] at hrest
  exact List.append_cancel_left hrest

theorem readTail_of_spelledAt {shape : Shape} {text : List Char} {head start : Nat}
    (hopening : opening ≠ []) (hname : name ≠ [])
    (hhead : headLength? opening name text = some head)
    (h : SpelledAt opening name shape text start) (hinside : start < head) (closing : List Char) :
    ∃ args body length, readTail shape closing (text.drop head) = .complete args body length := by
  obtain ⟨front, source, args, body, rest, rfl, rfl, hspelled⟩ := h
  cases front with
  | nil =>
      obtain ⟨head', length, hhead', htail, _⟩ := hspelled.reads closing
      obtain rfl := Option.some.inj (hhead.symm.trans hhead')
      exact ⟨args, body, length, htail⟩
  | cons c front =>
      obtain ⟨spaces, behind, htext, hspaces, _, rfl⟩ := exists_of_headLength? hhead
      obtain ⟨spaces', parts, rfl, hspaces', _, hparts⟩ := hspelled.split
      have hwhole : c :: front ++ (opening ++ (spaces' ++ (name ++ parts)) ++ rest) =
          c :: front ++ (opening ++ (spaces' ++ (name ++ (parts ++ rest)))) := by simp
      have hbehind : parts ++ rest = behind := by
        refine behind_eq_of_inside happart hopening hname hspaces hspaces' (htext.symm.trans hwhole)
          (List.cons_ne_nil c front) ?_
        simp only [List.length_append] at hinside ⊢
        omega
      have hlength : opening.length + spaces.length + name.length =
          (opening ++ (spaces ++ name)).length := by simp [Nat.add_assoc]
      have hdrop : opening ++ (spaces ++ (name ++ behind)) =
          opening ++ (spaces ++ name) ++ behind := by simp
      refine ⟨args, body, parts.length + closingLength closing rest, ?_⟩
      rw [htext, hlength, hdrop, List.drop_left, ← hbehind]
      exact hparts.readTail closing

end

/-! ## Every directive is found -/

theorem SpelledAt.drop {opening name : List Char} {shape : Shape} {text : List Char}
    {start count : Nat} (h : SpelledAt opening name shape text start) (hle : count ≤ start) :
    SpelledAt opening name shape (text.drop count) (start - count) := by
  obtain ⟨front, source, args, body, rest, rfl, rfl, hspelled⟩ := h
  exact ⟨front.drop count, source, args, body, rest, List.drop_append_of_le_length hle,
    List.length_drop, hspelled⟩

theorem SpelledAt.exists_head {opening name : List Char} {shape : Shape} {text : List Char}
    (h : SpelledAt opening name shape text 0) :
    ∃ head, headLength? opening name text = some head := by
  obtain ⟨front, source, args, body, rest, rfl, hfront, hspelled⟩ := h
  obtain rfl := List.length_eq_zero_iff.mp hfront
  obtain ⟨head, _, hhead, _⟩ := hspelled.reads []
  exact ⟨head, hhead⟩

theorem SpelledAt.ne_nil {opening name : List Char} {shape : Shape} {text : List Char} {start : Nat}
    (h : SpelledAt opening name shape text start) : text ≠ [] := by
  obtain ⟨front, source, args, body, rest, rfl, _, hspelled⟩ := h
  obtain ⟨spaces, parts, rfl, _, _, hparts⟩ := hspelled.split
  simp [hparts.ne_nil]

/-- Behind a head that is not one of a directive no directive is passed over. -/
theorem SpelledAt.behind_head {delimiters : Delimiters} {name : List Char} {shape : Shape}
    (hopening : delimiters.opening ≠ []) (hname : name ≠ [])
    (happart : ∀ c ∈ delimiters.opening, c ∉ name) {c : Char} {rest : List Char} {start head : Nat}
    (h : SpelledAt delimiters.opening name shape (c :: rest) start)
    (hhead : headLength? delimiters.opening name (c :: rest) = some head)
    (htail : ∀ args body length, readTail shape delimiters.closing ((c :: rest).drop head) ≠
      .complete args body length) :
    head - 1 + 1 ≤ start ∧
      SpelledAt delimiters.opening name shape (rest.drop (head - 1)) (start - (head - 1 + 1)) := by
  have hle : head ≤ start := by
    by_contra hlt
    obtain ⟨args, body, length, hcomplete⟩ := readTail_of_spelledAt happart hopening hname hhead h
      (Nat.lt_of_not_le hlt) delimiters.closing
    exact htail args body length hcomplete
  obtain ⟨_, _, _, _, _, hlength⟩ := exists_of_headLength? hhead
  have hpos := List.length_pos_iff.mpr hname
  have hhead' : head - 1 + 1 ≤ start := by omega
  exact ⟨hhead', h.drop hhead'⟩

/-- Every directive that is spelled in a text begins in one that is found. -/
theorem exists_found_of_spelledAt {delimiters : Delimiters} {name : List Char} {shape : Shape}
    (hopening : delimiters.opening ≠ []) (hname : name ≠ [])
    (happart : ∀ c ∈ delimiters.opening, c ∉ name) {passed pending : List Char} {position : Nat}
    {text : List Char} {start : Nat} (h : SpelledAt delimiters.opening name shape text start) :
    ∃ found ∈ (piecesFrom delimiters name shape passed pending position text).filterMap ofPiece?,
      found.start ≤ position + start ∧ position + start < found.stop := by
  fun_induction piecesFrom delimiters name shape passed pending position text
    generalizing start with
  | case1 => exact absurd rfl h.ne_nil
  | case2 => exact absurd rfl h.ne_nil
  | case3 passed pending position c rest hhead ih =>
      obtain _ | start := start
      · obtain ⟨head, hsome⟩ := h.exists_head
        exact absurd (hhead.symm.trans hsome) (by simp)
      · obtain ⟨found, hfound, hinside⟩ := ih (h.drop (Nat.le_add_left 1 start))
        exact ⟨found, hfound, by omega⟩
  | case4 passed pending position c rest head hhead skipped htail =>
      rename_i ih
      obtain ⟨hle, hbehind⟩ := h.behind_head hopening hname happart hhead (by simp [htail])
      obtain ⟨found, hfound, hinside⟩ := ih hbehind
      exact ⟨found, hfound, by omega⟩
  | case5 passed pending position c rest head hhead skipped part htail =>
      rename_i ih
      obtain ⟨hle, hbehind⟩ := h.behind_head hopening hname happart hhead (by simp [htail])
      obtain ⟨found, hfound, hinside⟩ := ih hbehind
      exact ⟨found, hfound, by omega⟩
  | case6 passed pending position c rest head hhead args body length htail source stop _ directive
      taken hempty
  | case7 passed pending position c rest head hhead args body length htail source stop _ directive
      taken hempty =>
      rename_i ih
      obtain hlt | hle := Nat.lt_or_ge start (head + length - 1 + 1)
      · exact ⟨directive, List.mem_cons_self, Nat.le_add_right _ _,
          by simp only [directive, stop]; omega⟩
      · obtain ⟨found, hfound, hinside⟩ := ih (h.drop hle)
        exact ⟨found, List.mem_cons_of_mem directive hfound, by omega⟩

/-! ## Every directive that is found is spelled so -/

section

variable {opening name : List Char} {shape : Shape} {ends : List Char → List Char → Prop}

theorem Stands.of_drop {position count : Nat} {text : List Char} {found : Directive}
    (hle : count ≤ text.length)
    (h : Stands opening name shape ends (position + count) (text.drop count) found) :
    Stands opening name shape ends position text found := by
  obtain ⟨front, source, ending, rest, htext, hstart, hstop, hspelled, hends⟩ := h
  refine ⟨text.take count ++ front, source, ending, rest, ?_, ?_, hstop, hspelled, hends⟩
  · rw [List.append_assoc, ← htext, List.take_append_drop]
  · rw [List.length_append, List.length_take_of_le hle, hstart, Nat.add_assoc]

/-- A directive stands where its head and its parts are read. -/
theorem stands_of_readTail {closing text : List Char} {head length : Nat} {args body : List Char}
    (hhead : headLength? opening name text = some head)
    (htail : readTail shape closing (text.drop head) = .complete args body length)
    (position : Nat) (before : List Char) :
    Stands opening name shape (Taken closing) position text
      ⟨args, body, position, position + (head + length), before⟩ := by
  obtain ⟨spaces, behind, rfl, hspaces, hends, rfl⟩ := exists_of_headLength? hhead
  have hsplit : opening ++ (spaces ++ (name ++ behind)) =
      opening ++ (spaces ++ name) ++ behind := by simp
  have hlength : opening.length + spaces.length + name.length =
      (opening ++ (spaces ++ name)).length := by simp [Nat.add_assoc]
  rw [hsplit, hlength, List.drop_left] at htail
  obtain ⟨parts, rest, rfl, hparts, rfl⟩ := bracketed_of_readTail htail
  rw [List.head?_append_of_ne_nil _ hparts.ne_nil] at hends
  have hrest := List.take_append_drop (closingLength closing rest) rest
  have hle := closingLength_le closing rest
  refine ⟨[], opening ++ (spaces ++ (name ++ parts)), rest.take (closingLength closing rest),
    rest.drop (closingLength closing rest), ?_, rfl, ?_, ?_, taken_closingLength closing rest⟩
  · rw [hrest]
    simp
  · simp only [List.length_append, List.length_take_of_le hle]
    omega
  · rw [hrest]
    exact ⟨spaces, parts, rfl, hspaces, hends, hparts⟩

end

theorem le_of_readTail {opening name closing text : List Char} {shape : Shape} {head length : Nat}
    {args body : List Char} (hhead : headLength? opening name text = some head)
    (htail : readTail shape closing (text.drop head) = .complete args body length) :
    0 < length ∧ head + length ≤ text.length := by
  have hlength := length_of_readTail htail
  have hle := headLength?_le hhead
  rw [List.length_drop] at hlength
  omega

theorem succ_le_of_le {c : Char} {rest : List Char} {size : Nat} (h : size ≤ (c :: rest).length) :
    size - 1 + 1 ≤ (c :: rest).length := by
  rw [List.length_cons] at h ⊢
  omega

/-- Every directive that is found is spelled at its place. -/
theorem stands_of_mem_piecesFrom {delimiters : Delimiters} {name : List Char} {shape : Shape}
    {passed pending : List Char} {position : Nat} {text : List Char} {found : Directive}
    (h : found ∈
      (piecesFrom delimiters name shape passed pending position text).filterMap ofPiece?) :
    Stands delimiters.opening name shape (Taken delimiters.closing) position text found := by
  fun_induction piecesFrom delimiters name shape passed pending position text with
  | case1 => simp at h
  | case2 => simp [ofPiece?] at h
  | case3 passed pending position c rest hhead ih =>
      exact Stands.of_drop (show 1 ≤ (c :: rest).length by simp) (ih h)
  | case4 passed pending position c rest head hhead skipped htail ih =>
      exact (ih h).of_drop (succ_le_of_le (headLength?_le hhead))
  | case5 passed pending position c rest head hhead skipped part htail ih =>
      exact (ih h).of_drop (succ_le_of_le (headLength?_le hhead))
  | case6 passed pending position c rest head hhead args body length htail source stop before
      directive taken hempty ih
  | case7 passed pending position c rest head hhead args body length htail source stop before
      directive taken hempty ih =>
      obtain ⟨hpos, hle⟩ := le_of_readTail hhead htail
      have hstop : stop = position + (head + length) := by simp only [stop]; omega
      obtain rfl | h := List.mem_cons.mp h
      · rw [show directive = ⟨args, body, position, position + (head + length), before⟩ by
          rw [← hstop]]
        exact stands_of_readTail hhead htail position before
      · have hbehind : rest.drop (head + length - 1) = (c :: rest).drop (head + length) := by
          rw [← List.drop_succ_cons]
          congr 1
          omega
        have hrest := ih h
        rw [hstop, hbehind] at hrest
        exact hrest.of_drop hle

/-! ## Replacing directives -/

/-- The text from a position on, each of the directives in it replaced by its reply, or kept when
there is none. -/
def splice (text : List Char) (position : Nat) :
    List Directive → List (Option (List Char)) → List Char
  | [], _ => text.drop position
  | found :: rest, replies =>
    (text.take found.start).drop position ++
      (replies.head?.join.getD ((text.take found.stop).drop found.start) ++
        splice text found.stop rest replies.tail)

end Directive

namespace Piece

/-- The pieces put together, each directive replaced by its reply, or kept when there is none. -/
def fill : List Piece → List (Option (List Char)) → List Char
  | [], _ => []
  | .literal text :: rest, replies => text ++ fill rest replies
  | .unbalanced _ _ :: rest, replies => fill rest replies
  | .directive _ text :: rest, replies => replies.head?.join.getD text ++ fill rest replies.tail

variable {m : Type → Type} [Monad m]

/-- What is done at a piece: the reply of the handler for a directive, or the remark. -/
def visit (remark : Part → Nat → m Unit) (handler : Directive → m (Option (List Char))) :
    Piece → m (Option (Option (List Char)))
  | .literal _ => pure none
  | .unbalanced part start => do
    remark part start
    pure none
  | .directive found _ => some <$> handler found

variable [LawfulMonad m]

/-- The pieces are put together in one visit of each, from left to right. -/
theorem assemble_eq_fill (remark : Part → Nat → m Unit)
    (handler : Directive → m (Option (List Char))) (pieces : List Piece) :
    assemble remark handler pieces =
      (fun visits => fill pieces visits.reduceOption) <$> pieces.mapM (visit remark handler) := by
  induction pieces with
  | nil => simp [assemble, fill]
  | cons piece rest ih =>
      cases piece with
      | literal text => simp [assemble, visit, ih, fill]
      | unbalanced part start => simp [assemble, visit, ih, fill]
      | directive found text => simp [assemble, visit, ih, fill]

/-- Without remarks the handler alone is asked, once for each directive. -/
theorem assemble_eq_fill_replies (handler : Directive → m (Option (List Char)))
    (pieces : List Piece) :
    assemble (fun _ _ => pure ()) handler pieces =
      fill pieces <$> (pieces.filterMap Directive.ofPiece?).mapM handler := by
  induction pieces with
  | nil => simp [assemble, fill]
  | cons piece rest ih =>
      cases piece with
      | literal text => simp [assemble, List.filterMap_cons, Directive.ofPiece?, ih, fill]
      | unbalanced part start =>
          simp [assemble, List.filterMap_cons, Directive.ofPiece?, ih, fill]
      | directive found text => simp [assemble, Directive.ofPiece?, ih, fill]

end Piece

namespace Directive

/-- A scan stands at a position of a text, and no piece has taken the end of what it passed. -/
structure Scanned (whole passed pending : List Char) (position : Nat) (text : List Char) :
    Prop where
  split : whole = passed.reverse ++ text
  position_eq : position = passed.length
  pending_prefix : pending <+: passed

namespace Scanned

variable {whole passed pending text : List Char} {position : Nat}

theorem start (text : List Char) : Scanned text [] [] 0 text := ⟨rfl, rfl, List.prefix_refl []⟩

/-- The text behind that which a piece has taken. -/
theorem eq_pending (h : Scanned whole passed pending position text) :
    whole.drop (position - pending.length) = pending.reverse ++ text := by
  obtain ⟨rfl, rfl, older, rfl⟩ := h
  rw [List.reverse_append, List.length_append, Nat.add_sub_cancel_left, List.append_assoc,
    List.drop_left' List.length_reverse]

/-- The text that no piece has taken yet. -/
theorem pending_eq (h : Scanned whole passed pending position text) :
    (whole.take position).drop (position - pending.length) = pending.reverse := by
  obtain ⟨rfl, rfl, older, rfl⟩ := h
  rw [List.take_left' List.length_reverse, List.reverse_append, List.length_append,
    Nat.add_sub_cancel_left, List.drop_left' List.length_reverse]

theorem source_eq (h : Scanned whole passed pending position text) (count : Nat) :
    (whole.take (position + count)).drop position = text.take count := by
  obtain ⟨rfl, rfl, _⟩ := h
  rw [List.drop_take, Nat.add_sub_cancel_left, List.drop_left' List.length_reverse]

/-- The scan goes on behind some characters, which no piece has taken. -/
theorem skip (h : Scanned whole passed pending position text) {count : Nat}
    (hle : count ≤ text.length) :
    Scanned whole ((text.take count).reverse ++ passed) ((text.take count).reverse ++ pending)
      (position + count) (text.drop count) := by
  obtain ⟨rfl, rfl, hpending⟩ := h
  refine ⟨?_, ?_, (List.prefix_append_right_inj _).mpr hpending⟩
  · simp
  · simp only [List.length_append, List.length_reverse, List.length_take_of_le hle]
    omega

theorem skip_position (position : Nat) (pending : List Char) {text : List Char} {count : Nat}
    (hle : count ≤ text.length) :
    position + count - ((text.take count).reverse ++ pending).length =
      position - pending.length := by
  rw [List.length_append, List.length_reverse, List.length_take_of_le hle]
  omega

/-- The scan goes on behind a piece. -/
theorem taken (h : Scanned whole passed pending position text) :
    Scanned whole passed [] position text :=
  ⟨h.split, h.position_eq, List.nil_prefix⟩

/-- A directive is replaced behind the text that no piece has taken yet. -/
theorem splice_cons (h : Scanned whole passed pending position text) (args body before : List Char)
    (count : Nat) (rest : List Directive) (replies : List (Option (List Char))) :
    splice whole (position - pending.length)
        (⟨args, body, position, position + count, before⟩ :: rest) replies =
      pending.reverse ++ (replies.head?.join.getD (text.take count) ++
        splice whole (position + count) rest replies.tail) := by
  rw [splice, h.pending_eq, h.source_eq]

end Scanned

/-- Filling the pieces of a text replaces its directives and keeps the text between them. -/
theorem fill_piecesFrom {delimiters : Delimiters} {name : List Char} {shape : Shape}
    {passed pending : List Char} {position : Nat} {text whole : List Char}
    (h : Scanned whole passed pending position text) (replies : List (Option (List Char))) :
    Piece.fill (piecesFrom delimiters name shape passed pending position text) replies =
      splice whole (position - pending.length)
        ((piecesFrom delimiters name shape passed pending position text).filterMap ofPiece?)
        replies := by
  fun_induction piecesFrom delimiters name shape passed pending position text
    generalizing replies with
  | case1 passed pending position hempty =>
      have hdrop := h.eq_pending
      rw [List.isEmpty_iff.mp hempty] at hdrop ⊢
      exact hdrop.symm
  | case2 passed pending position hempty =>
      simp only [List.filterMap_cons, List.filterMap_nil, ofPiece?, splice, h.eq_pending]
      rfl
  | case3 passed pending position c rest hhead ih =>
      have hle : 1 ≤ (c :: rest).length := by simp
      rw [ih (h.skip hle), ← Scanned.skip_position position pending hle]
      rfl
  | case4 passed pending position c rest head hhead skipped htail ih =>
      have hle := succ_le_of_le (headLength?_le hhead)
      rw [ih (h.skip hle), ← Scanned.skip_position position pending hle]
      rfl
  | case5 passed pending position c rest head hhead skipped part htail ih =>
      have hle := succ_le_of_le (headLength?_le hhead)
      rw [Piece.fill, ih (h.skip hle), ← Scanned.skip_position position pending hle]
      rfl
  | case6 passed pending position c rest head hhead args body length htail source stop before
      directive taken hempty ih =>
      have hle := succ_le_of_le (le_of_readTail hhead htail).2
      have hrest := ih (h.skip hle).taken replies.tail
      have hsplice := h.splice_cons args body before (head + length - 1 + 1)
      rw [List.isEmpty_iff.mp hempty] at hsplice ⊢
      exact .trans (by rw [Piece.fill, hrest]; rfl) (hsplice _ _).symm
  | case7 passed pending position c rest head hhead args body length htail source stop before
      directive taken hempty ih =>
      have hle := succ_le_of_le (le_of_readTail hhead htail).2
      have hrest := ih (h.skip hle).taken replies.tail
      have hsplice := h.splice_cons args body before (head + length - 1 + 1)
      exact .trans (by rw [Piece.fill, Piece.fill, hrest]; rfl) (hsplice _ _).symm

/-- The directives of a text are taken from it exactly, and replacing them changes nothing else.
`ends` says what belongs to a directive behind its last bracket. When the name is empty, a delimiter
may be passed over that begins in another one. -/
structure Extraction (delimiters : Delimiters) (name : List Char) (shape : Shape)
    (ends : List Char → List Char → Prop) (text : List Char) : Prop where
  ordered : (all delimiters name shape text).Pairwise fun first second => first.stop ≤ second.start
  spelled : ∀ found ∈ all delimiters name shape text,
    Stands delimiters.opening name shape ends 0 text found
  complete : name ≠ [] → ∀ start, SpelledAt delimiters.opening name shape text start →
    ∃ found ∈ all delimiters name shape text, found.start ≤ start ∧ start < found.stop
  replaced : ∀ {m : Type → Type} [Monad m] [LawfulMonad m]
    (handler : Directive → m (Option (List Char))),
    Piece.assemble (fun _ _ => pure ()) handler (pieces delimiters name shape text) =
      splice text 0 (all delimiters name shape text) <$>
        (all delimiters name shape text).mapM handler
  remarked : ∀ {m : Type → Type} [Monad m] [LawfulMonad m] (remark : Part → Nat → m Unit)
    (handler : Directive → m (Option (List Char))),
    Piece.assemble remark handler (pieces delimiters name shape text) =
      (fun visits => splice text 0 (all delimiters name shape text) visits.reduceOption) <$>
        (pieces delimiters name shape text).mapM (Piece.visit remark handler)

/-- Directives are taken greedily, none is missed, and the text between them is kept. -/
theorem all_extracts (delimiters : Delimiters) (name : List Char) (shape : Shape) (text : List Char)
    (hopening : delimiters.opening ≠ []) (happart : ∀ c ∈ delimiters.opening, c ∉ name) :
    Extraction delimiters name shape (Taken delimiters.closing) text := by
  have hfill (replies : List (Option (List Char))) :
      Piece.fill (pieces delimiters name shape text) replies =
        splice text 0 (all delimiters name shape text) replies :=
    fill_piecesFrom (.start text) replies
  refine ⟨(all_advance delimiters name shape text).ordered,
    fun found hfound => stands_of_mem_piecesFrom hfound, fun hname start hstart => ?_,
    fun handler => ?_, fun remark handler => ?_⟩
  · obtain ⟨found, hfound, hinside⟩ :=
      exists_found_of_spelledAt hopening hname happart hstart
    rw [Nat.zero_add] at hinside
    exact ⟨found, hfound, hinside⟩
  · rw [Piece.assemble_eq_fill_replies, ← all_eq, funext hfill]
  · simp only [Piece.assemble_eq_fill, hfill]

/-- A head stands in arguments that do not end, and a block in the body of another one. -/
theorem all_extracts_nested :
    (['<', '%'] ≠ [] ∧ ∀ c ∈ ['<', '%'], c ∉ ['i', 'f']) ∧
      Extraction ⟨['<', '%'], ['%', '>']⟩ ['i', 'f'] .block (Taken ['%', '>'])
        "<%if (<%if (a) \x7b<%if(b)\x7b\x7d%>\x7d %>".toList :=
  ⟨by simp, all_extracts _ _ _ _ (by simp) (by simp)⟩

/-- A closing delimiter that begins with a blank is left where it stands behind a directive. -/
theorem not_all_extracts :
    ¬ Extraction ⟨['@', '@'], [' ', '%', '>']⟩ ['x'] .call (Ended [' ', '%', '>'])
      ['@', '@', 'x', '(', 'a', ')', ' ', '%', '>'] := by
  intro h
  have hall : all ⟨['@', '@'], [' ', '%', '>']⟩ ['x'] .call
      ['@', '@', 'x', '(', 'a', ')', ' ', '%', '>'] = [⟨['a'], [], 0, 6, []⟩] := by
    cbv
  obtain ⟨front, source, ending, rest, htext, hstart, hstop, _, hends⟩ :=
    h.spelled ⟨['a'], [], 0, 6, []⟩ (by rw [hall]; exact List.mem_cons_self)
  obtain rfl := List.length_eq_zero_iff.mp (Nat.add_eq_zero_iff.mp hstart.symm).2
  -- what belongs to the directive are the first six characters
  have hlength : (source ++ ending).length = 6 := by
    rw [List.length_append, ← Nat.zero_add source.length]
    exact hstop.symm
  rw [List.nil_append, ← List.append_assoc] at htext
  have htaken := congrArg (List.take 6) htext
  have hrest := congrArg (List.drop 6) htext
  rw [List.take_left' hlength] at htaken
  rw [List.drop_left' hlength] at hrest
  obtain ⟨blanks, _, rfl⟩ | ⟨_, hnone⟩ := hends
  · have hlast := congrArg List.getLast? htaken
    simp at hlast
  · exact hnone ⟨[], List.forall_mem_nil _, [], by simpa using hrest⟩

end Directive

end Transclude
