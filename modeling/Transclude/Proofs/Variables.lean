import Mathlib
import Transclude.Variable

/-! # The variables of a text

A variable is the opening delimiter, a name with any number of segments behind it,
and the closing delimiter. A text is divided into its variables and the characters
between them from left to right: where a variable begins, the one with the longest
path is taken, and the search goes on behind it. There is one such division, which
is that of the scan. -/

namespace Transclude.Variable

/-! ## Names -/

/-- A name as it may stand in a path. -/
def IsName (name : List Char) : Prop :=
  ∃ c rest, name = c :: rest ∧ Text.isIdentifierStart c = true ∧
    ∀ d ∈ rest, Text.isIdentifierPart d = true

theorem isName_cons {c : Char} {rest : List Char} : IsName (c :: rest) ↔
    Text.isIdentifierStart c = true ∧ rest.all Text.isIdentifierPart = true := by
  rw [List.all_eq_true]
  constructor
  · rintro ⟨_, _, heq, hstart, hrest⟩
    obtain ⟨rfl, rfl⟩ := List.cons.inj heq
    exact ⟨hstart, hrest⟩
  · exact fun ⟨hstart, hrest⟩ => ⟨c, rest, rfl, hstart, hrest⟩

instance : DecidablePred IsName
  | [] => .isFalse fun ⟨_, _, heq, _⟩ => List.cons_ne_nil _ _ heq.symm
  | _ :: _ => decidable_of_iff _ isName_cons.symm

/-- Names joined by points. -/
def dotted (names : List (List Char)) : List Char := List.intercalate ['.'] names

theorem IsName.all_part {name : List Char} (h : IsName name) :
    ∀ d ∈ name, Text.isIdentifierPart d = true := by
  obtain ⟨c, rest, rfl, hstart, hrest⟩ := h
  exact List.forall_mem_cons.mpr ⟨Text.isIdentifierPart_of_start hstart, hrest⟩

theorem IsName.ne_nil {name : List Char} (h : IsName name) : name ≠ [] := by
  obtain ⟨c, rest, rfl, _⟩ := h
  exact List.cons_ne_nil c rest

theorem not_part_point : Text.isIdentifierPart '.' = false := by decide

theorem not_part_sign : Text.isIdentifierPart '@' = false := by decide

theorem IsName.not_mem {name : List Char} (h : IsName name) {c : Char}
    (hc : Text.isIdentifierPart c = false) : c ∉ name := by
  intro hmem
  rw [h.all_part c hmem] at hc
  cases hc

/-- Identifier characters up to one that is none. -/
theorem takeWhile_name {name rest : List Char} (h : ∀ d ∈ name, Text.isIdentifierPart d = true)
    (hrest : ∀ c ∈ rest.head?, Text.isIdentifierPart c = false) :
    (name ++ rest).takeWhile Text.isIdentifierPart = name := by
  rw [List.takeWhile_append_of_pos h]
  cases rest with
  | nil => simp
  | cons c rest => rw [List.takeWhile_cons_of_neg (by simp [hrest c rfl]), List.append_nil]

theorem dotted_cons_cons (first second : List Char) (others : List (List Char)) :
    dotted (first :: second :: others) = first ++ '.' :: dotted (second :: others) := by
  simp [dotted, List.intercalate]

@[simp] theorem dotted_singleton (name : List Char) : dotted [name] = name := by
  simp [dotted, List.intercalate]

theorem dotted_ne_nil {names : List (List Char)} (hnames : ∀ name ∈ names, IsName name)
    (hne : names ≠ []) : dotted names ≠ [] := by
  cases names with
  | nil => exact absurd rfl hne
  | cons first others =>
      obtain ⟨c, more, rfl, _⟩ := hnames first (by simp)
      cases others with
      | nil => simp
      | cons second others => simp [dotted_cons_cons]

theorem not_mem_dotted {names : List (List Char)} (hnames : ∀ name ∈ names, IsName name) {c : Char}
    (hc : Text.isIdentifierPart c = false) (hpoint : c ≠ '.') : c ∉ dotted names := by
  induction names with
  | nil => simp [dotted, List.intercalate]
  | cons first others ih =>
      have hfirst := (hnames first (by simp)).not_mem hc
      cases others with
      | nil => rwa [dotted_singleton]
      | cons second others =>
          have hothers := ih fun name hname => hnames name (by simp [hname])
          rw [dotted_cons_cons]
          simp [hfirst, hothers, hpoint]

/-! ## Paths -/

/-- What may stand in a path behind a point. -/
def IsSegment (segment : List Char) : Prop :=
  segment ≠ [] ∧ ∀ c ∈ segment, Text.isIdentifierPart c = true

/-- A path is a name with segments behind it. -/
def IsPath : List (List Char) → Prop
  | [] => False
  | name :: segments => IsName name ∧ ∀ segment ∈ segments, IsSegment segment

/-- Segments, each behind a point. -/
def pointed (segments : List (List Char)) : List Char :=
  segments.flatMap fun segment => '.' :: segment

theorem isPath_of_isName {names : List (List Char)} (h : ∀ name ∈ names, IsName name)
    (hne : names ≠ []) : IsPath names := by
  cases names with
  | nil => exact hne rfl
  | cons name others =>
      obtain ⟨hname, hothers⟩ := List.forall_mem_cons.mp h
      exact ⟨hname, fun other hother =>
        ⟨(hothers other hother).ne_nil, (hothers other hother).all_part⟩⟩

theorem pointed_cons (segment : List Char) (rest : List (List Char)) :
    pointed (segment :: rest) = '.' :: (segment ++ pointed rest) := rfl

theorem dotted_cons (name : List Char) (segments : List (List Char)) :
    dotted (name :: segments) = name ++ pointed segments := by
  induction segments generalizing name with
  | nil => rw [dotted_singleton]; exact (List.append_nil name).symm
  | cons segment rest ih => rw [dotted_cons_cons, ih, pointed_cons]

/-- Behind a name the segments begin with a point. -/
theorem head_pointed_append (segments : List (List Char)) {rest : List Char}
    (hrest : ∀ c ∈ rest.head?, Text.isIdentifierPart c = false) :
    ∀ c ∈ (pointed segments ++ rest).head?, Text.isIdentifierPart c = false := by
  cases segments with
  | nil => exact hrest
  | cons segment others =>
      rintro c ⟨⟩
      exact not_part_point

theorem head_pointed (segments : List (List Char)) :
    ∀ c ∈ (pointed segments).head?, Text.isIdentifierPart c = false := by
  have h : ∀ c ∈ (pointed segments ++ []).head?, Text.isIdentifierPart c = false :=
    head_pointed_append segments nofun
  rwa [List.append_nil] at h

/-- The text of a path ends with a character of a name or segment. -/
theorem IsPath.exists_last {names : List (List Char)} (h : IsPath names) :
    ∃ front last, dotted names = front ++ [last] ∧ Text.isIdentifierPart last = true := by
  have hpart : ∀ {part : List Char}, part ≠ [] → (∀ c ∈ part, Text.isIdentifierPart c = true) →
      ∃ front last, part = front ++ [last] ∧ Text.isIdentifierPart last = true :=
    fun hne hall => ⟨_, _, (List.dropLast_append_getLast hne).symm, hall _ (List.getLast_mem hne)⟩
  cases names with
  | nil => exact h.elim
  | cons name segments =>
      obtain ⟨hname, hsegments⟩ := h
      rw [dotted_cons]
      obtain rfl | ⟨init, segment, rfl⟩ := List.eq_nil_or_concat segments
      · obtain ⟨front, last, heq, hlast⟩ := hpart hname.ne_nil hname.all_part
        exact ⟨front, last, by simp [pointed, heq], hlast⟩
      · obtain ⟨hne, hall⟩ := hsegments segment (by simp)
        obtain ⟨front, last, rfl, hlast⟩ := hpart hne hall
        exact ⟨name ++ pointed init ++ '.' :: front, last, by simp [pointed], hlast⟩

/-- A path is known from its text. -/
theorem IsPath.splitOn_dotted {names : List (List Char)} (h : IsPath names) :
    (dotted names).splitOn '.' = names := by
  cases names with
  | nil => exact h.elim
  | cons name segments =>
      refine List.splitOn_intercalate '.' ?_ (List.cons_ne_nil name segments)
      refine List.forall_mem_cons.mpr ⟨h.1.not_mem not_part_point, ?_⟩
      intro segment hsegment hpoint
      have hpart := (h.2 segment hsegment).2 '.' hpoint
      rw [not_part_point] at hpart
      cases hpart

/-! ## The longest path -/

/-- A path ends before the rest. -/
def Ends (rest : List Char) : Prop :=
  ∀ c ∈ rest.head?, Text.isIdentifierPart c = false ∧ c ≠ '.'

/-- The segments that a text begins with are counted. -/
theorem length_pointed_le {segments : List (List Char)}
    (h : ∀ segment ∈ segments, IsSegment segment) (rest : List Char) :
    (pointed segments).length ≤ segmentsLength (pointed segments ++ rest) := by
  induction segments with
  | nil => exact Nat.zero_le _
  | cons segment more ih =>
      obtain ⟨⟨hne, hall⟩, hmore⟩ := List.forall_mem_cons.mp h
      have hpos := List.length_pos_iff.mpr hne
      rw [pointed_cons, List.cons_append, List.append_assoc, segmentsLength,
        List.takeWhile_append_of_pos hall]
      cases more with
      | nil =>
          simp only [pointed, List.flatMap_nil, List.nil_append, List.append_nil, List.length_cons,
            List.length_append]
          rw [if_neg (by omega)]
          omega
      | cons next others =>
          -- the point of the next segment ends this one
          have hpoint : (pointed (next :: others) ++ rest).takeWhile Text.isIdentifierPart = [] :=
            List.takeWhile_cons_of_neg (by rw [not_part_point]; exact Bool.false_ne_true)
          have hrest := ih hmore
          rw [hpoint, List.append_nil, List.drop_left, if_neg (by omega), List.length_cons,
            List.length_append]
          omega

/-- Nothing of a path is left where it ends. -/
theorem segmentsLength_of_ends {rest : List Char} (h : Ends rest) : segmentsLength rest = 0 := by
  cases rest with
  | nil =>
      rw [segmentsLength]
      intro _ heq
      cases heq
  | cons c rest =>
      rw [segmentsLength]
      intro _ heq
      exact (h c rfl).2 (List.cons.inj heq).1

/-- Where they end, the segments are all that is counted. -/
theorem segmentsLength_pointed {segments : List (List Char)} {rest : List Char}
    (h : ∀ segment ∈ segments, IsSegment segment) (hrest : Ends rest) :
    segmentsLength (pointed segments ++ rest) = (pointed segments).length := by
  induction segments with
  | nil => exact segmentsLength_of_ends hrest
  | cons segment more ih =>
      obtain ⟨⟨hne, hall⟩, hmore⟩ := List.forall_mem_cons.mp h
      have hpos := List.length_pos_iff.mpr hne
      have hends := head_pointed_append more fun c hc => (hrest c hc).1
      rw [pointed_cons, List.cons_append, List.append_assoc, segmentsLength,
        takeWhile_name hall hends, List.drop_left, if_neg (by omega), ih hmore, List.length_cons,
        List.length_append]
      omega

/-- Places behind a word are counted from its end. -/
theorem getElem?_behind (c : Char) (word behind : List Char) (place : Nat) :
    (c :: (word ++ behind))[word.length + (place + 1)]? = behind[place]? := by
  rw [← Nat.add_assoc, List.getElem?_cons_succ, List.getElem?_append_right (Nat.le_add_right _ _),
    Nat.add_sub_cancel_left]

/-- A beginning of a text that is counted as segments and does not end with a point is made of
segments. -/
theorem exists_pointed {text : List Char} {count : Nat} (hcount : count ≤ segmentsLength text)
    (hlast : ∀ before, count = before + 1 → text[before]? ≠ some '.') :
    ∃ segments, (∀ segment ∈ segments, IsSegment segment) ∧ text.take count = pointed segments := by
  fun_induction segmentsLength text generalizing count with
  | case1 rest length => exact ⟨[], List.forall_mem_nil _, by rw [Nat.le_zero.mp hcount]; rfl⟩
  | case3 text htext => exact ⟨[], List.forall_mem_nil _, by rw [Nat.le_zero.mp hcount]; rfl⟩
  | case2 rest length hne =>
      rename_i ih
      have hlength : length = (rest.takeWhile Text.isIdentifierPart).length := rfl
      clear_value length
      obtain ⟨run, behind, hrest, hword⟩ : ∃ run behind, rest = run ++ behind ∧
          rest.takeWhile Text.isIdentifierPart = run :=
        ⟨_, _, List.takeWhile_append_dropWhile.symm, rfl⟩
      have hall : ∀ c ∈ run, Text.isIdentifierPart c = true :=
        fun c hc => List.mem_takeWhile_imp (hword ▸ hc)
      rw [hword] at hlength
      subst hrest hlength
      rw [List.drop_left] at hcount ih
      cases count with
      | zero => exact ⟨[], List.forall_mem_nil _, rfl⟩
      | succ before =>
          have hpos : before ≠ 0 := by
            rintro rfl
            exact hlast 0 rfl rfl
          by_cases hinside : before ≤ run.length
          · refine ⟨[run.take before], List.forall_mem_singleton.mpr ⟨?_, ?_⟩, ?_⟩
            · rw [ne_eq, List.take_eq_nil_iff, not_or]
              exact ⟨hpos, fun hnil => hne (by rw [hnil]; rfl)⟩
            · exact fun c hc => hall c (List.mem_of_mem_take hc)
            · simp [pointed, List.take_append_of_le_length hinside]
          · obtain ⟨more, rfl⟩ : ∃ more, before = run.length + more :=
              ⟨before - run.length, by omega⟩
            have hrest : ∀ place, more = place + 1 → behind[place]? ≠ some '.' := by
              rintro place rfl
              rw [← getElem?_behind '.' run behind place]
              exact hlast _ rfl
            obtain ⟨segments, hsegments, htake⟩ := ih (by omega) hrest
            refine ⟨run :: segments, List.forall_mem_cons.mpr
              ⟨⟨fun hnil => hne (by rw [hnil]; rfl), hall⟩, hsegments⟩, ?_⟩
            rw [List.take_succ_cons, List.take_length_add_append, htake]
            rfl

/-- A path that a text begins with is counted. -/
theorem length_dotted_le {names : List (List Char)} (h : IsPath names) (rest : List Char) :
    (dotted names).length ≤ pathLength (dotted names ++ rest) := by
  cases names with
  | nil => exact h.elim
  | cons name segments =>
      obtain ⟨⟨c, more, rfl, hstart, hmore⟩, hsegments⟩ := h
      simp only [dotted_cons, List.append_assoc, List.cons_append]
      rw [pathLength, if_pos hstart, List.takeWhile_append_of_pos hmore]
      dsimp only
      cases segments with
      | nil => simp [pointed]; omega
      | cons segment others =>
          have hpoint :
              (pointed (segment :: others) ++ rest).takeWhile Text.isIdentifierPart = [] :=
            List.takeWhile_cons_of_neg (by rw [not_part_point]; exact Bool.false_ne_true)
          have hdrop : (c :: (more ++ (pointed (segment :: others) ++ rest))).drop
              (1 + more.length) = pointed (segment :: others) ++ rest := by
            rw [Nat.add_comm, List.drop_succ_cons, List.drop_left]
          have hlength := length_pointed_le hsegments rest
          rw [hpoint, List.append_nil, hdrop, List.length_cons, List.length_append]
          omega

/-- A path that ends is read as far as it goes. -/
theorem pathLength_dotted {names : List (List Char)} {rest : List Char} (h : IsPath names)
    (hrest : Ends rest) : pathLength (dotted names ++ rest) = (dotted names).length := by
  cases names with
  | nil => exact h.elim
  | cons name segments =>
      obtain ⟨⟨c, more, rfl, hstart, hmore⟩, hsegments⟩ := h
      have hends := head_pointed_append segments fun c hc => (hrest c hc).1
      simp only [dotted_cons, List.append_assoc, List.cons_append]
      rw [pathLength, if_pos hstart, takeWhile_name hmore hends]
      dsimp only
      rw [Nat.add_comm 1, List.drop_succ_cons, List.drop_left,
        segmentsLength_pointed hsegments hrest, List.length_cons, List.length_append]
      omega

theorem segmentsLength_le (text : List Char) : segmentsLength text ≤ text.length := by
  fun_induction segmentsLength text with
  | case1 | case3 => exact Nat.zero_le _
  | case2 rest length hne =>
      rename_i ih
      have hlength : length ≤ rest.length := (List.takeWhile_sublist _).length_le
      rw [List.length_drop] at ih
      rw [List.length_cons]
      omega

theorem pathLength_le (text : List Char) : pathLength text ≤ text.length := by
  cases text with
  | nil => exact Nat.zero_le _
  | cons c rest =>
      have hword : (rest.takeWhile Text.isIdentifierPart).length ≤ rest.length :=
        (List.takeWhile_sublist _).length_le
      have hsegments := segmentsLength_le
        ((c :: rest).drop (1 + (rest.takeWhile Text.isIdentifierPart).length))
      rw [List.length_drop, List.length_cons] at hsegments
      rw [pathLength, List.length_cons]
      split
      next => dsimp only; omega
      next => exact Nat.zero_le _

/-- A beginning of a text that is counted as a path and does not end with a point is one. -/
theorem exists_path {text : List Char} {count : Nat} (hcount : count < pathLength text)
    (hlast : text[count]? ≠ some '.') :
    ∃ names, IsPath names ∧ text.take (count + 1) = dotted names := by
  cases text with
  | nil => exact (Nat.not_lt_zero _ hcount).elim
  | cons c rest =>
      rw [pathLength] at hcount
      split at hcount
      next hstart =>
        obtain ⟨run, behind, hrest, hword⟩ : ∃ run behind, rest = run ++ behind ∧
            rest.takeWhile Text.isIdentifierPart = run :=
          ⟨_, _, List.takeWhile_append_dropWhile.symm, rfl⟩
        have hall : ∀ d ∈ run, Text.isIdentifierPart d = true :=
          fun d hd => List.mem_takeWhile_imp (hword ▸ hd)
        dsimp only at hcount
        rw [hword] at hcount
        subst hrest
        rw [Nat.add_comm 1, List.drop_succ_cons, List.drop_left] at hcount
        by_cases hinside : count ≤ run.length
        · refine ⟨[c :: run.take count], ⟨⟨c, _, rfl, hstart, ?_⟩, List.forall_mem_nil _⟩, ?_⟩
          · exact fun d hd => hall d (List.mem_of_mem_take hd)
          · rw [dotted_singleton, List.take_succ_cons, List.take_append_of_le_length hinside]
        · obtain ⟨more, rfl⟩ : ∃ more, count = run.length + more := ⟨count - run.length, by omega⟩
          have hmore : more ≤ segmentsLength behind := by omega
          have hrest : ∀ place, more = place + 1 → behind[place]? ≠ some '.' := by
            rintro place rfl
            rwa [← getElem?_behind c run behind place]
          obtain ⟨segments, hsegments, htake⟩ := exists_pointed hmore hrest
          refine ⟨(c :: run) :: segments, ⟨⟨c, run, rfl, hstart, hall⟩, hsegments⟩, ?_⟩
          rw [dotted_cons, List.take_succ_cons, List.take_length_add_append, htake,
            List.cons_append]
      next => exact (Nat.not_lt_zero _ hcount).elim

/-- At a place a path may end: it does not stand at a point, and the closing delimiter follows. -/
def MayEnd (closing text : List Char) (place : Nat) : Prop :=
  text[place]? ≠ some '.' ∧ closing <+: text.drop (place + 1)

theorem closedLength?_eq_none_iff (closing text : List Char) (bound : Nat) :
    closedLength? closing text bound = none ↔ ∀ place < bound, ¬ MayEnd closing text place := by
  induction bound with
  | zero => exact ⟨fun _ _ h => (Nat.not_lt_zero _ h).elim, fun _ => rfl⟩
  | succ bound ih =>
      have hends : (text[bound]? != some '.' && closing.isPrefixOf (text.drop (bound + 1))) = true ↔
          MayEnd closing text bound := by
        rw [Bool.and_eq_true, bne_iff_ne, List.isPrefixOf_iff_prefix, MayEnd]
      rw [closedLength?]
      split
      next h =>
        rw [iff_false_left (Option.some_ne_none _)]
        exact fun hnone => hnone bound (Nat.lt_succ_self bound) (hends.mp h)
      next h =>
        rw [ih]
        constructor
        · intro hnone place hplace
          obtain hlt | rfl := Nat.lt_succ_iff_lt_or_eq.mp hplace
          · exact hnone place hlt
          · exact fun hend => h (hends.mpr hend)
        · exact fun hnone place hplace => hnone place (Nat.lt_succ_of_lt hplace)

/-- The last place up to a bound at which a path may end. -/
theorem exists_of_closedLength? {closing text : List Char} {bound length : Nat}
    (h : closedLength? closing text bound = some length) :
    ∃ place, length = place + 1 ∧ place < bound ∧ MayEnd closing text place ∧
      ∀ other < bound, MayEnd closing text other → other ≤ place := by
  induction bound with
  | zero => cases h
  | succ bound ih =>
      rw [closedLength?] at h
      split at h
      next hends =>
        rw [Bool.and_eq_true, bne_iff_ne, List.isPrefixOf_iff_prefix] at hends
        cases h
        exact ⟨bound, rfl, Nat.lt_succ_self bound, hends, fun _ hother _ => Nat.le_of_lt_succ hother⟩
      next hends =>
        obtain ⟨place, hlength, hplace, hend, hlongest⟩ := ih h
        refine ⟨place, hlength, Nat.lt_succ_of_lt hplace, hend, fun other hother hother' => ?_⟩
        obtain hlt | rfl := Nat.lt_succ_iff_lt_or_eq.mp hother
        · exact hlongest other hlt hother'
        · refine (hends ?_).elim
          rw [Bool.and_eq_true, bne_iff_ne, List.isPrefixOf_iff_prefix]
          exact hother'

/-! ## Where variables begin -/

/-- The text of the variable with a path. -/
def source (delimiters : Delimiters) (names : List (List Char)) : List Char :=
  delimiters.opening ++ dotted names ++ delimiters.closing

/-- The text begins with the variable with a path. -/
def Begins (delimiters : Delimiters) (text : List Char) (names : List (List Char)) : Prop :=
  IsPath names ∧ source delimiters names <+: text

variable {delimiters : Delimiters} {names : List (List Char)} {text : List Char}

/-- The path of a variable ends at a place where it may end. -/
theorem mayEnd_of_path {closing : List Char} (hnames : IsPath names)
    (hbegins : dotted names ++ closing <+: text) :
    ∃ place, (dotted names).length = place + 1 ∧ place < pathLength text ∧
      MayEnd closing text place := by
  obtain ⟨rest, rfl⟩ := hbegins
  have hbound := length_dotted_le hnames (closing ++ rest)
  obtain ⟨front, last, heq, hlast⟩ := hnames.exists_last
  rw [← List.append_assoc] at hbound
  have hlength : (dotted names).length = front.length + 1 := by simp [heq]
  refine ⟨front.length, hlength, by omega, ?_, ?_⟩
  · have hpoint : last ≠ '.' := by
      rintro rfl
      rw [not_part_point] at hlast
      cases hlast
    simp [heq, hpoint]
  · rw [← hlength, List.append_assoc, List.drop_left]
    exact List.prefix_append closing rest

/-- Up to a place where it may end the text is a path. -/
theorem path_of_mayEnd {closing : List Char} {place : Nat} (hplace : place < pathLength text)
    (hend : MayEnd closing text place) :
    ∃ names, IsPath names ∧ text.take (place + 1) = dotted names ∧
      dotted names ++ closing <+: text := by
  obtain ⟨names, hnames, htake⟩ := exists_path hplace hend.1
  refine ⟨names, hnames, htake, ?_⟩
  rw [← htake]
  conv => rhs; rw [← List.take_append_drop (place + 1) text]
  exact (List.prefix_append_right_inj _).mpr hend.2

theorem begins_iff (hopening : delimiters.opening.isPrefixOf text = true) :
    Begins delimiters text names ↔
      IsPath names ∧ dotted names ++ delimiters.closing <+: text.drop delimiters.opening.length := by
  obtain ⟨rest, rfl⟩ := List.isPrefixOf_iff_prefix.mp hopening
  rw [Begins, source, List.append_assoc, List.prefix_append_right_inj, List.drop_left]

theorem not_begins (hopening : ¬ delimiters.opening.isPrefixOf text = true) :
    ¬ Begins delimiters text names := by
  rintro ⟨_, h⟩
  rw [source, List.append_assoc] at h
  exact hopening (List.isPrefixOf_iff_prefix.mpr ((List.prefix_append _ _).trans h))

/-- No path is found where no variable begins. -/
theorem path?_eq_none_iff :
    path? delimiters text = none ↔ ∀ names, ¬ Begins delimiters text names := by
  unfold path?
  split
  next hopening =>
    simp only [begins_iff hopening, Option.map_eq_none_iff, closedLength?_eq_none_iff]
    constructor
    · rintro hnone names ⟨hnames, hprefix⟩
      obtain ⟨place, -, hplace, hend⟩ := mayEnd_of_path hnames hprefix
      exact hnone place hplace hend
    · intro hnone place hplace hend
      obtain ⟨names, hnames, -, hprefix⟩ := path_of_mayEnd hplace hend
      exact hnone names ⟨hnames, hprefix⟩
  next hopening => exact ⟨fun _ names => not_begins hopening, fun _ => rfl⟩

/-- The path that is found is the longest one of a variable that begins there. -/
theorem exists_of_path? {path : List Char} (h : path? delimiters text = some path) :
    ∃ names, path = dotted names ∧ Begins delimiters text names ∧
      ∀ other, Begins delimiters text other → (dotted other).length ≤ (dotted names).length := by
  unfold path? at h
  split at h
  next hopening =>
    simp only [begins_iff hopening]
    obtain ⟨length, hlength, rfl⟩ := Option.map_eq_some_iff.mp h
    obtain ⟨place, rfl, hplace, hend, hlongest⟩ := exists_of_closedLength? hlength
    obtain ⟨names, hnames, htake, hprefix⟩ := path_of_mayEnd hplace hend
    refine ⟨names, htake, ⟨hnames, hprefix⟩, ?_⟩
    rintro other ⟨hother, hprefix'⟩
    obtain ⟨place', hlength', hplace', hend'⟩ := mayEnd_of_path hother hprefix'
    have hle := hlongest place' hplace' hend'
    have hbound := pathLength_le (text.drop delimiters.opening.length)
    rw [hlength', ← htake, List.length_take]
    omega
  next => cases h

/-! ## The division of a text -/

/-- A text is divided from left to right: where a variable begins, the longest one is taken whole,
and anywhere else a character. -/
inductive Divides (delimiters : Delimiters) : List Char → List Fragment → Prop
  | nil : Divides delimiters [] []
  | char {c : Char} {rest : List Char} {fragments : List Fragment}
    (hnone : ∀ names, ¬ Begins delimiters (c :: rest) names)
    (hrest : Divides delimiters rest fragments) :
    Divides delimiters (c :: rest) (.char c :: fragments)
  | token {names : List (List Char)} {rest : List Char} {fragments : List Fragment}
    (hnames : IsPath names)
    (hlongest : ∀ other, Begins delimiters (source delimiters names ++ rest) other →
      (dotted other).length ≤ (dotted names).length)
    (hrest : Divides delimiters rest fragments) :
    Divides delimiters (source delimiters names ++ rest)
      (.variable (dotted names) (source delimiters names) :: fragments)

/-- The scan divides a text. -/
theorem divides_fragments (delimiters : Delimiters) (text : List Char) :
    Divides delimiters text (fragments delimiters text) := by
  fun_induction fragments delimiters text with
  | case1 => exact .nil
  | case2 c rest hpath ih => exact .char (path?_eq_none_iff.mp hpath) ih
  | case3 c rest path hpath length ih =>
      obtain ⟨names, rfl, ⟨hnames, behind, hbehind⟩, hlongest⟩ := exists_of_path? hpath
      have hlength : (source delimiters names).length = length + 1 := by
        obtain ⟨front, last, heq, -⟩ := hnames.exists_last
        simp only [source, List.length_append, heq, List.length_singleton, length]
        omega
      have htake : (c :: rest).take (length + 1) = source delimiters names := by
        rw [← hbehind, ← hlength, List.take_left]
      have hdrop : (c :: rest).drop (length + 1) = behind := by
        rw [← hbehind, ← hlength, List.drop_left]
      rw [List.take_succ_cons] at htake
      rw [List.drop_succ_cons] at hdrop
      rw [htake, hdrop, ← hbehind]
      rw [hdrop] at ih
      rw [← hbehind] at hlongest
      exact .token hnames hlongest ih

/-- Where the variable with a path begins and none with a longer one, that path is found. -/
theorem path?_source {rest : List Char} (hnames : IsPath names)
    (hlongest : ∀ other, Begins delimiters (source delimiters names ++ rest) other →
      (dotted other).length ≤ (dotted names).length) :
    path? delimiters (source delimiters names ++ rest) = some (dotted names) := by
  have hbegins : Begins delimiters (source delimiters names ++ rest) names :=
    ⟨hnames, List.prefix_append _ _⟩
  cases hpath : path? delimiters (source delimiters names ++ rest) with
  | none => exact (path?_eq_none_iff.mp hpath names hbegins).elim
  | some path =>
      obtain ⟨found, rfl, hfound, hfound'⟩ := exists_of_path? hpath
      have hlength := Nat.le_antisymm (hlongest found hfound) (hfound' names hbegins)
      have hboth : dotted found ++ (delimiters.closing) <+:
          dotted names ++ (delimiters.closing ++ rest) := by
        have hprefix := hfound.2
        rwa [source, source, List.append_assoc, List.append_assoc, List.append_assoc,
          List.prefix_append_right_inj] at hprefix
      have hpaths : dotted found <+: dotted names :=
        List.prefix_of_prefix_length_le ((List.prefix_append _ _).trans hboth)
          (List.prefix_append _ _) hlength.le
      rw [hpaths.eq_of_length hlength]

theorem fragments_source_append {rest : List Char} (hnames : IsPath names)
    (hlongest : ∀ other, Begins delimiters (source delimiters names ++ rest) other →
      (dotted other).length ≤ (dotted names).length) :
    fragments delimiters (source delimiters names ++ rest) =
      .variable (dotted names) (source delimiters names) :: fragments delimiters rest := by
  have hpath := path?_source hnames hlongest
  obtain ⟨front, last, heq, -⟩ := hnames.exists_last
  have hlength : (source delimiters names).length =
      delimiters.opening.length + (dotted names).length + delimiters.closing.length - 1 + 1 := by
    simp only [source, List.length_append, heq, List.length_singleton]
    omega
  cases htext : source delimiters names ++ rest with
  | nil =>
      have hnil := (List.append_eq_nil_iff.mp htext).1
      rw [hnil] at hlength
      cases hlength
  | cons c tail =>
      rw [htext] at hpath
      rw [fragments, hpath]
      dsimp only
      rw [← List.take_succ_cons, ← List.drop_succ_cons (a := c), ← htext, ← hlength,
        List.take_left, List.drop_left]

/-- The division of a text is that of the scan. -/
theorem Divides.eq_fragments {divided : List Fragment} (h : Divides delimiters text divided) :
    divided = fragments delimiters text := by
  induction h with
  | nil => rw [fragments]
  | char hnone _ ih =>
      rw [fragments, path?_eq_none_iff.mpr hnone]
      exact congrArg _ ih
  | token hnames hlongest _ ih => rw [fragments_source_append hnames hlongest, ih]

end Transclude.Variable
