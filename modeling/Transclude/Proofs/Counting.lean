import Mathlib
import Transclude.Proofs.Nesting
import Transclude.Proofs.Words

/-! # Counted loops over integers

A loop that counts from one integer towards another is the loop over the list of
the values on the way. Both take the same values one after the other and both stop
after as many iterations as there may be. -/

namespace Transclude.Loop

open Transclude.Expr

/-- The direction in which a loop counts. -/
inductive Course
  | up
  | down

namespace Course

variable (course : Course)

/-- The comparison that lets the loop go on. -/
def test : Course → BinaryOp
  | up => .less
  | down => .greater

/-- The operator that changes the variable by an amount. -/
def assignment : Course → Operator
  | up => .addAssign
  | down => .subAssign

/-- The operator that changes the variable by one. -/
def counting : Course → Operator
  | up => .increment
  | down => .decrement

/-- Whether a value lies before a bound. -/
def Before (value bound : Int) : Prop :=
  match course with
  | up => value < bound
  | down => bound < value

instance (value bound : Int) : Decidable (course.Before value bound) :=
  match course with
  | up => inferInstanceAs (Decidable (value < bound))
  | down => inferInstanceAs (Decidable (bound < value))

/-- The value at a distance behind another one. -/
def behind (value : Int) (distance : Nat) : Int :=
  match course with
  | up => value + distance
  | down => value - distance

/-- How many values lie before a bound when one in so many is taken, the first one included. -/
def count (first bound : Int) (size : Nat) : Nat :=
  match course with
  | up => ((bound - first + (size - 1)) / size).toNat
  | down => ((first - bound + (size - 1)) / size).toNat

theorem lt_count_iff {first bound : Int} {size : Nat} (hsize : 1 ≤ size) (k : Nat) :
    k < course.count first bound size ↔ course.Before (course.behind first (k * size)) bound := by
  have hpositive : (0 : Int) < size := by omega
  have hdivide (distance : Int) :
      k < ((distance + (size - 1)) / size).toNat ↔ ((k * size : Nat) : Int) < distance := by
    rw [Int.lt_toNat, ← Int.add_one_le_iff, Int.le_ediv_iff_mul_le hpositive, Int.add_mul]
    push_cast
    omega
  cases course with
  | up =>
      rw [count, hdivide, Before, behind]
      omega
  | down =>
      rw [count, hdivide, Before, behind]
      omega

/-- The values before a bound, one in so many. -/
def values (first bound : Int) (size : Nat) : List Int :=
  (List.range (course.count first bound size)).map fun k => course.behind first (k * size)

/-- The texts of a step by an amount. -/
def steps (name : String) (size : Nat) : List String :=
  (name ++ " " ++ course.assignment.spelling ++ " " ++ toString size) ::
    if size = 1 then [name ++ course.counting.spelling] else []

/-- The header of a loop that counts. -/
def header (name : String) (first bound : Int) (step : String) : String :=
  name ++ " = " ++ toString first ++ "; " ++ name ++ " " ++ course.test.spelling ++ " " ++
    toString bound ++ "; " ++ step

end Course

/-- The header of a loop over a list of integers. -/
def listHeader (name : String) (values : List Int) : String :=
  name ++ " of [" ++ commaSeparated (values.map toString) ++ "]"

/-! ## The values of a counter -/

/-- From a value on, a counter has these values as long as its test holds. -/
inductive Counts (goes : Int → Bool) (next : Int → Int) : Int → List Int → Prop
  | stop {value : Int} (hgoes : goes value = false) : Counts goes next value []
  | more {value : Int} {rest : List Int} (hgoes : goes value = true)
    (hrest : Counts goes next (next value) rest) : Counts goes next value (value :: rest)

theorem Course.counts (course : Course) {bound : Int} {size : Nat} (first : Int) {count : Nat}
    (h : ∀ k : Nat, k < count ↔ course.Before (course.behind first (k * size)) bound) :
    Counts (fun value => decide (course.Before value bound)) (course.behind · size) first
      ((List.range count).map fun k => course.behind first (k * size)) := by
  have hzero : course.behind first (0 * size) = first := by cases course <;> simp [behind]
  induction count generalizing first with
  | zero =>
      have hfirst := h 0
      rw [hzero] at hfirst
      exact .stop (by simpa using hfirst)
  | succ count ih =>
      have hbehind (k : Nat) : course.behind first ((k + 1) * size) =
          course.behind (course.behind first size) (k * size) := by
        cases course <;> simp only [behind] <;> push_cast <;> ring
      have hfirst := h 0
      rw [hzero] at hfirst
      rw [List.range_succ_eq_map, List.map_cons, hzero, List.map_map]
      refine .more (by simpa using hfirst) ?_
      simp only [Function.comp_def, Nat.succ_eq_add_one, hbehind]
      refine ih _ (fun k => ?_) (by cases course <;> simp [behind])
      rw [← hbehind, ← h (k + 1)]
      omega

section

variable {render : Scope → List Nat → Evaluation String} {name : String} {test : Option Expr}
  {update : Option LoopUpdate} {scope : Scope} {path : List Nat}

/-- A counted loop renders the values of its counter one after the other. -/
theorem countedFrom_eq_eachFrom {goes : Int → Bool} {next : Int → Int}
    (htest : ∀ value place, goesOn ((name, .number (.int value)) :: scope) place test =
      .ok (goes value))
    (hstep : ∀ value place, step ((name, .number (.int value)) :: scope) place name update
      (.number (.int value)) = .ok (.number (.int (next value))))
    {value : Int} {values : List Int} (h : Counts goes next value values) {left : Nat}
    (hleft : left ≤ maxIterations) :
    countedFrom render name test update scope path left (.number (.int value)) =
      eachFrom render name scope path (maxIterations - left)
        (values.map fun value => .number (.int value)) := by
  induction h generalizing left with
  | stop hgoes =>
      rw [countedFrom.eq_def]
      simp only [htest, hgoes, ok_bind]
      rfl
  | more hgoes _ ih =>
      rw [countedFrom.eq_def, List.map_cons, eachFrom]
      simp only [htest, hgoes, ok_bind, if_true]
      cases left with
      | zero => rw [Nat.sub_zero, if_pos rfl]
      | succ left =>
          have hnext : maxIterations - (left + 1) + 1 = maxIterations - left := by omega
          rw [if_neg (by omega), hnext, ← ih (by omega)]
          simp only [hstep, ok_bind]

/-- A loop over values renders each of them in its place, and fails when there are too many. -/
theorem eachFrom_eq_mapM {count : Nat} (hcount : count ≤ maxIterations) (values : List Located) :
    eachFrom render name scope path count values = do
      let texts ← ((values.take (maxIterations - count)).zipIdx count).mapM fun entry =>
        render ((name, entry.1) :: scope) (2 :: entry.2 :: path)
      if maxIterations - count < values.length then .error (.error .tooManyIterations)
      else return texts := by
  induction values generalizing count with
  | nil => simp [eachFrom, pure, Except.pure]
  | cons value rest ih =>
      rw [eachFrom]
      split
      next hlast => simp [hlast]
      next hnot =>
        obtain ⟨left, hleft⟩ : ∃ left, maxIterations - count = left + 1 :=
          ⟨maxIterations - count - 1, by omega⟩
        have hnext : maxIterations - (count + 1) = left := by omega
        rw [ih (by omega), hleft, hnext]
        simp only [List.take_succ_cons, List.zipIdx_cons, List.mapM_cons, bind_assoc, pure_bind,
          List.length_cons, Nat.add_lt_add_iff_right]
        congr 1
        funext text
        congr 1
        funext texts
        split <;> rfl

end

variable {name : String}

/-! ## Headers -/

/-- A name that a loop can give to its variable. -/
structure IsVariable (name : String) : Prop where
  spelled : Variable.IsName name.toList
  free : Keyword.ofWord? name = none

theorem IsVariable.spells (h : IsVariable name) {rest : List Char} {lexemes : List Lexeme}
    (hends : ∀ c ∈ rest.head?, Text.isIdentifierPart c = false) (hrest : Spells rest lexemes) :
    Spells (name.toList ++ rest) (.identifier name :: lexemes) := by
  have hlexeme : wordLexeme name.toList = .identifier name := by
    have hfree : (Keyword.all.find? fun keyword => keyword.spelling == name) = none := h.free
    simp only [wordLexeme, String.ofList_toList, hfree]
  rw [← hlexeme]
  exact .word (word_name h.spelled hends) hrest

namespace Course

variable (course : Course)

/-- A text is that of an update by an amount. -/
def Updates (name : String) (size : Nat) (text : String) : Prop :=
  ∃ (update : LoopUpdate) (lexemes : List Lexeme), update.Stratified ∧
    Spells text.toList lexemes ∧ lexemes.map Lexeme.terminal ∈ update.flattenings ∧
    ∀ scope place value, step scope place name (some update) (.number (.int value)) =
      .ok (.number (.int (course.behind value size)))

theorem updates_assignment (hname : IsVariable name) (size : Nat) :
    course.Updates name size
      (name ++ " " ++ course.assignment.spelling ++ " " ++ toString size) := by
  have hsize : Spells (Nat.toDigits 10 size) (intLexemes size) := by
    have hword := Spells.word (word_digits size endsNumber_nil) .nil
    rwa [List.append_nil] at hword
  have hspells := hname.spells (by rintro c ⟨⟩; decide) (hsize.operator course.assignment)
  have htext : (name ++ " " ++ course.assignment.spelling ++ " " ++ toString size).toList =
      name.toList ++ ' ' :: (course.assignment.spelling.toList ++
        ' ' :: Nat.toDigits 10 size) := by
    simp
  rw [Updates, htext]
  have hstratified := stratified_ofInt size
  cases course with
  | up =>
      refine ⟨⟨name, .addAssign (ofInt size)⟩, _, by rintro _ ⟨⟩; exact hstratified, hspells,
        List.mem_singleton.mpr ?_, ?_⟩
      · rw [flatten_ofInt]
        rfl
      · intro scope place value
        simp only [step, ne_eq, not_true_eq_false, if_false, eval_ofInt]
        rfl
  | down =>
      refine ⟨⟨name, .subAssign (ofInt size)⟩, _, by rintro _ ⟨⟩; exact hstratified, hspells,
        List.mem_singleton.mpr ?_, ?_⟩
      · rw [flatten_ofInt]
        rfl
      · intro scope place value
        simp only [step, ne_eq, not_true_eq_false, if_false, eval_ofInt]
        rfl

theorem updates_counting (hname : IsVariable name) :
    course.Updates name 1 (name ++ course.counting.spelling) := by
  have hsign := Spells.word (@word_operator course.counting [] nofun) .nil
  have hspells := hname.spells (by cases course <;> (rintro c ⟨⟩; decide)) hsign
  rw [List.append_nil, ← String.toList_append] at hspells
  cases course with
  | up =>
      refine ⟨⟨name, .increment⟩, _, nofun, hspells, List.mem_cons_self, ?_⟩
      intro scope place value
      simp only [step, ne_eq, not_true_eq_false, if_false]
      rfl
  | down =>
      refine ⟨⟨name, .decrement⟩, _, nofun, hspells, List.mem_cons_self, ?_⟩
      intro scope place value
      simp only [step, ne_eq, not_true_eq_false, if_false]
      rfl

/-- The texts of a step are those of an update that counts so. -/
theorem updates_of_mem_steps (hname : IsVariable name) {size : Nat} {text : String}
    (htext : text ∈ course.steps name size) : course.Updates name size text := by
  obtain rfl | hcounting := List.mem_cons.mp htext
  · exact course.updates_assignment hname size
  · split at hcounting
    next hone =>
      rw [hone, List.mem_singleton.mp hcounting]
      exact course.updates_counting hname
    next => cases hcounting

/-- The test of a loop that counts towards a bound. -/
def condition (name : String) (bound : Int) : Expr :=
  .binary course.test (.identifier name) (ofInt bound)

theorem stratified_condition (name : String) (bound : Int) :
    (course.condition name bound).Stratified := by
  have hlevel : course.test.level = 3 := by cases course <;> rfl
  have hrank := rank_ofInt bound
  exact ⟨Nat.zero_le _, by omega, trivial, stratified_ofInt bound⟩

theorem parseHeader_header (hname : IsVariable name) {update : LoopUpdate} {text : String}
    {lexemes : List Lexeme} (hupdate : update.Stratified) (htext : Spells text.toList lexemes)
    (hlexemes : lexemes.map Lexeme.terminal ∈ update.flattenings) (first bound : Int) :
    parseHeader (course.header name first bound text).toList =
      .ok (.counted name (ofInt first) (some (course.condition name bound)) (some update)) := by
  obtain ⟨sign, hsign, hterminal⟩ :
      ∃ sign : Operator, sign.spelling = course.test.spelling ∧
        course.test.terminal = .operator sign := by
    cases course
    · exact ⟨.less, rfl, rfl⟩
    · exact ⟨.greater, rfl, rfl⟩
  have hends (rest : List Char) : EndsNumber (';' :: rest) := by
    rintro c ⟨⟩
    decide
  have hpart (rest : List Char) : ∀ c ∈ (' ' :: rest).head?, Text.isIdentifierPart c = false := by
    rintro c ⟨⟩
    decide
  -- from the step back to the first value
  have hstep := @Spells.symbol .semicolon nofun _ _ htext.space
  have hbound := (spells_int bound (hends _) hstep).operator sign
  have htest := @Spells.symbol .semicolon nofun _ _ (hname.spells (hpart _) hbound).space
  have hspells := hname.spells (hpart _) ((spells_int first (hends _) htest).operator .assign)
  have hassign : Operator.assign.spelling.toList = ['='] := rfl
  have hwhole : (course.header name first bound text).toList = name.toList ++
      ' ' :: (Operator.assign.spelling.toList ++ ' ' :: ((toString first).toList ++
        ';' :: ' ' :: (name.toList ++ ' ' :: (sign.spelling.toList ++
          ' ' :: ((toString bound).toList ++ ';' :: ' ' :: text.toList))))) := by
    simp [header, hsign, hassign]
  rw [hwhole]
  refine hspells.parseHeader ⟨stratified_ofInt first, ?_, ?_⟩ ⟨[], by decide, _, ?_, rfl⟩
  · rintro _ ⟨⟩
    exact course.stratified_condition name bound
  · rintro _ ⟨⟩
    exact hupdate
  · refine List.mem_map.mpr ⟨_, hlexemes, ?_⟩
    simp [condition, flatten, flatten_ofInt, hterminal]

end Course

theorem parseHeader_listHeader (hname : IsVariable name) (values : List Int) :
    parseHeader (listHeader name values).toList =
      .ok (.forEach name .values (.array (values.map ofInt))) := by
  have hof : Variable.IsName ['o', 'f'] :=
    ⟨'o', ['f'], rfl, by decide, List.forall_mem_singleton.mpr (by decide)⟩
  have hlexeme : wordLexeme ['o', 'f'] = .keyword .ofWord := by decide
  have hends (rest : List Char) : EndsNumber (']' :: rest) := by
    rintro c ⟨⟩
    decide
  have hpart (rest : List Char) : ∀ c ∈ (' ' :: rest).head?, Text.isIdentifierPart c = false := by
    rintro c ⟨⟩
    decide
  obtain ⟨items, hitems, hterminals⟩ :=
    spells_integers values (hends _) (@Spells.symbol .closeBracket nofun _ _ .nil)
  have hlist := @Spells.symbol .openBracket nofun _ _ hitems
  have hspells := hname.spells (hpart _) (Spells.word (word_name hof (hpart _)) hlist.space).space
  have hwhole : (listHeader name values).toList = name.toList ++ ' ' :: (['o', 'f'] ++
      ' ' :: '[' :: ([',', ' '].intercalate
        (values.map fun n => (toString n).toList) ++ [']'])) := by
    simp [listHeader, commaSeparated, String.toList_intercalate, Function.comp_def]
  rw [hwhole]
  refine hspells.parseHeader ?_ ⟨[], by decide, _, List.mem_singleton.mpr ?_, rfl⟩
  · refine stratifiedItems_iff.mpr fun item hitem => ?_
    obtain ⟨n, _, rfl⟩ := List.mem_map.mp hitem
    exact stratified_ofInt n
  · simp [flatten, hterminals, hlexeme, Enumeration.terminal]

/-! ## Iterations -/

theorem Course.compareValues_test (course : Course) (value bound : Int) :
    compareValues course.test (.number (.int value)) (.number (.int bound)) =
      decide (course.Before value bound) := by
  cases course with
  | up =>
      change (compare value bound == .lt) = decide (value < bound)
      rw [Bool.eq_iff_iff, beq_iff_eq, decide_eq_true_eq, Int.compare_eq_lt]
  | down =>
      change (compare value bound == .gt) = decide (bound < value)
      rw [Bool.eq_iff_iff, beq_iff_eq, decide_eq_true_eq, Int.compare_eq_gt]

/-- The test of a loop that counts holds before the bound. -/
theorem Course.goesOn_condition (course : Course) (name : String) (value bound : Int)
    (scope : Scope) (path : List Nat) :
    goesOn ((name, .number (.int value)) :: scope) path (some (course.condition name bound)) =
      .ok (decide (course.Before value bound)) := by
  have hname : readName ((name, .number (.int value)) :: scope) name =
      .ok (.number (.int value)) := by
    simp [readName, Scope.get?]
  rw [← course.compareValues_test, goesOn, condition, eval, eval, hname, eval_ofInt]
  cases course <;> rfl

theorem evalItems_ofInt (scope : Scope) (path : List Nat) (position : Nat) (values : List Int) :
    evalItems scope path position (values.map ofInt) =
      .ok (values.map fun value => .number (.int value)) := by
  induction values generalizing position with
  | nil => rfl
  | cons value rest ih =>
      rw [List.map_cons, evalItems, eval_ofInt, ih]
      rfl

/-- A loop that counts has the iterations of the loop over the list of its values. -/
theorem iterations_counted (render : Scope → List Nat → Evaluation String) (course : Course)
    (first bound : Int) {size : Nat} (hsize : 1 ≤ size) {update : LoopUpdate}
    (hupdate : ∀ scope place value, step scope place name (some update) (.number (.int value)) =
      .ok (.number (.int (course.behind value size)))) (scope : Scope) (path : List Nat) :
    iterations render scope path
        (.counted name (ofInt first) (some (course.condition name bound)) (some update)) =
      iterations render scope path
        (.forEach name .values (.array ((course.values first bound size).map ofInt))) := by
  have hcounts := course.counts first (@Course.lt_count_iff course first bound size hsize)
  rw [iterations, iterations, eval_ofInt, eval, evalItems_ofInt]
  simp only [ok_bind]
  rw [countedFrom_eq_eachFrom (fun _ _ => course.goesOn_condition name _ bound _ _)
    (fun _ _ => hupdate _ _ _) hcounts (Nat.le_refl _), Nat.sub_self]
  rfl

/-! ## Outcomes -/

variable {ω : Type} {delimiters : Delimiters} {body : List Char} {scope : Scope}

/-- A loop is its header, its compiled body and the texts of its iterations in a row. -/
theorem outcome_render {header : List Char} {loop : LoopHeader}
    (h : parseHeader header = .ok loop) :
    (render delimiters header body scope : Run ω Expr.Error String).outcome =
      ((compile delimiters body : Run ω Expr.Error (List Segment)).outcome >>= fun segments =>
        (String.join <$> iterations (fun s p => renderBody s p 0 segments) scope [] loop).mapError
          (Halt.map .eval)) := by
  rw [render, h]
  simp only [Run.outcome_bind, Run.outcome_lift, Run.outcome_detail, Except.mapError, ok_bind,
    renderSegment]
  cases (compile delimiters body : Run ω Expr.Error (List Segment)).outcome with
  | error reason => rfl
  | ok segments =>
      simp only [ok_bind]
      cases iterations (fun s p => renderBody s p 0 segments) scope [] loop <;> rfl

/-- What comes of giving a variable one value after the other: the texts of the body in a row, or
the failure of the first body that fails. When there are more values than there may be iterations,
the loop fails behind the last iteration. -/
def unrolled (ω : Type) (delimiters : Delimiters) (body : List Char) (name : String)
    (values : List Int) (scope : Scope) : Except (Halt Expr.Error) String := do
  let segments ← (compile delimiters body : Run ω Expr.Error (List Segment)).outcome
  let texts ← ((values.take maxIterations).zipIdx.mapM fun (value, count) =>
    renderBody ((name, .number (.int value)) :: scope) [2, count, 1] 0 segments).mapError
      (Halt.map .eval)
  if maxIterations < values.length then .error (.error (.eval .tooManyIterations))
  else return String.join texts

theorem outcome_render_listHeader (hname : IsVariable name) (values : List Int) :
    (render delimiters (listHeader name values).toList body scope :
      Run ω Expr.Error String).outcome = unrolled ω delimiters body name values scope := by
  rw [outcome_render (parseHeader_listHeader hname values), unrolled]
  congr 1
  funext segments
  rw [iterations, eval, evalItems_ofInt]
  simp only [ok_bind, pure, Except.pure, enumerate, valuesOf]
  rw [eachFrom_eq_mapM (Nat.zero_le maxIterations), Nat.sub_zero, List.length_map, ← List.map_take,
    List.zipIdx_map, List.mapM_map]
  simp only [Function.comp_def, Prod.map, id]
  generalize (List.mapM _ _ : Evaluation (List String)) = result
  cases result with
  | error reason => rfl
  | ok texts =>
      rw [ok_bind]
      by_cases hmany : maxIterations < values.length
      · simp [hmany, Except.mapError, Halt.map]
      · simp [hmany, Except.mapError, pure, Except.pure]

/-- A loop that counts in equal steps from one integer towards another has the outcome of the loop
over the list of the values on the way, whatever its body does. -/
theorem counts_like_list (hname : IsVariable name) (course : Course) (first bound : Int)
    {size : Nat} (hsize : 1 ≤ size) {text : String} (htext : text ∈ course.steps name size)
    (delimiters : Delimiters) (body : List Char) (scope : Scope) :
    (render delimiters (course.header name first bound text).toList body scope :
        Run ω Expr.Error String).outcome =
      (render delimiters (listHeader name (course.values first bound size)).toList body scope :
        Run ω Expr.Error String).outcome ∧
    (render delimiters (listHeader name (course.values first bound size)).toList body scope :
        Run ω Expr.Error String).outcome =
      unrolled ω delimiters body name (course.values first bound size) scope := by
  obtain ⟨update, lexemes, hupdate, hspells, hlexemes, hstep⟩ :=
    course.updates_of_mem_steps hname htext
  refine ⟨?_, outcome_render_listHeader hname _⟩
  rw [outcome_render (course.parseHeader_header hname hupdate hspells hlexemes first bound),
    outcome_render (parseHeader_listHeader hname _)]
  simp only [iterations_counted _ course first bound hsize hstep]

/-- Counting down by three takes the values of a list, and a loop in the body may bind the name of
the variable again. -/
theorem counts_like_list_down :
    (render .standard "i = 8; i > 0; i -= 3".toList "$\x7bi\x7d@@for (i of [i]) \x7b.\x7d".toList
        [] : Run Unit Expr.Error String).outcome = .ok "8.5.2." ∧
      (render .standard "i of [8, 5, 2]".toList "$\x7bi\x7d@@for (i of [i]) \x7b.\x7d".toList
        [] : Run Unit Expr.Error String).outcome = .ok "8.5.2." := by
  have hname : IsVariable "i" := ⟨⟨'i', [], rfl, by decide, nofun⟩, by decide⟩
  have hstep : "i -= 3" ∈ Course.down.steps "i" 3 := by decide
  obtain ⟨hcounted, hlist⟩ := @counts_like_list "i" Unit hname .down 8 0 3 (by decide) _ hstep
    .standard "$\x7bi\x7d@@for (i of [i]) \x7b.\x7d".toList []
  have hunrolled : unrolled Unit .standard "$\x7bi\x7d@@for (i of [i]) \x7b.\x7d".toList "i"
      (Course.down.values 8 0 3) [] = .ok "8.5.2." := by
    cbv
  exact ⟨hcounted.trans (hlist.trans hunrolled), hlist.trans hunrolled⟩

end Transclude.Loop
