import Mathlib
import Transclude.Proofs.Inclusion
import Transclude.Proofs.Paths

/-! # Chains of includes

The files of a site include each other in the order of their chunks. A chain is
known by the numbers of the calls that lead along it. Depth first, those chains
are met first whose numbers are least. -/

namespace Transclude

/-- A tree whose files are known by their chunks. -/
structure Site where
  tree : FileTree
  chunks : Path → List Chunk

namespace Site

variable {site : Site} {above : List Path} {path : Path} {chunks rest : List Chunk}

/-- Two files of a chain are the same when case does not count. -/
def Repeats (chain : List Path) : Prop := ¬ chain.Pairwise fun a b => a.sameFile b = false

/-- The file that a call in a file means. -/
def target (site : Site) (path : Path) (call : List Char) : Path :=
  site.tree.absolute (path.parent.join (Path.ofChars call))

/-- The files behind a file with the chunks on the chain of the calls with the numbers. -/
def follow (site : Site) (path : Path) (chunks : List Chunk) : List Nat → Option (List Path)
  | [] => some []
  | number :: later => do
    let call ← (Chunk.calls chunks)[number]?
    let next := site.target path call
    return next :: (← follow site next (site.chunks next) later)

/-- The chain of includes from a file on, by the numbers of its calls. -/
def chain (site : Site) (root : Path) (numbers : List Nat) : Option (List Path) :=
  (site.follow root (site.chunks root) numbers).map (root :: ·)

/-- The numbers of the chains of includes from a file on that repeat a file. -/
def repeating (site : Site) (root : Path) : Set (List Nat) :=
  { numbers | ∃ files, site.chain root numbers = some files ∧ Repeats files }

/-- The chain of the numbers repeats a file, counting those that have led to its beginning. -/
def RepeatsAlong (site : Site) (above : List Path) (path : Path) (chunks : List Chunk)
    (numbers : List Nat) : Prop :=
  ∃ files, site.follow path chunks numbers = some files ∧ Repeats (above ++ path :: files)

/-- A text is the chunks of a file with each call replaced by the expansion of what it means. -/
inductive Expands (site : Site) : Path → List Chunk → List Char → Prop
  | nil (path : Path) : Expands site path [] []
  | text {path : Path} {rest : List Chunk} {result : List Char} (content : List Char)
    (hrest : Expands site path rest result) :
    Expands site path (.text content :: rest) (content ++ result)
  | call {path : Path} {rest : List Chunk} {call inner result : List Char}
    (hinner : Expands site (site.target path call) (site.chunks (site.target path call)) inner)
    (hrest : Expands site path rest result) :
    Expands site path (.call call :: rest) (inner ++ result)

/-- A file that is met again: the one whose call means it, and those that have led there. -/
structure Again where
  above : List Path
  path : Path
  target : Path

/-- What comes of going through the chunks of a file and, depth first, the files that their calls
mean: a text, or the first file that is met again. -/
inductive Explores (site : Site) :
    List Path → Path → List Chunk → Except Again (List Char) → Prop
  | nil (above : List Path) (path : Path) : Explores site above path [] (.ok [])
  | text {above : List Path} {path : Path} {rest : List Chunk}
    {result : Except Again (List Char)} (content : List Char)
    (hrest : Explores site above path rest result) :
    Explores site above path (.text content :: rest) (result.map (content ++ ·))
  | again {above : List Path} {path : Path} {rest : List Chunk} {call : List Char}
    (hseen : ∃ seen ∈ above ++ [path], (site.target path call).sameFile seen = true) :
    Explores site above path (.call call :: rest) (.error ⟨above, path, site.target path call⟩)
  | inside {above : List Path} {path : Path} {rest : List Chunk} {call : List Char}
    {found : Again}
    (hnew : ∀ seen ∈ above ++ [path], (site.target path call).sameFile seen = false)
    (hinner : Explores site (above ++ [path]) (site.target path call)
      (site.chunks (site.target path call)) (.error found)) :
    Explores site above path (.call call :: rest) (.error found)
  | call {above : List Path} {path : Path} {rest : List Chunk} {call inner : List Char}
    {result : Except Again (List Char)}
    (hnew : ∀ seen ∈ above ++ [path], (site.target path call).sameFile seen = false)
    (hinner : Explores site (above ++ [path]) (site.target path call)
      (site.chunks (site.target path call)) (.ok inner))
    (hrest : Explores site above path rest result) :
    Explores site above path (.call call :: rest) (result.map (inner ++ ·))

/-- A file has at most one expansion. -/
theorem Expands.unique {first second : List Char} (hfirst : site.Expands path chunks first)
    (hsecond : site.Expands path chunks second) : first = second := by
  induction hfirst generalizing second with
  | nil path =>
      cases hsecond
      rfl
  | text content _ ih =>
      cases hsecond with
      | text _ hrest => rw [ih hrest]
  | call _ _ ihinner ihrest =>
      cases hsecond with
      | call hinner hrest => rw [ihinner hinner, ihrest hrest]

/-! ## Chains by their numbers -/

theorem numbers_le_iff {first second : Nat} {later others : List Nat} :
    first :: later ≤ second :: others ↔ first < second ∨ first = second ∧ later ≤ others := by
  rw [← not_lt, ← not_lt, List.cons_lt_cons_iff, not_or, not_and]
  rcases lt_trichotomy first second with h | h | h
  · simp [h, h.ne', h.le]
  · simp [h]
  · simp [h, h.ne', h.not_gt]

theorem repeats_concat {stack : List Path} {last : Path} :
    Repeats (stack ++ [last]) ↔ Repeats stack ∨ ∃ seen ∈ stack, last.sameFile seen = true := by
  unfold Repeats
  rw [List.pairwise_append, not_and_or, or_congr_right]
  simp [Path.sameFile_comm last]

/-- A file that is met for the first time repeats none. -/
theorem not_repeats_concat {stack : List Path} {last : Path} (hdistinct : ¬ Repeats stack)
    (hnew : ∀ seen ∈ stack, last.sameFile seen = false) : ¬ Repeats (stack ++ [last]) := by
  rw [repeats_concat, not_or]
  refine ⟨hdistinct, ?_⟩
  rintro ⟨seen, hseen, hsame⟩
  rw [hnew seen hseen] at hsame
  cases hsame

theorem repeatsAlong_nil :
    site.RepeatsAlong above path chunks [] ↔ Repeats (above ++ [path]) := by
  simp [RepeatsAlong, follow]

theorem not_repeatsAlong_of_no_chunks {number : Nat} {later : List Nat} :
    ¬ site.RepeatsAlong above path [] (number :: later) := by
  rintro ⟨files, hfiles, _⟩
  simp [follow, Chunk.calls] at hfiles

theorem follow_text (content : List Char) (numbers : List Nat) :
    site.follow path (.text content :: rest) numbers = site.follow path rest numbers := by
  cases numbers with
  | nil => rfl
  | cons number later => rw [follow, follow, Chunk.calls, List.filterMap_cons]; rfl

theorem follow_call_zero (call : List Char) (later : List Nat) :
    site.follow path (.call call :: rest) (0 :: later) =
      (site.follow (site.target path call) (site.chunks (site.target path call)) later).map
        (site.target path call :: ·) := by
  rw [follow, Chunk.calls, List.filterMap_cons]
  change (site.follow (site.target path call) _ later >>= _) = _
  cases site.follow (site.target path call) (site.chunks (site.target path call)) later <;> rfl

theorem follow_call_succ (call : List Char) (number : Nat) (later : List Nat) :
    site.follow path (.call call :: rest) ((number + 1) :: later) =
      site.follow path rest (number :: later) := by
  rw [follow, follow, Chunk.calls, List.filterMap_cons]
  rfl

theorem repeatsAlong_text {content : List Char} {numbers : List Nat} :
    site.RepeatsAlong above path (.text content :: rest) numbers ↔
      site.RepeatsAlong above path rest numbers := by
  unfold RepeatsAlong
  rw [follow_text]

theorem repeatsAlong_call_zero {call : List Char} {later : List Nat} :
    site.RepeatsAlong above path (.call call :: rest) (0 :: later) ↔
      site.RepeatsAlong (above ++ [path]) (site.target path call)
        (site.chunks (site.target path call)) later := by
  unfold RepeatsAlong
  rw [follow_call_zero]
  constructor
  · rintro ⟨files, hfiles, hrepeats⟩
    obtain ⟨behind, hbehind, rfl⟩ := Option.map_eq_some_iff.mp hfiles
    exact ⟨behind, hbehind, by simpa using hrepeats⟩
  · rintro ⟨behind, hbehind, hrepeats⟩
    exact ⟨_, by rw [hbehind]; rfl, by simpa using hrepeats⟩

theorem repeatsAlong_call_succ {call : List Char} {number : Nat} {later : List Nat} :
    site.RepeatsAlong above path (.call call :: rest) ((number + 1) :: later) ↔
      site.RepeatsAlong above path rest (number :: later) := by
  unfold RepeatsAlong
  rw [follow_call_succ]

theorem mem_repeating {root : Path} {numbers : List Nat} :
    numbers ∈ site.repeating root ↔ site.RepeatsAlong [] root (site.chunks root) numbers := by
  constructor
  · rintro ⟨files, hfiles, hrepeats⟩
    obtain ⟨behind, hbehind, rfl⟩ := Option.map_eq_some_iff.mp hfiles
    exact ⟨behind, hbehind, hrepeats⟩
  · rintro ⟨behind, hbehind, hrepeats⟩
    exact ⟨root :: behind, by rw [chain, hbehind]; rfl, hrepeats⟩

/-! ## The least chain behind a call -/

theorem isLeast_nil (hrepeats : Repeats (above ++ [path])) :
    IsLeast { numbers | site.RepeatsAlong above path chunks numbers } [] :=
  ⟨repeatsAlong_nil.mpr hrepeats, fun numbers _ => not_lt.mp (List.not_lt_nil numbers)⟩

/-- The first call of a file comes before all others. -/
theorem isLeast_call_zero {call : List Char} {later : List Nat}
    (hdistinct : ¬ Repeats (above ++ [path]))
    (hleast : IsLeast { numbers | site.RepeatsAlong (above ++ [path]) (site.target path call)
      (site.chunks (site.target path call)) numbers } later) :
    IsLeast { numbers | site.RepeatsAlong above path (.call call :: rest) numbers }
      (0 :: later) := by
  refine ⟨repeatsAlong_call_zero.mpr hleast.1, ?_⟩
  intro others hothers
  cases others with
  | nil => exact absurd (repeatsAlong_nil.mp hothers) hdistinct
  | cons number others =>
      rw [numbers_le_iff]
      cases number with
      | zero => exact .inr ⟨rfl, hleast.2 (repeatsAlong_call_zero.mp hothers)⟩
      | succ number => exact .inl (Nat.succ_pos number)

/-- Where no chain through the first call repeats a file, the least one is behind it. -/
theorem isLeast_call_succ {call : List Char} {number : Nat} {later : List Nat}
    (hdistinct : ¬ Repeats (above ++ [path]))
    (hinside : ∀ numbers, ¬ site.RepeatsAlong (above ++ [path]) (site.target path call)
      (site.chunks (site.target path call)) numbers)
    (hleast : IsLeast { numbers | site.RepeatsAlong above path rest numbers } (number :: later)) :
    IsLeast { numbers | site.RepeatsAlong above path (.call call :: rest) numbers }
      ((number + 1) :: later) := by
  refine ⟨repeatsAlong_call_succ.mpr hleast.1, ?_⟩
  intro others hothers
  cases others with
  | nil => exact absurd (repeatsAlong_nil.mp hothers) hdistinct
  | cons other others =>
      cases other with
      | zero => exact absurd (repeatsAlong_call_zero.mp hothers) (hinside others)
      | succ other =>
          have hle := hleast.2 (repeatsAlong_call_succ.mp hothers)
          rw [numbers_le_iff] at hle ⊢
          exact hle.imp Nat.succ_lt_succ (And.imp_left (congrArg Nat.succ))

/-! ## What is found depth first -/

/-- Where nothing is met again the text is the expansion. -/
theorem Explores.expands {text : List Char} (h : site.Explores above path chunks (.ok text)) :
    site.Expands path chunks text := by
  generalize hresult : (.ok text : Except Again (List Char)) = result at h
  induction h generalizing text with
  | nil above path =>
      cases hresult
      exact .nil path
  | @text _ _ _ result content _ ih =>
      cases result with
      | ok behind =>
          cases hresult
          exact .text content (ih rfl)
      | error found => cases hresult
  | again _ => cases hresult
  | inside _ _ => cases hresult
  | @call _ _ _ _ _ result _ _ _ ihinner ihrest =>
      cases result with
      | ok behind =>
          cases hresult
          exact .call (ihinner rfl) (ihrest rfl)
      | error found => cases hresult

/-- Where nothing is met again no chain repeats a file. -/
theorem Explores.not_repeatsAlong {text : List Char}
    (h : site.Explores above path chunks (.ok text)) (hdistinct : ¬ Repeats (above ++ [path]))
    (numbers : List Nat) : ¬ site.RepeatsAlong above path chunks numbers := by
  generalize hresult : (.ok text : Except Again (List Char)) = result at h
  induction h generalizing text numbers with
  | nil above path =>
      cases numbers with
      | nil => rwa [repeatsAlong_nil]
      | cons number later => exact not_repeatsAlong_of_no_chunks
  | @text _ _ _ result content _ ih =>
      cases result with
      | ok behind =>
          rw [repeatsAlong_text]
          exact ih hdistinct numbers rfl
      | error found => cases hresult
  | again _ => cases hresult
  | inside _ _ => cases hresult
  | @call above path _ call _ result hnew _ _ ihinner ihrest =>
      cases result with
      | ok behind =>
          cases numbers with
          | nil => rwa [repeatsAlong_nil]
          | cons number later =>
              cases number with
              | zero =>
                  rw [repeatsAlong_call_zero]
                  exact ihinner (not_repeats_concat hdistinct hnew) later rfl
              | succ number =>
                  rw [repeatsAlong_call_succ]
                  exact ihrest hdistinct (number :: later) rfl
      | error found => cases hresult

/-- What is met again first ends the least chain that repeats a file. -/
theorem Explores.isLeast {again : Again} (h : site.Explores above path chunks (.error again))
    (hdistinct : ¬ Repeats (above ++ [path])) :
    ∃ numbers files, site.follow path chunks numbers = some files ∧
      above ++ path :: files = again.above ++ [again.path, again.target] ∧
      IsLeast { numbers | site.RepeatsAlong above path chunks numbers } numbers := by
  generalize hresult : (.error again : Except Again (List Char)) = result at h
  induction h with
  | nil above path => cases hresult
  | @text _ _ _ result content _ ih =>
      cases result with
      | ok behind => cases hresult
      | error found =>
          cases hresult
          simp only [repeatsAlong_text, follow_text]
          exact ih hdistinct rfl
  | @again above path rest call hseen =>
      cases hresult
      have hrepeats : Repeats (above ++ [path] ++ [site.target path call]) :=
        repeats_concat.mpr (.inr hseen)
      exact ⟨[0], [site.target path call], rfl, by simp,
        isLeast_call_zero hdistinct (isLeast_nil hrepeats)⟩
  | @inside above path rest call found hnew _ ih =>
      cases hresult
      obtain ⟨numbers, files, hfiles, hchain, hleast⟩ :=
        ih (not_repeats_concat hdistinct hnew) rfl
      refine ⟨0 :: numbers, site.target path call :: files, ?_, by simpa using hchain,
        isLeast_call_zero hdistinct hleast⟩
      rw [follow_call_zero, hfiles]
      rfl
  | @call above path rest call inner result hnew hinner _ _ ih =>
      cases result with
      | ok behind => cases hresult
      | error found =>
          cases hresult
          obtain ⟨numbers, files, hfiles, hchain, hleast⟩ := ih hdistinct rfl
          cases numbers with
          | nil => exact absurd (repeatsAlong_nil.mp hleast.1) hdistinct
          | cons number later =>
              refine ⟨(number + 1) :: later, files, ?_, hchain, isLeast_call_succ hdistinct
                (hinner.not_repeatsAlong (not_repeats_concat hdistinct hnew)) hleast⟩
              rwa [follow_call_succ]

end Site

end Transclude
