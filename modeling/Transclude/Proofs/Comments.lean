import Mathlib
import Transclude.Comment

/-! # What a commented include is

What is removed from a text begins with the opening of a comment, has an include on
the same line and ends with the ending of a comment. -/

namespace Transclude.Comment

variable {delimiters : Delimiters} {text : List Char} {length : Nat}

/-- A length through a pattern is that of a part that ends with it. -/
theorem exists_of_lengthThrough? {pattern : List Char}
    (h : lengthThrough? pattern text = some length) :
    ∃ inside after, text = inside ++ pattern ++ after ∧
      length = inside.length + pattern.length := by
  induction text generalizing length with
  | nil =>
      rw [lengthThrough?] at h
      split at h
      next hempty =>
        cases h
        exact ⟨[], [], by simp [List.isEmpty_iff.mp hempty], by simp [List.isEmpty_iff.mp hempty]⟩
      next => cases h
  | cons c rest ih =>
      rw [lengthThrough?] at h
      split at h
      next hprefix =>
        cases h
        obtain ⟨after, hafter⟩ := List.isPrefixOf_iff_prefix.mp hprefix
        exact ⟨[], after, hafter.symm, by simp⟩
      next =>
        obtain ⟨inner, hinner, rfl⟩ := Option.map_eq_some_iff.mp h
        obtain ⟨inside, after, rfl, rfl⟩ := ih hinner
        exact ⟨c :: inside, after, rfl, by simp [Nat.add_right_comm]⟩

/-- The rest of a comment that begins with an include. -/
theorem exists_of_includeLength? (h : includeLength? delimiters text = some length) :
    ∃ spaces inside after : List Char, (∀ c ∈ spaces, c = ' ') ∧
      text = delimiters.opening ++ (spaces ++ ("include".toList ++ (inside ++ ending delimiters))) ++
        after ∧
      length = (delimiters.opening ++
        (spaces ++ ("include".toList ++ (inside ++ ending delimiters)))).length := by
  unfold includeLength? at h
  split at h
  next hopening =>
    dsimp only at h
    split at h
    next hname =>
      obtain ⟨inner, hinner, rfl⟩ := Option.map_eq_some_iff.mp h
      obtain ⟨inside, after, hbehind, rfl⟩ := exists_of_lengthThrough? hinner
      obtain ⟨rest, rfl⟩ := List.isPrefixOf_iff_prefix.mp hopening
      obtain ⟨behind, hrest⟩ := List.isPrefixOf_iff_prefix.mp hname
      rw [List.drop_left] at hrest hbehind
      have hspaces := List.prefix_iff_eq_append.mp (List.takeWhile_prefix (l := rest) (· == ' '))
      rw [← List.drop_drop, ← hrest, List.drop_left] at hbehind
      rw [hbehind] at hrest
      refine ⟨rest.takeWhile (· == ' '), inside, after, ?_, ?_, ?_⟩
      · intro c hc
        simpa using List.mem_takeWhile_imp hc
      · conv_lhs => rw [← hspaces, ← hrest]
        simp
      · simp only [List.length_append, List.drop_left]
        omega
    next => cases h
  next => cases h

/-- The rest of a comment goes on with an include on the same line. -/
theorem exists_of_restLength? (h : restLength? delimiters text = some length) :
    ∃ line back inner, text = line ++ back ∧ '\n' ∉ line ∧
      includeLength? delimiters back = some inner ∧ length = line.length + inner := by
  induction text generalizing length with
  | nil => exact ⟨[], [], length, rfl, List.not_mem_nil, h, by simp⟩
  | cons c rest ih =>
      rw [restLength?] at h
      split at h
      next found hlater =>
        cases h
        split at hlater
        next => cases hlater
        next hline =>
          obtain ⟨length, hlength, rfl⟩ := Option.map_eq_some_iff.mp hlater
          obtain ⟨line, back, inner, rfl, hfree, hfound, rfl⟩ := ih hlength
          refine ⟨c :: line, back, inner, rfl, ?_, hfound, by simp [Nat.add_right_comm]⟩
          rw [List.mem_cons, not_or]
          exact ⟨fun heq => hline (by simp [← heq]), hfree⟩
      next => exact ⟨[], c :: rest, length, rfl, List.not_mem_nil, h, by simp⟩

/-- A comment that is removed has an include behind its opening, on the same line, and is removed
up to the ending that the include reaches. -/
theorem exists_of_length? (h : length? delimiters text = some length) :
    ∃ line back inner, text = opening ++ (line ++ back) ∧ '\n' ∉ line ∧
      includeLength? delimiters back = some inner ∧
      length = opening.length + (line.length + inner) := by
  unfold length? at h
  split at h
  next hopening =>
    obtain ⟨length, hlength, rfl⟩ := Option.map_eq_some_iff.mp h
    obtain ⟨line, back, inner, hback, hline, hfound, rfl⟩ := exists_of_restLength? hlength
    obtain ⟨behind, rfl⟩ := List.isPrefixOf_iff_prefix.mp hopening
    rw [List.drop_left] at hback
    exact ⟨line, back, inner, by rw [hback], hline, hfound, rfl⟩
  next => cases h

/-- A text with no place where a commented include goes on from its opening is kept. -/
theorem strip_eq_self (h : ∀ front back, text = front ++ back → length? delimiters back = none) :
    strip delimiters text = text := by
  induction text with
  | nil => rw [strip]
  | cons c rest ih =>
      rw [strip, h [] (c :: rest) rfl]
      dsimp only
      rw [ih fun front back heq => h (c :: front) back (by rw [heq]; rfl)]

/-- Without includes there are no commented ones. -/
theorem strip_eq_self_of_no_include
    (h : ∀ front back, text = front ++ back → includeLength? delimiters back = none) :
    strip delimiters text = text := by
  apply strip_eq_self
  intro front back heq
  rw [Option.eq_none_iff_forall_ne_some]
  intro length hlength
  obtain ⟨line, rest, inner, rfl, _, hfound, _⟩ := exists_of_length? hlength
  rw [h (front ++ (opening ++ line)) rest (by simp [heq])] at hfound
  cases hfound

end Transclude.Comment
