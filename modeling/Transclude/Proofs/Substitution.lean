import Mathlib
import Transclude.Proofs.Silence
import Transclude.Proofs.Variables

/-! # Replacing variables

Text without the sign of a delimiter stays as it is, and a dotted path behind the
delimiter is one whole variable when what follows cannot go on with it. -/

namespace Transclude

namespace Variable

/-- Text without delimiters has no variables. -/
theorem fragments_unopened {text rest : List Char} (h : Unopened text rest) :
    fragments .standard (text ++ rest) = text.map .char ++ fragments .standard rest := by
  induction text with
  | nil => rfl
  | cons c text ih =>
      have hnone : path? .standard (c :: text ++ rest) = none := by
        unfold path?
        rw [h [] c text rfl]
        rfl
      rw [List.cons_append] at hnone ⊢
      rw [fragments, hnone]
      dsimp only
      rw [ih h.tail]
      rfl

/-- A dotted path behind the delimiter is taken as one variable. -/
theorem fragments_dotted {names : List (List Char)} {rest : List Char} (hnames : IsPath names)
    (hrest : Ends rest) :
    fragments .standard ('@' :: '@' :: (dotted names ++ rest)) =
      .variable (dotted names) ('@' :: '@' :: dotted names) :: fragments .standard rest := by
  have hsource : source .standard names = '@' :: '@' :: dotted names := List.append_nil _
  have hlongest : ∀ other, Begins .standard (source .standard names ++ rest) other →
      (dotted other).length ≤ (dotted names).length := by
    rintro other ⟨hother, behind, hbehind⟩
    have htext : dotted other ++ behind = dotted names ++ rest := by
      simpa [source, Delimiters.standard] using hbehind
    have hle := length_dotted_le hother behind
    rwa [htext, pathLength_dotted hnames hrest] at hle
  have hfragments := fragments_source_append hnames hlongest
  rwa [hsource] at hfragments

/-! ## What becomes of the fragments -/

theorem expandAll_append (data : Data) (front back : List Fragment) :
    expandAll data (front ++ back) = do
      let first ← expandAll data front
      let second ← expandAll data back
      return first ++ second := by
  induction front with
  | nil => simp [expandAll]
  | cons fragment front ih =>
      simp only [List.cons_append, expandAll, ih, bind_assoc, pure_bind, List.append_assoc]

theorem expandAll_chars (data : Data) (text : List Char) :
    expandAll data (text.map .char) = pure text := by
  induction text with
  | nil => rfl
  | cons c text ih => simp [expandAll, expand, ih]

/-- The text in the place of a variable: its own, nothing, or that of its value. -/
def Outcome.text (source : List Char) : Outcome → List Char
  | .kept => source
  | .empty => []
  | .replaced text => text.toList

theorem outcome_expand_variable {data : Data} {path : List Char} {result : Outcome}
    (h : outcome data path = .ok result) (source : List Char) :
    (expand data (.variable path source)).outcome = .ok (result.text source) := by
  rw [expand, h]
  cases result <;> rfl

theorem replace_nil (data : Data) : replace .standard data [] = pure [] := by
  rw [replace, fragments]
  rfl

/-- Text without delimiters stays in front of what becomes of the rest. -/
theorem replace_unopened {text rest : List Char} (h : Unopened text rest) (data : Data) :
    replace .standard data (text ++ rest) = (text ++ ·) <$> replace .standard data rest := by
  rw [replace, replace, fragments_unopened h, expandAll_append, expandAll_chars]
  simp

theorem replace_plain {text : List Char} (h : '@' ∉ text) (data : Data) (rest : List Char) :
    replace .standard data (text ++ rest) = (text ++ ·) <$> replace .standard data rest :=
  replace_unopened (.of_plain h rest) data

/-- A path that is kept stays in front of what becomes of the rest. -/
theorem replace_dotted_kept {names : List (List Char)} (hnames : ∀ name ∈ names, IsName name)
    (hne : names ≠ []) {rest : List Char} (hrest : Ends rest) {data : Data}
    (h : outcome data (dotted names) = .ok .kept) :
    replace .standard data ('@' :: '@' :: (dotted names ++ rest)) =
      ('@' :: '@' :: dotted names ++ ·) <$> replace .standard data rest := by
  rw [replace, replace, fragments_dotted (isPath_of_isName hnames hne) hrest, expandAll, expand, h]
  change (pure _ >>= _) = _
  simp

/-- Replacing variables leaves a text in front of the rest as it is. -/
def Kept (data : Data) (text rest : List Char) : Prop :=
  replace .standard data (text ++ rest) = (text ++ ·) <$> replace .standard data rest

namespace Kept

variable {data : Data} {text rest : List Char}

theorem nil (data : Data) (rest : List Char) : Kept data [] rest := (id_map _).symm

theorem append {front back : List Char} (hfront : Kept data front (back ++ rest))
    (hback : Kept data back rest) : Kept data (front ++ back) rest := by
  unfold Kept at hfront hback ⊢
  rw [List.append_assoc, hfront, hback]
  simp

theorem of_unopened (h : Unopened text rest) : Kept data text rest := replace_unopened h data

theorem of_plain (h : '@' ∉ text) : Kept data text rest := replace_plain h data rest

theorem of_dotted {names : List (List Char)} (hnames : ∀ name ∈ names, IsName name)
    (hne : names ≠ []) (hrest : Ends rest) (h : outcome data (dotted names) = .ok .kept) :
    Kept data ('@' :: '@' :: dotted names) rest := replace_dotted_kept hnames hne hrest h

theorem replace (h : Kept data text []) : replace .standard data text = pure text := by
  unfold Kept at h
  rw [List.append_nil, replace_nil] at h
  simpa using h

end Kept

theorem outcome_replace_nil (data : Data) : (replace .standard data []).outcome = .ok [] := by
  rw [replace_nil]
  rfl

theorem outcome_replace_plain {text : List Char} (h : '@' ∉ text) (data : Data)
    (rest : List Char) :
    (replace .standard data (text ++ rest)).outcome =
      (replace .standard data rest).outcome.map (text ++ ·) := by
  rw [replace_plain h, ← bind_pure_comp, Run.outcome_bind]
  cases (replace .standard data rest).outcome <;> rfl

/-- A dotted path gives way to what becomes of it. -/
theorem outcome_replace_dotted {names : List (List Char)} (hnames : ∀ name ∈ names, IsName name)
    (hne : names ≠ []) {rest : List Char} (hrest : Ends rest) {data : Data} {result : Outcome}
    (h : outcome data (dotted names) = .ok result) :
    (replace .standard data ('@' :: '@' :: (dotted names ++ rest))).outcome =
      (replace .standard data rest).outcome.map
        (result.text ('@' :: '@' :: dotted names) ++ ·) := by
  rw [replace, replace, fragments_dotted (isPath_of_isName hnames hne) hrest, expandAll]
  simp only [Run.outcome_bind, outcome_expand_variable h, ok_bind, Run.outcome_pure]
  cases (expandAll data (fragments .standard rest)).outcome <;> rfl

end Variable

end Transclude
