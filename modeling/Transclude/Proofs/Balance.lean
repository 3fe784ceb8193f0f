import Mathlib
import Transclude.Directive.Basic
import Transclude.Proofs.Brackets

/-! # Balanced brackets

The depth of brackets is followed through a list, and must not fall below that at
its beginning. The scan for a closing bracket passes over text that comes back to
its depth. -/

namespace Transclude

section

variable {α : Type} (opens closes : α → Bool)

/-- The depth behind a list that begins at a depth; absent when it closes more than is open. -/
def depthBehind : Nat → List α → Option Nat
  | depth, [] => some depth
  | depth, a :: rest =>
    if opens a then depthBehind (depth + 1) rest
    else if closes a then depth.ppred.bind fun less => depthBehind less rest
    else depthBehind depth rest

/-- All brackets of a list open and close in it. -/
def Balanced (items : List α) : Prop := depthBehind opens closes 0 items = some 0

instance : DecidablePred (Balanced opens closes) := fun items =>
  inferInstanceAs (Decidable (depthBehind opens closes 0 items = some 0))

variable {opens closes}

theorem depthBehind_append (front back : List α) (depth : Nat) :
    depthBehind opens closes depth (front ++ back) =
      (depthBehind opens closes depth front).bind fun depth =>
        depthBehind opens closes depth back := by
  induction front generalizing depth with
  | nil => rfl
  | cons a front ih =>
      rw [List.cons_append, depthBehind, depthBehind]
      split
      next => exact ih _
      next =>
        split
        next =>
          cases depth with
          | zero => rfl
          | succ depth => exact ih depth
        next => exact ih _

theorem depthBehind_add {items : List α} {depth behind : Nat}
    (h : depthBehind opens closes depth items = some behind) (more : Nat) :
    depthBehind opens closes (depth + more) items = some (behind + more) := by
  induction items generalizing depth with
  | nil =>
      cases h
      rfl
  | cons a rest ih =>
      rw [depthBehind] at h ⊢
      by_cases hopens : opens a = true
      · rw [if_pos hopens] at h ⊢
        rw [← ih h, Nat.add_right_comm]
      · rw [if_neg hopens] at h ⊢
        by_cases hcloses : closes a = true
        · rw [if_pos hcloses] at h ⊢
          cases depth with
          | zero => cases h
          | succ depth =>
              rw [Nat.succ_add]
              exact ih h
        · rw [if_neg hcloses] at h ⊢
          exact ih h

theorem Balanced.depthBehind_append {items : List α} (h : Balanced opens closes items)
    (depth : Nat) (rest : List α) :
    depthBehind opens closes depth (items ++ rest) = depthBehind opens closes depth rest := by
  have hitems := depthBehind_add h depth
  rw [Nat.zero_add] at hitems
  rw [Transclude.depthBehind_append, hitems, Option.bind_some]

theorem balanced_nil : Balanced opens closes [] := rfl

theorem Balanced.append {front back : List α} (hfront : Balanced opens closes front)
    (hback : Balanced opens closes back) : Balanced opens closes (front ++ back) := by
  unfold Balanced
  rw [hfront.depthBehind_append]
  exact hback

theorem depthBehind_singleton {a : α} (hopens : opens a = false) (hcloses : closes a = false)
    (depth : Nat) : depthBehind opens closes depth [a] = some depth := by
  simp [depthBehind, hopens, hcloses]

theorem balanced_singleton {a : α} (hopens : opens a = false) (hcloses : closes a = false) :
    Balanced opens closes [a] := depthBehind_singleton hopens hcloses 0

/-- A list without brackets is balanced. -/
theorem balanced_of_forall {items : List α}
    (h : ∀ a ∈ items, opens a = false ∧ closes a = false) : Balanced opens closes items := by
  induction items with
  | nil => rfl
  | cons a rest ih =>
      obtain ⟨⟨hopens, hcloses⟩, hrest⟩ := List.forall_mem_cons.mp h
      exact (balanced_singleton hopens hcloses).append (ih hrest)

/-- A balanced list between brackets is balanced. -/
theorem Balanced.around {items : List α} {first last : α} (h : Balanced opens closes items)
    (hfirst : opens first = true) (hlast : opens last = false) (hcloses : closes last = true) :
    Balanced opens closes (first :: items ++ [last]) := by
  unfold Balanced
  rw [List.cons_append, depthBehind, if_pos hfirst, h.depthBehind_append]
  simp [depthBehind, hlast, hcloses]

end

namespace Bracket

variable {minds : Bool} {opening closing : Char}

/-- From any depth above some open bracket, the scan goes through a text and is as much deeper
behind it as the text leads. -/
def Leads (minds : Bool) (opening closing : Char) (text : List Char) (before behind : Nat) : Prop :=
  ∀ (base : Nat) (rest : List Char),
    closingFrom minds opening closing (base + 1 + before : Nat) none (text ++ rest) =
      (closingFrom minds opening closing (base + 1 + behind : Nat) none rest).map (· + text.length)

theorem Leads.nil (depth : Nat) : Leads minds opening closing [] depth depth := by
  intro base rest
  simp

theorem Leads.append {front back : List Char} {before middle behind : Nat}
    (hfront : Leads minds opening closing front before middle)
    (hback : Leads minds opening closing back middle behind) :
    Leads minds opening closing (front ++ back) before behind := by
  intro base rest
  rw [List.append_assoc, hfront, hback, Option.map_map, List.length_append]
  congr 1
  funext length
  simp only [Function.comp_apply]
  omega

theorem Leads.other {c : Char} (hquote : minds = true → isQuote c = false) (hopening : c ≠ opening)
    (hclosing : c ≠ closing) (depth : Nat) : Leads minds opening closing [c] depth depth := by
  intro base rest
  exact closingFrom_other hquote hopening hclosing

theorem Leads.others {text : List Char}
    (h : ∀ c ∈ text, (minds = true → isQuote c = false) ∧ c ≠ opening ∧ c ≠ closing)
    (depth : Nat) : Leads minds opening closing text depth depth := by
  induction text with
  | nil => exact .nil depth
  | cons c rest ih =>
      obtain ⟨⟨hquote, hopening, hclosing⟩, hrest⟩ := List.forall_mem_cons.mp h
      exact (Leads.other hquote hopening hclosing depth).append (ih hrest)

theorem Leads.opens (hquote : minds = true → isQuote opening = false) (depth : Nat) :
    Leads minds opening closing [opening] depth (depth + 1) := by
  intro base rest
  exact closingFrom_opening hquote

theorem Leads.closes (hquote : minds = true → isQuote closing = false) (hne : closing ≠ opening)
    (depth : Nat) : Leads minds opening closing [closing] (depth + 1) depth := by
  intro base rest
  have hdepth : ((base + 1 + (depth + 1) : Nat) : Int) ≠ 1 := by omega
  have hless : ((base + 1 + (depth + 1) : Nat) : Int) - 1 = (base + 1 + depth : Nat) := by omega
  rw [List.singleton_append, closingFrom_closing hquote hne hdepth, hless]
  rfl

/-- A balanced text leads back to its depth when quotes do not count. -/
theorem Leads.of_balanced (hne : closing ≠ opening) {text : List Char}
    (h : Balanced (· == opening) (· == closing) text) :
    Leads false opening closing text 0 0 := by
  -- brackets open on the way, so that the induction is for all depths
  suffices hleads : ∀ before behind,
      depthBehind (· == opening) (· == closing) before text = some behind →
      Leads false opening closing text before behind from hleads 0 0 h
  clear h
  have hnot : ∀ c, false = true → isQuote c = false := fun _ hfalse => absurd hfalse (by decide)
  induction text with
  | nil =>
      intro before behind h
      cases h
      exact .nil before
  | cons c rest ih =>
      intro before behind h
      rw [depthBehind] at h
      by_cases hopens : c = opening
      · subst hopens
        rw [if_pos (beq_self_eq_true c)] at h
        exact (Leads.opens (hnot c) before).append (ih _ _ h)
      · rw [if_neg (by simpa using hopens)] at h
        by_cases hcloses : c = closing
        · subst hcloses
          rw [if_pos (beq_self_eq_true c)] at h
          cases before with
          | zero => cases h
          | succ before => exact (Leads.closes (hnot c) hne before).append (ih _ _ h)
        · rw [if_neg (by simpa using hcloses)] at h
          exact (Leads.other (hnot c) hopens hcloses before).append (ih _ _ h)

/-- The bracket around a text that leads back to its depth is found right behind it. -/
theorem Leads.closing? {text : List Char} (h : Leads minds opening closing text 0 0)
    (hopening : minds = true → isQuote opening = false)
    (hclosing : minds = true → isQuote closing = false) (hne : closing ≠ opening)
    (rest : List Char) :
    Bracket.closing? minds opening closing (opening :: (text ++ closing :: rest)) =
      some (text.length + 1) := by
  have htext := h 0 (closing :: rest)
  rw [Bracket.closing?, closingFrom_opening hopening, Int.zero_add]
  change (closingFrom minds opening closing ((0 + 1 + 0 : Nat) : Int) none _).map _ = _
  rw [htext]
  change ((closingFrom minds opening closing 1 none (closing :: rest)).map _).map _ = _
  rw [closingFrom_last hclosing hne]
  simp

end Bracket

/-- A bracketed part whose inside leads back to its depth is read whole. -/
theorem Directive.bracketed?_of_leads {minds : Bool} {opening closing : Char} {text : List Char}
    (h : Bracket.Leads minds opening closing text 0 0)
    (hopening : minds = true → Bracket.isQuote opening = false)
    (hclosing : minds = true → Bracket.isQuote closing = false) (hne : closing ≠ opening)
    (rest : List Char) :
    bracketed? minds opening closing (opening :: (text ++ closing :: rest)) =
      some (text, text.length + 2) := by
  rw [bracketed?, h.closing? hopening hclosing hne, Option.map_some, List.drop_succ_cons,
    List.drop_zero, Nat.add_sub_cancel, List.take_left]

/-- A name that begins with no space is found right behind the delimiter. -/
theorem Directive.headLength?_append (opening : List Char) {name : List Char} (hne : name ≠ [])
    (hspace : name.head? ≠ some ' ') {rest : List Char}
    (hrest : ∀ c ∈ rest.head?, Text.isIdentifierPart c = false) :
    headLength? opening name (opening ++ (name ++ rest)) = some (opening.length + name.length) := by
  have hopening : opening.isPrefixOf (opening ++ (name ++ rest)) = true :=
    List.isPrefixOf_iff_prefix.mpr (List.prefix_append _ _)
  have hends : nameEnds name (name ++ rest) = true := by
    unfold nameEnds
    rw [List.isPrefixOf_iff_prefix.mpr (List.prefix_append _ _), List.drop_left]
    cases rest with
    | nil => rfl
    | cons c rest => simp [hrest c rfl]
  have hspaces : (name ++ rest).takeWhile (· == ' ') = [] := by
    obtain ⟨c, more, rfl⟩ := List.exists_cons_of_ne_nil hne
    rw [List.cons_append, List.takeWhile_cons_of_neg]
    simpa using hspace
  rw [headLength?, if_pos hopening]
  simp [hspaces, spacesBefore?, hends]

end Transclude
