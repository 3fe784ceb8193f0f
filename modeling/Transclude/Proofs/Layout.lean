import Mathlib
import Transclude.Proofs.Outcome
import Transclude.Render

/-! # Layouts

A text is laid out when it is known which of its parts are directives of a name and
which are text to the scan for them. What a scan makes of such a text follows from
its layout alone. -/

namespace Transclude

/-- A part of a text that is scanned for directives: text, or a directive with its own text. -/
inductive Slot
  | text (content : List Char)
  | found (source args body : List Char)

/-- The text of slots where each directive is replaced by what is given for its parts, or kept when
nothing is given. -/
def Slot.fill {m : Type → Type} [Monad m]
    (give : List Char → List Char → m (Option (List Char))) : List Slot → m (List Char)
  | [] => return []
  | .text content :: rest => do return content ++ (← fill give rest)
  | .found source args body :: rest => do
    let replacement ← give args body
    return replacement.getD source ++ (← fill give rest)

namespace Slot

variable {m : Type → Type} [Monad m] [LawfulMonad m]
  {give : List Char → List Char → m (Option (List Char))}

theorem fill_text (content : List Char) (rest : List Slot) :
    fill give (.text content :: rest) = (content ++ ·) <$> fill give rest := by
  rw [fill, bind_pure_comp]

theorem fill_found (source args body : List Char) (rest : List Slot) :
    fill give (.found source args body :: rest) = give args body >>= fun replacement =>
      (replacement.getD source ++ ·) <$> fill give rest := by
  simp only [fill, bind_pure_comp]

theorem fill_singleton (source args body : List Char) :
    fill give [.found source args body] = (Option.getD · source) <$> give args body := by
  simp [fill]

end Slot

/-- What begins at any place of a text that is followed by a rest has a property. -/
def Everywhere (holds : List Char → Prop) (text rest : List Char) : Prop :=
  ∀ front c back, text = front ++ c :: back → holds (c :: back ++ rest)

theorem Everywhere.nil (holds : List Char → Prop) (rest : List Char) :
    Everywhere holds [] rest := by
  intro front c back heq
  simp at heq

theorem Everywhere.imp {holds holds' : List Char → Prop} (himp : ∀ text, holds text → holds' text)
    {text rest : List Char} (h : Everywhere holds text rest) : Everywhere holds' text rest :=
  fun front c back heq => himp _ (h front c back heq)

theorem Everywhere.tail {holds : List Char → Prop} {c : Char} {text rest : List Char}
    (h : Everywhere holds (c :: text) rest) : Everywhere holds text rest := by
  rintro front d back rfl
  exact h (c :: front) d back rfl

theorem Everywhere.append {holds : List Char → Prop} {front back rest : List Char}
    (hfront : Everywhere holds front (back ++ rest)) (hback : Everywhere holds back rest) :
    Everywhere holds (front ++ back) rest := by
  intro before c after heq
  -- the place lies behind the seam, at it or before it
  obtain ⟨middle, hsplit⟩ | ⟨middle, hsplit⟩ := List.append_eq_append_iff.mp heq
  · obtain ⟨rfl, hback'⟩ := hsplit
    exact hback middle c after hback'
  · obtain ⟨hfront', hafter⟩ := hsplit
    cases middle with
    | nil =>
        simp only [List.nil_append] at hafter
        exact hback [] c after hafter.symm
    | cons first middle =>
        obtain ⟨rfl, rfl⟩ := List.cons.inj hafter
        have hholds := hfront before c middle hfront'
        rwa [List.cons_append, ← List.append_assoc, ← List.cons_append] at hholds

namespace Directive

variable {delimiters : Delimiters} {name : List Char} {shape : Shape}

/-- No directive of the name begins in a text that is followed by a rest. -/
def Silent (delimiters : Delimiters) (name text rest : List Char) : Prop :=
  Everywhere (fun text => headLength? delimiters.opening name text = none) text rest

/-- A text that is followed by a rest is a directive with its parts. -/
structure Complete (delimiters : Delimiters) (name : List Char) (shape : Shape)
    (source args body rest : List Char) : Prop where
  nonempty : source ≠ []
  reads : ∃ head length, headLength? delimiters.opening name (source ++ rest) = some head ∧
    readTail shape delimiters.closing ((source ++ rest).drop head) =
      .complete args body length ∧ head + length = source.length

/-- The scan passes over silent text. -/
theorem piecesFrom_silent {text rest : List Char} (h : Silent delimiters name text rest)
    (passed pending : List Char) (position : Nat) :
    piecesFrom delimiters name shape passed pending position (text ++ rest) =
      piecesFrom delimiters name shape (text.reverse ++ passed) (text.reverse ++ pending)
        (position + text.length) rest := by
  induction text generalizing passed pending position with
  | nil => rfl
  | cons c text ih =>
      have hnone := h [] c text rfl
      rw [List.cons_append] at hnone ⊢
      rw [piecesFrom, hnone]
      dsimp only
      rw [ih h.tail]
      simp [Nat.add_assoc, Nat.add_comm 1]

/-- Silent text is one piece, or none when it is empty. -/
theorem pieces_silent {text : List Char} (h : Silent delimiters name text []) :
    pieces delimiters name shape text = if text.isEmpty then [] else [.literal text] := by
  have hpieces : piecesFrom delimiters name shape [] [] 0 (text ++ []) = _ :=
    piecesFrom_silent h [] [] 0
  rw [List.append_nil] at hpieces
  rw [pieces, hpieces, piecesFrom]
  simp

/-- The scan takes a complete directive and goes on behind it. -/
theorem piecesFrom_complete {source args body rest : List Char}
    (h : Complete delimiters name shape source args body rest) (passed pending : List Char)
    (position : Nat) : ∃ found : Directive, found.args = args ∧ found.body = body ∧
      piecesFrom delimiters name shape passed pending position (source ++ rest) =
        (if pending.isEmpty then [] else [.literal pending.reverse]) ++ .directive found source ::
          piecesFrom delimiters name shape (source.reverse ++ passed) [] found.stop rest := by
  obtain ⟨hne, head, length, hhead, htail, hlength⟩ := h
  cases source with
  | nil => exact absurd rfl hne
  | cons c source =>
      rw [List.length_cons] at hlength
      have hlast : head + length - 1 = source.length := by omega
      refine ⟨⟨args, body, position, position + (head + length - 1) + 1,
        (passed.takeWhile fun p => p == ' ' || p == '\t').reverse⟩, rfl, rfl, ?_⟩
      rw [List.cons_append] at hhead htail ⊢
      rw [piecesFrom, hhead]
      dsimp only
      rw [htail]
      simp only [hlast, List.take_succ_cons, List.take_left, List.drop_left]
      split <;> rfl

end Directive

/-- How a text is laid out for the scan for directives of a name. -/
inductive Layout (delimiters : Delimiters) (name : List Char) (shape : Shape) :
    List Char → List Slot → Prop
  | nil : Layout delimiters name shape [] []
  | text {content rest : List Char} {slots : List Slot}
    (hsilent : Directive.Silent delimiters name content rest)
    (hrest : Layout delimiters name shape rest slots) :
    Layout delimiters name shape (content ++ rest) (.text content :: slots)
  | found {source args body rest : List Char} {slots : List Slot}
    (hcomplete : Directive.Complete delimiters name shape source args body rest)
    (hrest : Layout delimiters name shape rest slots) :
    Layout delimiters name shape (source ++ rest) (.found source args body :: slots)

namespace Layout

variable {delimiters : Delimiters} {name : List Char} {shape : Shape} {text : List Char}
  {slots : List Slot}

/-- Putting the pieces of a text together fills its slots. -/
theorem assemble_eq_fill {m : Type → Type} [Monad m] [LawfulMonad m]
    {handler : Directive → m (Option (List Char))}
    {give : List Char → List Char → m (Option (List Char))}
    (h : Layout delimiters name shape text slots)
    (hgive : ∀ directive, handler directive = give directive.args directive.body)
    (remark : Part → Nat → m Unit) (passed pending : List Char) (position : Nat) :
    Piece.assemble remark handler
        (Directive.piecesFrom delimiters name shape passed pending position text) =
      (pending.reverse ++ ·) <$> Slot.fill give slots := by
  induction h generalizing passed pending position with
  | nil =>
      rw [Directive.piecesFrom]
      split
      next hempty =>
        rw [List.isEmpty_iff.mp hempty]
        simp [Piece.assemble, Slot.fill]
      next => simp [Piece.assemble, Slot.fill]
  | text hsilent _ ih =>
      rw [Directive.piecesFrom_silent hsilent, ih, Slot.fill_text]
      simp
  | found hcomplete _ ih =>
      obtain ⟨directive, hargs, hbody, hpieces⟩ :=
        Directive.piecesFrom_complete hcomplete passed pending position
      have hbehind := fun before => ih before [] directive.stop
      rw [hpieces, Slot.fill]
      -- the text before the directive is a piece of its own when there is any
      split
      next hempty =>
        rw [List.isEmpty_iff.mp hempty, List.nil_append, Piece.assemble, hbehind, hgive, hargs,
          hbody]
        simp
      next =>
        rw [List.singleton_append, Piece.assemble, Piece.assemble, hbehind, hgive, hargs, hbody]
        simp

end Layout

/-- The outcome of putting pieces together depends on no remarks. -/
theorem Piece.outcome_assemble {ω ε : Type} (remark : Part → Nat → Run ω ε Unit)
    (hremark : ∀ part start, (remark part start).outcome = .ok ())
    (handler : Directive → Run ω ε (Option (List Char))) (pieces : List Piece) :
    (assemble remark handler pieces).outcome =
      assemble (fun _ _ => .ok ()) (fun found => (handler found).outcome) pieces := by
  induction pieces with
  | nil => rfl
  | cons piece rest ih =>
      cases piece with
      | literal text => simp only [assemble, Run.outcome_bind, ih, Run.outcome_pure]; rfl
      | unbalanced part start => simp only [assemble, Run.outcome_bind, ih, hremark]
      | directive found source => simp only [assemble, Run.outcome_bind, ih, Run.outcome_pure]; rfl

/-- Replacing the directives of a laid out text fills its slots. -/
theorem Renderer.replaceDirectives_eq_fill {delimiters : Delimiters} {name : List Char}
    {shape : Shape} {text : List Char} {slots : List Slot}
    (h : Layout delimiters name shape text slots)
    {handler : Directive → Rendering (Option (List Char))}
    {give : List Char → List Char → Rendering (Option (List Char))}
    (hgive : ∀ directive, handler directive = give directive.args directive.body) :
    replaceDirectives delimiters name shape handler text = Slot.fill give slots := by
  rw [replaceDirectives, Directive.pieces, h.assemble_eq_fill hgive]
  simp

theorem Renderer.outcome_replaceDirectives {delimiters : Delimiters} {name : List Char}
    {shape : Shape} {text : List Char} {slots : List Slot}
    (h : Layout delimiters name shape text slots)
    {handler : Directive → Rendering (Option (List Char))}
    {give : List Char → List Char → Except (Halt Error) (Option (List Char))}
    (hgive : ∀ directive, (handler directive).outcome = give directive.args directive.body) :
    (replaceDirectives delimiters name shape handler text).outcome = Slot.fill give slots := by
  rw [replaceDirectives, Piece.outcome_assemble _ fun _ _ => rfl, Directive.pieces,
    h.assemble_eq_fill hgive]
  simp

/-- A text without directives of the name stays as it is. -/
theorem Renderer.replaceDirectives_silent {delimiters : Delimiters} {name : List Char}
    {shape : Shape} {text : List Char} (h : Directive.Silent delimiters name text [])
    (handler : Directive → Rendering (Option (List Char))) :
    replaceDirectives delimiters name shape handler text = pure text := by
  rw [replaceDirectives, Directive.pieces_silent h]
  split
  next hempty =>
    obtain rfl := List.isEmpty_iff.mp hempty
    rfl
  next => simp [Piece.assemble]

theorem Renderer.outcome_replaceDirectives_silent {delimiters : Delimiters} {name : List Char}
    {shape : Shape} {text : List Char} (h : Directive.Silent delimiters name text [])
    (handler : Directive → Rendering (Option (List Char))) :
    (replaceDirectives delimiters name shape handler text).outcome = .ok text := by
  rw [replaceDirectives_silent h]
  rfl

end Transclude
