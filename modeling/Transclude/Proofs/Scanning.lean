import Mathlib
import Transclude.Comment
import Transclude.Directive.Split
import Transclude.Variable

/-! # Scans advance

The pieces of a text put together are the text, directives stand one behind the
other in it, and the parts of a directive are shorter than its own text. -/

namespace Transclude

theorem Text.leadingBlanks_le (text : List Char) : Text.leadingBlanks text ≤ text.length :=
  (List.takeWhile_prefix _).length_le

theorem Bracket.closingFrom_lt {minds : Bool} {opening closing : Char} {depth : Int}
    {quote : Option Char} {text : List Char} {offset : Nat}
    (h : closingFrom minds opening closing depth quote text = some offset) :
    offset < text.length := by
  fun_induction closingFrom minds opening closing depth quote text generalizing offset with
  | case1 => cases h
  | case2 => cases h
  | case3 depth c q hslash e more ih =>
      obtain ⟨found, hfound, rfl⟩ := Option.map_eq_some_iff.mp h
      have hlt := ih hfound
      simp only [List.length_cons]
      omega
  | case7 => cases h; simp
  | _ =>
      -- the scan goes on behind one character
      rename_i ih
      obtain ⟨found, hfound, rfl⟩ := Option.map_eq_some_iff.mp h
      have hlt := ih hfound
      simp only [List.length_cons]
      omega

namespace Directive

theorem length_le_of_nameEnds {name text : List Char} (h : nameEnds name text = true) :
    name.length ≤ text.length := by
  unfold nameEnds at h
  rw [Bool.and_eq_true] at h
  exact (List.isPrefixOf_iff_prefix.mp h.1).length_le

theorem length_le_of_spacesBefore? {name text : List Char} {most count : Nat}
    (hmost : most ≤ text.length) (h : spacesBefore? name text most = some count) :
    count + name.length ≤ text.length := by
  induction most with
  | zero =>
      unfold spacesBefore? at h
      split at h
      next hends =>
        cases h
        have hle := length_le_of_nameEnds hends
        omega
      next => cases h
  | succ most ih =>
      unfold spacesBefore? at h
      split at h
      next hends =>
        cases h
        have hle := length_le_of_nameEnds hends
        rw [List.length_drop] at hle
        omega
      next => exact ih (by omega) h

theorem headLength?_le {opening name text : List Char} {head : Nat}
    (h : headLength? opening name text = some head) : head ≤ text.length := by
  unfold headLength? at h
  split at h
  next hprefix =>
    obtain ⟨count, hcount, rfl⟩ := Option.map_eq_some_iff.mp h
    have hopening := (List.isPrefixOf_iff_prefix.mp hprefix).length_le
    have hle := length_le_of_spacesBefore? (List.takeWhile_prefix _).length_le hcount
    rw [List.length_drop] at hle
    omega
  next => cases h

theorem bracketed?_length {minds : Bool} {opening closing : Char} {text inner : List Char}
    {size : Nat} (h : bracketed? minds opening closing text = some (inner, size)) :
    inner.length < size ∧ size ≤ text.length := by
  obtain ⟨close, hclose, heq⟩ := Option.map_eq_some_iff.mp h
  cases heq
  have hlt := Bracket.closingFrom_lt hclose
  rw [List.length_take]
  omega

theorem closingLength_le (closing text : List Char) : closingLength closing text ≤ text.length := by
  unfold closingLength
  split
  · exact Nat.zero_le _
  · dsimp only
    split
    next hprefix =>
      have hle := (List.isPrefixOf_iff_prefix.mp hprefix).length_le
      have hblanks := Text.leadingBlanks_le text
      rw [List.length_drop] at hle
      omega
    next => exact Nat.zero_le _

theorem length_of_readBody {closing args args' body text : List Char} {front length : Nat}
    (hargs : args.length < front)
    (h : readBody closing args front text = .complete args' body length) :
    args'.length + body.length < length ∧ length ≤ front + text.length := by
  unfold readBody at h
  dsimp only at h
  split at h
  next inside hinside =>
    split at h
    next => cases h
    next inner size hbody =>
      cases h
      have hlength := bracketed?_length hbody
      have hclosing := closingLength_le closing ((text.drop (Text.leadingBlanks text)).drop size)
      have hblanks := Text.leadingBlanks_le text
      simp only [List.length_drop] at hlength hclosing
      omega
  next => cases h

/-- The parts of a directive are shorter than its text, which is a part of the rest. -/
theorem length_of_readTail {shape : Shape} {closing text args body : List Char} {length : Nat}
    (h : readTail shape closing text = .complete args body length) :
    args.length + body.length < length ∧ length ≤ text.length := by
  unfold readTail at h
  dsimp only at h
  -- blanks may stand before the arguments of a block only
  generalize hgap : (if shape = .block then Text.leadingBlanks text else 0) = gap at h
  have hle : gap ≤ text.length := by
    rw [← hgap]
    split
    · exact Text.leadingBlanks_le text
    · exact Nat.zero_le _
  split at h
  next inside hinside =>
    split at h
    next => cases h
    next inner size hargs =>
      have hlength := bracketed?_length hargs
      have hclosing := closingLength_le closing ((text.drop gap).drop size)
      simp only [List.length_drop] at hlength hclosing
      split at h
      next =>
        cases h
        simp only [List.length_nil]
        omega
      next =>
        have hbody := length_of_readBody (by omega) h
        simp only [List.length_drop] at hbody
        omega
  next => cases h

theorem bracketed?_part {minds : Bool} {opening closing : Char} {text inner : List Char}
    {size : Nat} (h : bracketed? minds opening closing text = some (inner, size)) :
    inner <:+: text := by
  obtain ⟨close, _, heq⟩ := Option.map_eq_some_iff.mp h
  cases heq
  exact (List.take_prefix _ _).isInfix.trans (List.drop_suffix 1 text).isInfix

/-- The arguments of a directive are a part of what stands behind its head. -/
theorem args_of_readTail {shape : Shape} {closing text args body : List Char} {length : Nat}
    (h : readTail shape closing text = .complete args body length) : args <:+: text := by
  unfold readTail at h
  dsimp only at h
  generalize (if shape = .block then Text.leadingBlanks text else 0) = gap at h
  split at h
  next inside hinside =>
    split at h
    next => cases h
    next inner size hargs =>
      have hinner := (bracketed?_part hargs).trans (List.drop_suffix gap text).isInfix
      split at h
      next =>
        cases h
        exact hinner
      next =>
        unfold readBody at h
        dsimp only at h
        split at h
        next =>
          split at h
          next => cases h
          next =>
            cases h
            exact hinner
        next => cases h
  next => cases h

theorem opening_of_headLength? {opening name text : List Char} {head : Nat}
    (h : headLength? opening name text = some head) :
    ∃ back, text = opening ++ back ∧ text.drop head <:+: back := by
  unfold headLength? at h
  split at h
  next hprefix =>
    obtain ⟨back, rfl⟩ := List.isPrefixOf_iff_prefix.mp hprefix
    obtain ⟨count, _, rfl⟩ := Option.map_eq_some_iff.mp h
    refine ⟨back, rfl, ?_⟩
    rw [Nat.add_assoc, ← List.drop_drop, List.drop_left]
    exact (List.drop_suffix _ _).isInfix
  next => cases h

/-- The arguments of a directive stand somewhere behind its opening delimiter. -/
theorem args_of_mem_piecesFrom {delimiters : Delimiters} {name : List Char} {shape : Shape}
    {passed pending : List Char} {position : Nat} {text : List Char} {found : Directive}
    {source : List Char}
    (h : .directive found source ∈
      piecesFrom delimiters name shape passed pending position text) :
    ∃ front back, text = front ++ (delimiters.opening ++ back) ∧ found.args <:+: back := by
  -- what is found behind some characters stands behind them in the whole
  have hbehind : ∀ (c : Char) (rest : List Char) (count : Nat),
      (∃ front back, rest.drop count = front ++ (delimiters.opening ++ back) ∧
        found.args <:+: back) →
      ∃ front back, c :: rest = front ++ (delimiters.opening ++ back) ∧ found.args <:+: back := by
    rintro c rest count ⟨front, back, hback, hargs⟩
    refine ⟨c :: (rest.take count ++ front), back, ?_, hargs⟩
    rw [List.cons_append, List.append_assoc, ← hback, List.take_append_drop]
  fun_induction piecesFrom delimiters name shape passed pending position text with
  | case1 => simp at h
  | case2 => simp at h
  | case3 passed pending position c rest hhead ih => exact hbehind c rest 0 (ih h)
  | case4 passed pending position c rest head hhead skipped htail ih => exact hbehind c rest _ (ih h)
  | case5 passed pending position c rest head hhead skipped part htail ih =>
      exact hbehind c rest _ (ih (by simpa using h))
  | case6 passed pending position c rest head hhead args body length htail _ _ _ _ taken hempty ih
  | case7 passed pending position c rest head hhead args body length htail _ _ _ _ taken hempty ih =>
      obtain ⟨back, hback, hinside⟩ := opening_of_headLength? hhead
      simp only [taken, List.mem_cons, Piece.directive.injEq, reduceCtorEq, false_or] at h
      obtain ⟨rfl, rfl⟩ | h := h
      · exact ⟨[], back, hback, (args_of_readTail htail).trans hinside⟩
      · exact hbehind c rest _ (ih h)

theorem args_of_mem_pieces {delimiters : Delimiters} {name : List Char} {shape : Shape}
    {text : List Char} {found : Directive} {source : List Char}
    (h : .directive found source ∈ pieces delimiters name shape text) :
    ∃ front back, text = front ++ (delimiters.opening ++ back) ∧ found.args <:+: back :=
  args_of_mem_piecesFrom h

/-- Where a directive stands in a text that begins at a position. -/
structure Within (position stop : Nat) (found : Directive) : Prop where
  start_le : position ≤ found.start
  stop_le : found.stop ≤ stop
  parts : found.args.length + found.body.length < found.stop - found.start

/-- The directive of a piece, if it is one. -/
def ofPiece? : Piece → Option Directive
  | .directive found _ => some found
  | _ => none

/-- The directives of a text that begins at a position and ends at another one stand in it one
behind the other. -/
structure Advance (position stop : Nat) (directives : List Directive) : Prop where
  within : ∀ found ∈ directives, Within position stop found
  ordered : directives.Pairwise fun first second => first.stop ≤ second.start

namespace Advance

variable {position position' stop stop' : Nat} {directives : List Directive}

theorem nil (position stop : Nat) : Advance position stop [] := ⟨nofun, .nil⟩

theorem mono (h : Advance position' stop' directives) (hposition : position ≤ position')
    (hstop : stop' ≤ stop) : Advance position stop directives := by
  refine ⟨fun found hfound => ?_, h.ordered⟩
  obtain ⟨hstart, hend, hparts⟩ := h.within found hfound
  exact ⟨by omega, by omega, hparts⟩

theorem cons {found : Directive} (hfound : Within position stop found)
    (h : Advance found.stop stop directives) : Advance position stop (found :: directives) := by
  have hstart := hfound.start_le
  have hparts := hfound.parts
  refine ⟨?_, List.pairwise_cons.mpr ⟨fun other hother => (h.within other hother).start_le,
    h.ordered⟩⟩
  intro other hother
  obtain rfl | hother := List.mem_cons.mp hother
  · exact hfound
  · exact (h.mono (by omega) (Nat.le_refl stop)).within other hother

end Advance

/-- Behind a directive the scan goes on where its text ends. -/
theorem advance_complete {delimiters : Delimiters} {name : List Char} {shape : Shape}
    {position head length : Nat} {c : Char} {rest args body before : List Char}
    {directives : List Directive}
    (hhead : headLength? delimiters.opening name (c :: rest) = some head)
    (htail : readTail shape delimiters.closing ((c :: rest).drop head) =
      .complete args body length)
    (h : Advance (position + (head + length - 1) + 1)
      (position + (head + length - 1) + 1 + (rest.drop (head + length - 1)).length) directives) :
    Advance position (position + (c :: rest).length)
      (⟨args, body, position, position + (head + length - 1) + 1, before⟩ :: directives) := by
  have hle := headLength?_le hhead
  have hlength := length_of_readTail htail
  rw [List.length_drop] at hlength
  rw [List.length_cons] at hle hlength
  have hstop : position + (head + length - 1) + 1 + (rest.drop (head + length - 1)).length =
      position + (c :: rest).length := by
    rw [List.length_drop, List.length_cons]
    omega
  rw [hstop] at h
  refine .cons ⟨Nat.le_refl _, ?_, by dsimp only; omega⟩ h
  rw [← hstop]
  exact Nat.le_add_right _ _

/-- The scan for directives advances. -/
theorem piecesFrom_advance (delimiters : Delimiters) (name : List Char) (shape : Shape)
    (passed pending : List Char) (position : Nat) (text : List Char) :
    Advance position (position + text.length)
      ((piecesFrom delimiters name shape passed pending position text).filterMap ofPiece?) := by
  fun_induction piecesFrom delimiters name shape passed pending position text with
  | case1 => exact .nil _ _
  | case2 => exact .nil _ _
  | case3 passed pending position c rest hhead ih =>
      exact ih.mono (by omega) (by rw [List.length_cons]; omega)
  | case4 passed pending position c rest head hhead skipped htail ih =>
      have hle := headLength?_le hhead
      rw [List.length_cons] at hle
      exact ih.mono (by omega) (by rw [List.length_drop, List.length_cons]; omega)
  | case5 passed pending position c rest head hhead skipped part htail ih =>
      have hle := headLength?_le hhead
      rw [List.length_cons] at hle
      exact ih.mono (by omega) (by rw [List.length_drop, List.length_cons]; omega)
  | case6 passed pending position c rest head hhead args body length htail source stop =>
      exact advance_complete hhead htail ‹_›
  | case7 passed pending position c rest head hhead args body length htail source stop =>
      exact advance_complete hhead htail ‹_›

/-- The directives that are taken from a text are the ones of its pieces. -/
theorem all_eq (delimiters : Delimiters) (name : List Char) (shape : Shape) (text : List Char) :
    all delimiters name shape text = (pieces delimiters name shape text).filterMap ofPiece? :=
  rfl

theorem all_advance (delimiters : Delimiters) (name : List Char) (shape : Shape)
    (text : List Char) : Advance 0 text.length (all delimiters name shape text) := by
  have h := piecesFrom_advance delimiters name shape [] [] 0 text
  rwa [Nat.zero_add, ← pieces, ← all_eq] at h

/-- The pieces of a text put together are the text. -/
theorem piecesFrom_source (delimiters : Delimiters) (name : List Char) (shape : Shape)
    (passed pending : List Char) (position : Nat) (text : List Char) :
    (piecesFrom delimiters name shape passed pending position text).flatMap Piece.source =
      pending.reverse ++ text := by
  fun_induction piecesFrom delimiters name shape passed pending position text with
  | case1 passed pending position hempty => simp [List.isEmpty_iff.mp hempty]
  | case2 => simp [Piece.source]
  | case3 passed pending position c rest hhead ih => rw [ih]; simp
  | case4 passed pending position c rest head hhead skipped htail ih => rw [ih]; simp [skipped]
  | case5 passed pending position c rest head hhead skipped part htail ih =>
      rw [List.flatMap_cons, ih]
      simp [Piece.source, skipped]
  | case6 passed pending position c rest head hhead args body length htail source _ _ _ _ hempty ih =>
      rw [List.flatMap_cons, ih, List.isEmpty_iff.mp hempty]
      simp [Piece.source, source]
  | case7 passed pending position c rest head hhead args body length htail source _ _ _ _ _ ih =>
      rw [List.flatMap_cons, List.flatMap_cons, ih]
      simp [Piece.source, source]

end Directive

/-- Removing commented includes only takes characters away. -/
theorem Comment.strip_sublist (delimiters : Delimiters) (text : List Char) :
    (strip delimiters text).Sublist text := by
  fun_induction strip delimiters text with
  | case1 => exact .refl _
  | case2 c rest length hlength ih => exact .cons c (ih.trans (List.drop_sublist _ _))
  | case3 c rest hlength ih => exact .cons_cons c ih

namespace Variable

/-- The text of a fragment. -/
def Fragment.source : Fragment → List Char
  | .char c => [c]
  | .variable _ source => source

/-- The fragments of a text put together are the text, and none of them is empty. -/
theorem fragments_source (delimiters : Delimiters) (text : List Char) :
    (fragments delimiters text).flatMap Fragment.source = text ∧
      ∀ fragment ∈ fragments delimiters text, fragment.source ≠ [] := by
  fun_induction fragments delimiters text with
  | case1 => exact ⟨rfl, nofun⟩
  | case2 c rest hpath ih =>
      exact ⟨by simp [Fragment.source, ih.1],
        List.forall_mem_cons.mpr ⟨by simp [Fragment.source], ih.2⟩⟩
  | case3 c rest path hpath length ih =>
      exact ⟨by simp [Fragment.source, ih.1],
        List.forall_mem_cons.mpr ⟨by simp [Fragment.source], ih.2⟩⟩

end Variable

end Transclude
