import Transclude.Proofs.Reading

/-! # The depth that readers need

Every reader passes through at most ten others before it takes a token, so that
eleven steps for each token and a few more are enough. With that much depth, more
of it changes nothing: not the tree, not the rest, and not the failure. -/

namespace Transclude.Expr

/-- Readers whose depth is enough for their tokens give the same with one more. -/
structure ReadersSettled (fuel : Nat) : Prop where
  expr {tokens} : 11 * tokens.length + 10 ≤ fuel → readExpr (fuel + 1) tokens = readExpr fuel tokens
  binary {level tokens} : level ≤ 6 → 11 * tokens.length + level + 3 ≤ fuel →
    readBinary (fuel + 1) level tokens = readBinary fuel level tokens
  binaryRest {level left tokens} : level ≤ 6 → 11 * tokens.length + 1 ≤ fuel →
    readBinaryRest (fuel + 1) level left tokens = readBinaryRest fuel level left tokens
  unary {tokens} : 11 * tokens.length + 2 ≤ fuel → readUnary (fuel + 1) tokens = readUnary fuel tokens
  access {object tokens} : 11 * tokens.length + 1 ≤ fuel →
    readAccess (fuel + 1) object tokens = readAccess fuel object tokens
  primary {tokens} : 11 * tokens.length + 1 ≤ fuel →
    readPrimary (fuel + 1) tokens = readPrimary fuel tokens
  items {tokens} : 11 * tokens.length + 11 ≤ fuel →
    readItems (fuel + 1) tokens = readItems fuel tokens

namespace ReadersSettled

variable {fuel : Nat} {tokens : List Token}

theorem expr_succ (h : ReadersSettled fuel) (hfuel : 11 * tokens.length + 10 ≤ fuel + 1) :
    readExpr (fuel + 1 + 1) tokens = readExpr (fuel + 1) tokens := by
  rw [readExpr, readExpr, h.binary (Nat.le_refl 6) (by omega)]
  apply bind_congr_of_ok
  rintro ⟨test, middle⟩ htest
  have htestShorter := ((readers_sound fuel).binary htest).shorter
  dsimp only
  split
  next position behind =>
    simp only [List.length_cons] at htestShorter
    rw [h.expr (by omega)]
    apply bind_congr_of_ok
    rintro ⟨consequent, middle⟩ hconsequent
    have hconsequentShorter := ((readers_sound fuel).expr hconsequent).shorter
    dsimp only
    split
    next position after =>
      simp only [List.length_cons] at hconsequentShorter
      rw [h.expr (by omega)]
    next => rfl
  next => rfl

theorem binary_succ (h : ReadersSettled fuel) {level : Nat} (hlevel : level ≤ 6)
    (hfuel : 11 * tokens.length + level + 3 ≤ fuel + 1) :
    readBinary (fuel + 1 + 1) level tokens = readBinary (fuel + 1) level tokens := by
  cases level with
  | zero =>
      rw [readBinary, readBinary]
      exact h.unary (by omega)
  | succ level =>
      rw [readBinary, readBinary, h.binary (by omega) (by omega)]
      apply bind_congr_of_ok
      rintro ⟨left, middle⟩ hleft
      have hshorter := ((readers_sound fuel).binary hleft).shorter
      exact h.binaryRest (by omega) (by omega)

theorem binaryRest_succ (h : ReadersSettled fuel) {level : Nat} {left : Expr} (hlevel : level ≤ 6)
    (hfuel : 11 * tokens.length + 1 ≤ fuel + 1) :
    readBinaryRest (fuel + 1 + 1) level left tokens =
      readBinaryRest (fuel + 1) level left tokens := by
  rw [readBinaryRest.eq_def, readBinaryRest.eq_def]
  dsimp only
  split
  next token behind =>
    rw [List.length_cons] at hfuel
    split
    next op hop =>
      split
      next =>
        rw [h.binary hlevel (by omega)]
        apply bind_congr_of_ok
        rintro ⟨right, middle⟩ hright
        have hshorter := ((readers_sound fuel).binary hright).shorter
        exact h.binaryRest hlevel (by dsimp only; omega)
      next => rfl
    next => rfl
  next => rfl

theorem unary_succ (h : ReadersSettled fuel) (hfuel : 11 * tokens.length + 2 ≤ fuel + 1) :
    readUnary (fuel + 1 + 1) tokens = readUnary (fuel + 1) tokens := by
  rw [readUnary.eq_def, readUnary.eq_def]
  dsimp only
  split
  next token behind =>
    rw [List.length_cons] at hfuel
    split
    next op hop => rw [h.unary (by omega)]
    next =>
      rw [h.primary (by rw [List.length_cons]; omega)]
      apply bind_congr_of_ok
      rintro ⟨object, middle⟩ hobject
      have hshorter := ((readers_sound fuel).primary hobject).shorter
      rw [List.length_cons] at hshorter
      exact h.access (by dsimp only; omega)
  next => rfl

theorem access_succ (h : ReadersSettled fuel) {object : Expr}
    (hfuel : 11 * tokens.length + 1 ≤ fuel + 1) :
    readAccess (fuel + 1 + 1) object tokens = readAccess (fuel + 1) object tokens := by
  rw [readAccess.eq_def, readAccess.eq_def]
  dsimp only
  split
  next position behind =>
    split
    next token after =>
      simp only [List.length_cons] at hfuel
      split
      next name hname => exact h.access (by omega)
      next => rfl
    next => rfl
  next position behind =>
    rw [List.length_cons] at hfuel
    rw [h.expr (by omega)]
    apply bind_congr_of_ok
    rintro ⟨key, middle⟩ hkey
    have hshorter := ((readers_sound fuel).expr hkey).shorter
    apply bind_congr_of_ok
    intro after hafter
    have hle := (expectSymbol_spans hafter).length_le
    exact h.access (by dsimp only at hle; omega)
  next => rfl

theorem primary_succ (h : ReadersSettled fuel) (hfuel : 11 * tokens.length + 1 ≤ fuel + 1) :
    readPrimary (fuel + 1 + 1) tokens = readPrimary (fuel + 1) tokens := by
  rw [readPrimary.eq_def, readPrimary.eq_def]
  dsimp only
  split
  next => rfl
  next position behind =>
    rw [List.length_cons] at hfuel
    rw [h.expr (by omega)]
  next => rfl
  next position behind _ =>
    rw [List.length_cons] at hfuel
    rw [h.items (by omega)]
  next => rfl
  next => rfl

theorem items_succ (h : ReadersSettled fuel) (hfuel : 11 * tokens.length + 11 ≤ fuel + 1) :
    readItems (fuel + 1 + 1) tokens = readItems (fuel + 1) tokens := by
  rw [readItems, readItems, h.expr (by omega)]
  apply bind_congr_of_ok
  rintro ⟨item, middle⟩ hitem
  have hshorter := ((readers_sound fuel).expr hitem).shorter
  dsimp only
  split
  next position behind =>
    rw [List.length_cons] at hshorter
    rw [h.items (by omega)]
  next => rfl

end ReadersSettled

/-- Every depth settles the readers of tokens that it is enough for. -/
theorem readers_settled (fuel : Nat) : ReadersSettled fuel := by
  induction fuel with
  | zero => constructor <;> intros <;> omega
  | succ fuel ih =>
      exact ⟨ih.expr_succ, ih.binary_succ, ih.binaryRest_succ, ih.unary_succ, ih.access_succ,
        ih.primary_succ, ih.items_succ⟩

/-- Beyond the depth chosen for the tokens, reading an expression gives what that depth gives. -/
theorem readExpr_eq_readExpression {fuel : Nat} {tokens : List Token}
    (h : 11 * tokens.length + 10 ≤ fuel) : readExpr fuel tokens = readExpression tokens := by
  have hsame : ∀ extra, readExpr (11 * tokens.length + 10 + extra) tokens =
      readExpr (11 * tokens.length + 10) tokens := by
    intro extra
    induction extra with
    | zero => rfl
    | succ extra ih =>
        rw [← ih]
        exact (readers_settled (11 * tokens.length + 10 + extra)).expr (by omega)
  obtain ⟨extra, rfl⟩ := Nat.exists_eq_add_of_le h
  have hdepth : depthFor tokens = 11 * tokens.length + 10 + (5 * tokens.length + 6) := by
    unfold depthFor
    omega
  rw [readExpression, hdepth, hsame, hsame]

end Transclude.Expr
