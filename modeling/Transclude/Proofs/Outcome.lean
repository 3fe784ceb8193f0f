import Transclude.Run

/-! # Outcomes in sequence

What a sequence of steps gives, for results that are values or errors and for
runs, whose outcome does not depend on what they write down. Runs in sequence
obey the laws of a monad. Without their details and notices, runs are what a
caller gets from them. -/

namespace Transclude

@[simp] theorem ok_bind {ε α β : Type} (a : α) (next : α → Except ε β) :
    ((.ok a : Except ε α) >>= next) = next a := rfl

@[simp] theorem error_bind {ε α β : Type} (reason : ε) (next : α → Except ε β) :
    ((.error reason : Except ε α) >>= next) = .error reason := rfl

/-- A sequence succeeds when both of its steps do. -/
theorem bind_eq_ok {ε α β : Type} {first : Except ε α} {next : α → Except ε β} {b : β} :
    (first >>= next) = .ok b ↔ ∃ a, first = .ok a ∧ next a = .ok b := by
  cases first with
  | ok a => simp [bind, Except.bind]
  | error e => simp [bind, Except.bind]

/-- A sequence fails when one of its steps does. -/
theorem bind_eq_error {ε α β : Type} {first : Except ε α} {next : α → Except ε β} {reason : ε} :
    (first >>= next) = .error reason ↔
      first = .error reason ∨ ∃ a, first = .ok a ∧ next a = .error reason := by
  cases first with
  | ok a => simp [bind, Except.bind]
  | error e => simp [bind, Except.bind]

theorem liftM_eq_ok {ε α : Type} {result : Except Fault α} {value : α} :
    (liftM result : Except (Halt ε) α) = .ok value ↔ result = .ok value := by
  cases result with
  | ok found => exact ⟨fun h => by cases h; rfl, fun h => by cases h; rfl⟩
  | error kind => exact ⟨nofun, nofun⟩

/-- An operation that reports no errors fails with a fault. -/
theorem liftM_eq_fault {ε α : Type} {result : Except Fault α} {kind : Fault} :
    (liftM result : Except (Halt ε) α) = .error (.fault kind) ↔ result = .error kind := by
  cases result with
  | ok found => exact ⟨nofun, nofun⟩
  | error kind' => exact ⟨fun h => by cases h; rfl, fun h => by cases h; rfl⟩

/-- A step that only goes on with what another one gives fails when that does. -/
theorem bind_pure_eq_error {ε α β : Type} {first : Except ε α} {f : α → β} {reason : ε} :
    (first >>= fun a => pure (f a)) = .error reason ↔ first = .error reason := by
  cases first with
  | ok a => exact ⟨nofun, nofun⟩
  | error e => exact ⟨fun h => by cases h; rfl, fun h => by cases h; rfl⟩

theorem mapError_eq_fault {ε δ α : Type} {result : Except (Halt ε) α} {f : ε → δ} {kind : Fault} :
    result.mapError (Halt.map f) = .error (.fault kind) ↔ result = .error (.fault kind) := by
  cases result with
  | ok _ => exact ⟨nofun, nofun⟩
  | error reason =>
      cases reason with
      | error _ => exact ⟨nofun, nofun⟩
      | fault kind' => exact ⟨fun h => by cases h; rfl, fun h => by cases h; rfl⟩

theorem mapError_eq_ok {ε δ α : Type} {result : Except ε α} {f : ε → δ} {value : α} :
    result.mapError f = .ok value ↔ result = .ok value := by
  cases result with
  | ok _ => exact ⟨fun h => by cases h; rfl, fun h => by cases h; rfl⟩
  | error _ => exact ⟨nofun, nofun⟩

theorem mapError_ne_fault {ε δ α : Type} {result : Except ε α} {f : ε → δ} {kind : Fault} :
    result.mapError (fun e => Halt.error (f e)) ≠ .error (.fault kind) := by
  cases result with
  | ok _ | error _ => nofun

/-- Sequences with one first step agree when they go on alike from what it gives. -/
theorem bind_congr_of_ok {ε α β : Type} {first : Except ε α} {next next' : α → Except ε β}
    (h : ∀ a, first = .ok a → next a = next' a) : (first >>= next) = (first >>= next') := by
  cases first with
  | ok a => exact h a rfl
  | error e => rfl

namespace Run

variable {ω ε δ α β : Type}

@[ext]
theorem ext {first second : Run ω ε α} (hevents : first.events = second.events)
    (houtcome : first.outcome = second.outcome) : first = second := by
  cases first
  cases second
  cases hevents
  cases houtcome
  rfl

theorem andThen_done (run : Run ω ε α) : andThen run done = run := by
  unfold andThen
  cases h : run.outcome with
  | ok a => exact ext (List.append_nil _) h.symm
  | error reason => exact ext rfl h.symm

theorem andThen_assoc {γ : Type} (run : Run ω ε α) (next : α → Run ω ε β)
    (last : β → Run ω ε γ) :
    andThen (andThen run next) last = andThen run fun a => andThen (next a) last := by
  unfold andThen
  cases run.outcome with
  | error reason => rfl
  | ok a =>
      dsimp only
      cases (next a).outcome with
      | error reason => rfl
      | ok b => exact ext (List.append_assoc _ _ _) rfl

instance : LawfulMonad (Run ω ε) :=
  LawfulMonad.mk' _ andThen_done (fun _ _ => rfl) andThen_assoc

@[simp] theorem outcome_pure (a : α) : (pure a : Run ω ε α).outcome = .ok a := rfl

@[simp] theorem outcome_bind (first : Run ω ε α) (next : α → Run ω ε β) :
    (first >>= next).outcome = first.outcome >>= fun a => (next a).outcome := by
  change (andThen first next).outcome = _
  unfold andThen
  cases first.outcome with
  | ok a => rfl
  | error reason => rfl

@[simp] theorem outcome_detail (message : String) :
    (detail message : Run ω ε Unit).outcome = .ok () := rfl

@[simp] theorem outcome_warn (warning : ω) : (warn warning : Run ω ε Unit).outcome = .ok () := rfl

@[simp] theorem outcome_stop (reason : Halt ε) : (stop reason : Run ω ε α).outcome = .error reason :=
  rfl

@[simp] theorem outcome_lift (result : Except (Halt ε) α) :
    (liftM result : Run ω ε α).outcome = result := rfl

theorem outcome_liftM_eq_ok {result : Except Fault α} {value : α} :
    (liftM result : Run ω ε α).outcome = .ok value ↔ result = .ok value := by
  cases result with
  | ok found => exact ⟨fun h => by cases h; rfl, fun h => by cases h; rfl⟩
  | error kind => exact ⟨nofun, nofun⟩

theorem lift_ok (a : α) : (liftM (.ok a : Except (Halt ε) α) : Run ω ε α) = pure a := rfl

@[simp] theorem outcome_mapError (f : ε → δ) (run : Run ω ε α) :
    (run.mapError f).outcome = run.outcome.mapError (Halt.map f) := by
  unfold mapError
  cases run.outcome with
  | ok a => rfl
  | error reason => rfl

/-- A sequence of runs succeeds when both do. -/
theorem bind_eq_ok {first : Run ω ε α} {next : α → Run ω ε β} {b : β} :
    (first >>= next).outcome = .ok b ↔
      ∃ a, first.outcome = .ok a ∧ (next a).outcome = .ok b := by
  rw [outcome_bind, Transclude.bind_eq_ok]

/-- Runs with one first step agree when they go on alike from what it gives. -/
theorem bind_congr_of_ok {first : Run ω ε α} {next next' : α → Run ω ε β}
    (h : ∀ a, first.outcome = .ok a → next a = next' a) : (first >>= next) = (first >>= next') := by
  change andThen first next = andThen first next'
  unfold andThen
  cases houtcome : first.outcome with
  | ok a => simp only [h a houtcome]
  | error reason => rfl

/-! ## Quiet runs -/

/-- The run that writes down its warnings and nothing else. -/
def quiet (run : Run ω ε α) : Run ω ε α := ⟨run.warnings.map .warning, run.outcome⟩

@[simp] theorem outcome_quiet (run : Run ω ε α) : run.quiet.outcome = run.outcome := rfl

@[simp] theorem warnings_quiet (run : Run ω ε α) : run.quiet.warnings = run.warnings := by
  unfold quiet warnings
  rw [List.filterMap_map]
  exact List.filterMap_some

/-- Quiet runs are told apart by what a caller gets from them. -/
theorem quiet_eq_iff {first second : Run ω ε α} :
    first.quiet = second.quiet ↔
      first.outcome = second.outcome ∧ first.warnings = second.warnings := by
  constructor
  · intro h
    rw [← outcome_quiet first, ← warnings_quiet first, h]
    exact ⟨outcome_quiet second, warnings_quiet second⟩
  · rintro ⟨houtcome, hwarnings⟩
    rw [quiet, quiet, houtcome, hwarnings]

@[simp] theorem quiet_pure (a : α) : (pure a : Run ω ε α).quiet = pure a := rfl

@[simp] theorem quiet_lift (result : Except (Halt ε) α) :
    (liftM result : Run ω ε α).quiet = liftM result := rfl

@[simp] theorem quiet_detail (message : String) :
    (detail message : Run ω ε Unit).quiet = pure () := rfl

@[simp] theorem quiet_bind (first : Run ω ε α) (next : α → Run ω ε β) :
    (first >>= next).quiet = first.quiet >>= fun a => (next a).quiet := by
  change (andThen first next).quiet = andThen first.quiet fun a => (next a).quiet
  unfold andThen quiet warnings
  cases first.outcome with
  | error reason => rfl
  | ok a => exact ext (by simp) rfl

@[simp] theorem quiet_map (f : α → β) (run : Run ω ε α) : (f <$> run).quiet = f <$> run.quiet := by
  rw [← bind_pure_comp, quiet_bind, ← bind_pure_comp]
  rfl

@[simp] theorem quiet_mapError (f : ε → δ) (run : Run ω ε α) :
    (run.mapError f).quiet = run.quiet.mapError f := rfl

/-- A step that changes nothing of what a run can give may be left out. -/
theorem bind_eq_self {run : Run ω ε α} {next : α → Run ω ε α}
    (h : ∀ a, run.outcome = .ok a → next a = pure a) : run >>= next = run := by
  rw [bind_congr_of_ok h, bind_pure]

end Run

end Transclude
