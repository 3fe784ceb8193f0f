import Mathlib
import Transclude.Proofs.Identities
import Transclude.Proofs.Keys

/-! # Scopes that agree

An expression reads a scope at the names in it and nowhere else. In two scopes that
agree on these names, but for where the parts of values come from, it has the same
value, but for where its parts come from, and it fails alike. -/

namespace Transclude

/-- Origins are moved to other ones: different ones stay different, and those of list literals come
to lie below a place. -/
structure Origin.Moves (f : Origin → Origin) (below : List Nat) : Prop where
  injective : Function.Injective f
  literal : ∀ path, f (.literal path) = .literal (path ++ below)

/-- Two scopes give the same values to names, but for where parts of them come from. -/
def Scope.Agree (f : Origin → Origin) (names : List String) (scope scope' : Scope) : Prop :=
  ∀ name ∈ names, scope'.get? name = (scope.get? name).map (Value.mapIdentity f)

theorem Scope.Agree.mono {f : Origin → Origin} {names more : List String} {scope scope' : Scope}
    (h : Scope.Agree f more scope scope') (hsubset : names ⊆ more) :
    Scope.Agree f names scope scope' :=
  fun name hname => h name (hsubset hname)

theorem liftM_map {ε α β : Type} (g : α → β) (result : Except Fault α) :
    (liftM (g <$> result) : Except (Halt ε) β) = g <$> (liftM result : Except (Halt ε) α) := by
  cases result <;> rfl

namespace Expr

open Value

mutual

/-- The names that an expression reads, also those that only `typeof` does. -/
def names : Expr → List String
  | .literal _ => []
  | .array items => itemNames items
  | .identifier name => [name]
  | .member object _ => names object
  | .index object key => names object ++ names key
  | .unary _ operand => names operand
  | .binary _ left right => names left ++ names right
  | .conditional test consequent alternate => names test ++ (names consequent ++ names alternate)
  | .group inner => names inner

/-- The names that the items of a list read. -/
def itemNames : List Expr → List String
  | [] => []
  | item :: rest => names item ++ itemNames rest

end

/-! ## Operations -/

section

variable (f : Origin → Origin)

theorem contains_mapIdentity (key container : Located) :
    contains (mapIdentity f key) (mapIdentity f container) = contains key container := by
  cases container with
  | map identity entries =>
      simp only [mapIdentity, contains, toText_mapIdentity, Entries.hasKey_mapEntryIdentities]
  | list identity items =>
      simp only [mapIdentity, contains, toNumber_mapIdentity, mapIdentities_eq_map, List.length_map]
  | tuple items =>
      simp only [mapIdentity, contains, toNumber_mapIdentity, mapIdentities_eq_map, List.length_map]
  | scalar s => simp only [mapIdentity, contains, toText_mapIdentity]
  | set members => simp only [mapIdentity, contains, toText_mapIdentity]

theorem sum_mapIdentity (a b : Located) :
    sum (mapIdentity f a) (mapIdentity f b) = mapIdentity f <$> sum a b := by
  have htext :
      (do return Value.str ((← (mapIdentity f a).toShownText) ++
        (← (mapIdentity f b).toShownText))) =
      mapIdentity f <$> (do return .str ((← a.toShownText) ++ (← b.toShownText)) :
        Except Fault Located) := by
    simp [mapIdentity]
  have hnumber :
      (do return Value.number (← (mapIdentity f a).toNumber.add (mapIdentity f b).toNumber)) =
      mapIdentity f <$> (do return .number (← a.toNumber.add b.toNumber) :
        Except Fault Located) := by
    simp [mapIdentity]
  cases a with
  | scalar s =>
      cases b with
      | scalar t => cases s <;> cases t <;> first | exact htext | exact hnumber
      | _ => cases s <;> first | exact htext | exact hnumber
  | _ =>
      cases b with
      | scalar t => cases t <;> first | exact htext | exact hnumber
      | _ => exact hnumber

theorem compareValues_mapIdentity (op : BinaryOp) (a b : Located) :
    compareValues op (mapIdentity f a) (mapIdentity f b) = compareValues op a b := by
  cases a with
  | scalar s =>
      cases b with
      | scalar t => rfl
      | _ => cases s <;> rfl
  | _ => cases b <;> rfl

theorem applyUnary_mapIdentity (op : UnaryOp) (value : Located) :
    applyUnary op (mapIdentity f value) = mapIdentity f (applyUnary op value) := by
  cases op <;> simp [applyUnary, mapIdentity]

theorem readProperty_mapIdentity (object key : Located) :
    readProperty (mapIdentity f object) (mapIdentity f key) =
      mapIdentity f <$> readProperty object key := by
  unfold readProperty
  rw [isNullish_mapIdentity]
  split
  next =>
    simp only [toShownText_mapIdentity, toText_mapIdentity, map_bind]
    rfl
  next =>
    rw [getProperty_mapIdentity]
    simp [liftM_map]

end

variable {f : Origin → Origin} {below : List Nat} {scope scope' : Scope}

theorem applyBinary_mapIdentity (hf : Function.Injective f) (op : BinaryOp) (a b : Located) :
    applyBinary op (mapIdentity f a) (mapIdentity f b) =
      mapIdentity f <$> applyBinary op a b := by
  cases op with
  | or | and =>
      simp only [applyBinary, isTruthy_mapIdentity]
      split <;> rfl
  | strictEqual | strictUnequal =>
      simp only [applyBinary, strictEquals_mapIdentity hf]
      rfl
  | equal | unequal => simp [applyBinary, looseEquals_mapIdentity hf, mapIdentity]
  | less | atMost | greater | atLeast =>
      simp only [applyBinary, compareValues_mapIdentity]
      rfl
  | isIn => simp [applyBinary, contains_mapIdentity, mapIdentity]
  | add => simp [applyBinary, sum_mapIdentity, liftM_map]
  | sub | mul | div | rem => simp [applyBinary, mapIdentity]

/-! ## Values -/

theorem readName_of_agree {name : String} (h : Scope.Agree f [name] scope scope') :
    readName scope' name = mapIdentity f <$> readName scope name := by
  unfold readName
  rw [h name (List.mem_singleton_self name)]
  cases scope.get? name <;> rfl

theorem isUnknownName_of_agree {e : Expr} (h : Scope.Agree f e.names scope scope') :
    isUnknownName scope' e = isUnknownName scope e := by
  cases e with
  | identifier name =>
      have hname := h name (by simp [names])
      simp [isUnknownName, hname]
  | _ => rfl

mutual

/-- The value of an expression depends on nothing but what its names stand for. -/
theorem eval_of_agree (hmoves : Origin.Moves f below) (path : List Nat) :
    ∀ e : Expr, Scope.Agree f e.names scope scope' →
      eval scope' (path ++ below) e = mapIdentity f <$> eval scope path e
  | .literal value, _ => rfl
  | .array items, h => by
      rw [names] at h
      rw [eval, eval, evalItems_of_agree hmoves path 0 items h]
      simp [mapIdentity, mapIdentities_eq_map, hmoves.literal]
  | .identifier name, h => by
      rw [names] at h
      exact readName_of_agree h
  | .member object name, h => by
      rw [names] at h
      have hname := fun object => readProperty_mapIdentity f object (.str name)
      simp only [mapIdentity] at hname
      rw [eval, eval, ← List.cons_append, eval_of_agree hmoves (0 :: path) object h]
      simp [hname]
  | .index object key, h => by
      rw [names] at h
      rw [eval, eval, ← List.cons_append, ← List.cons_append,
        eval_of_agree hmoves (0 :: path) object (h.mono (by simp)),
        eval_of_agree hmoves (1 :: path) key (h.mono (by simp))]
      simp [readProperty_mapIdentity]
  | .unary op operand, h => by
      rw [names] at h
      rw [eval, eval, isUnknownName_of_agree h, ← List.cons_append,
        eval_of_agree hmoves (0 :: path) operand h]
      split
      next => rfl
      next => simp [applyUnary_mapIdentity]
  | .binary op left right, h => by
      rw [names] at h
      rw [eval, eval, ← List.cons_append, ← List.cons_append,
        eval_of_agree hmoves (0 :: path) left (h.mono (by simp)),
        eval_of_agree hmoves (1 :: path) right (h.mono (by simp))]
      simp only [bind_map_left, map_bind, isTruthy_mapIdentity]
      congr 1
      funext a
      split
      next => rfl
      next => simp [applyBinary_mapIdentity hmoves.injective]
  | .conditional test consequent alternate, h => by
      rw [names] at h
      rw [eval, eval, ← List.cons_append, ← List.cons_append, ← List.cons_append,
        eval_of_agree hmoves (0 :: path) test (h.mono (by simp)),
        eval_of_agree hmoves (1 :: path) consequent (h.mono (by simp)),
        eval_of_agree hmoves (2 :: path) alternate (h.mono (by simp))]
      simp only [bind_map_left, map_bind, isTruthy_mapIdentity]
      congr 1
      funext condition
      split <;> rfl
  | .group inner, h => by
      rw [names] at h
      exact eval_of_agree hmoves (0 :: path) inner h

theorem evalItems_of_agree (hmoves : Origin.Moves f below) (path : List Nat) (position : Nat) :
    ∀ items : List Expr, Scope.Agree f (itemNames items) scope scope' →
      evalItems scope' (path ++ below) position items =
        List.map (mapIdentity f) <$> evalItems scope path position items
  | [], _ => rfl
  | item :: rest, h => by
      rw [itemNames] at h
      rw [evalItems, evalItems, ← List.cons_append,
        eval_of_agree hmoves (position :: path) item (h.mono (by simp)),
        evalItems_of_agree hmoves path (position + 1) rest (h.mono (by simp))]
      simp

end

end Expr

/-! ## Other places -/

/-- The origins in an evaluation that is done at a place: what comes from data comes from there. -/
def Origin.behind (place : List Nat) : Origin → Origin
  | .data path => .data path
  | .literal path => .literal (path ++ place)

theorem Origin.moves_behind (place : List Nat) : Origin.Moves (Origin.behind place) place where
  injective := by
    rintro (path | path) (other | other) heq
    · exact heq
    · cases heq
    · cases heq
    · exact congrArg Origin.literal (List.append_cancel_right (Origin.literal.inj heq))
  literal _ := rfl

theorem Scope.agree_ofData (place : List Nat) (names : List String) (data : Data) :
    Scope.Agree (Origin.behind place) names (Scope.ofData data) (Scope.ofData data) := by
  intro name _
  rw [Scope.get?_ofData, Option.map_map]
  congr 1
  funext value
  rw [Function.comp_apply, Value.mapIdentity_mapIdentity]
  rfl

/-- A name that is not read may have any value. -/
theorem Scope.Agree.cons {f : Origin → Origin} {names : List String} {scope scope' : Scope}
    (h : Scope.Agree f names scope scope') {name : String} (hname : name ∉ names)
    (value : Located) : Scope.Agree f names scope ((name, value) :: scope') := by
  intro other hother
  have hne : name ≠ other := fun heq => hname (heq ▸ hother)
  rw [← h other hother, Scope.get?, List.find?_cons_of_neg (by simpa using hne)]
  rfl

/-- An expression has the same value at every place, also when a name is added that it does not
read. -/
theorem Expr.eval_ofData_cons {data : Data} {name : String} {e : Expr} (hname : name ∉ e.names)
    (value : Located) (place : List Nat) :
    eval ((name, value) :: Scope.ofData data) place e =
      Value.mapIdentity (Origin.behind place) <$> eval (Scope.ofData data) [] e :=
  eval_of_agree (Origin.moves_behind place) [] e
    ((Scope.agree_ofData place e.names data).cons hname value)

end Transclude
