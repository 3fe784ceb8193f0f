import Transclude.Value.Coerce
import Transclude.Value.Text

/-! # Equality of values

Strict equality holds between values of one kind with the same content; lists
and mappings are equal only to themselves, that is by identity. Inside a tuple
they count by their content. Loose equality first brings the two sides to a
common kind: `null` and `undefined` are equal, a list or mapping counts by its
text, and values of different kinds count as numbers. -/

namespace Transclude

/-- Whether all keys of a list are members of another one. -/
def Key.areAmong (keys members : List Key) : Bool :=
  keys.all fun key => members.any fun member => member.same key

namespace Value

section

variable {ι : Type}

mutual

/-- Equality of content. -/
def sameContent : Value ι → Value ι → Bool
  | .scalar a, .scalar b => a.sameKey b
  | .tuple as, .tuple bs => sameItems as bs
  | .set as, .set bs => as.length == bs.length && Key.areAmong as bs
  | .list _ as, .list _ bs => sameItems as bs
  | .map _ as, .map _ bs => as.length == bs.length && areEntriesOf bs as
  | _, _ => false

/-- Equality of the content of items. -/
def sameItems : List (Value ι) → List (Value ι) → Bool
  | [], [] => true
  | a :: as, b :: bs => sameContent a b && sameItems as bs
  | _, _ => false

/-- Whether entries are all found in others with the same content. -/
def areEntriesOf (others : Entries ι) : Entries ι → Bool
  | [] => true
  | (key, value) :: rest =>
    (match others.get? key with
      | some other => sameContent value other
      | none => false) && areEntriesOf others rest

end

end

variable {ι : Type} [DecidableEq ι]

/-- Strict equality. -/
def strictEquals : Value ι → Value ι → Bool
  | .number m, .number n => m.equals n
  | .scalar (.moment a), .scalar (.moment b) => a.same b
  | .scalar a, .scalar b => a == b
  | .tuple as, .tuple bs => sameItems as bs
  | .set as, .set bs => sameContent (.set as : Value ι) (.set bs)
  | .list a _, .list b _ => a == b
  | .map a _, .map b _ => a == b
  | _, _ => false

/-- Whether the value is `null` or `undefined`. -/
def isNullish : Value ι → Bool
  | .null | .undefined => true
  | _ => false

/-- Whether the value is a list or a mapping. -/
def isContainer : Value ι → Bool
  | .list _ _ | .map _ _ => true
  | _ => false

/-- Loose equality of values that are neither `null` nor `undefined` nor containers. -/
def looseEqualsPlain : Value ι → Value ι → Bool
  | .str s, .str t => s == t
  | a, b => a.toNumber.equals b.toNumber

/-- Loose equality. -/
def looseEquals (a b : Value ι) : Except Fault Bool :=
  if a.isNullish || b.isNullish then .ok (a.isNullish && b.isNullish)
  else match a.isContainer, b.isContainer with
    | true, true => .ok (strictEquals a b)
    | true, false => do return looseEqualsPlain (.str (← a.toShownText)) b
    | false, true => do return looseEqualsPlain (.str (← b.toShownText)) a
    | false, false => .ok (looseEqualsPlain a b)

end Value

end Transclude
