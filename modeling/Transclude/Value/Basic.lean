import Transclude.Number.Basic
import Transclude.Value.Calendar

/-! # Template values

Values are scalars, tuples, sets, lists and mappings. A mapping keeps its entries
in the order of insertion; its keys, like the members of a set, are scalars or
fixed sequences of keys. Lists and mappings carry an identity of a type `ι` of
choice: a literal text has none to give (`ι = Unit`), data has a mark, by which
it is known which of its parts are one and the same, and an expression also tells
apart the lists that it makes itself. -/

namespace Transclude

/-- A value without parts. `undefined` stands for what is absent, `filter` for a text filter known
by its name. -/
inductive Scalar
  | null
  | undefined
  | bool (b : Bool)
  | number (n : Number)
  | str (s : String)
  | bytes (content : List UInt8)
  | filter (name : String)
  | date (d : Date)
  | moment (m : Moment)
deriving DecidableEq, Repr, Inhabited

/-- A key of a mapping. -/
inductive Key
  | scalar (s : Scalar)
  | sequence (items : List Key)
deriving Repr, Inhabited

/-- A value whose lists and mappings have identities in `ι`. -/
inductive Value (ι : Type)
  | scalar (s : Scalar)
  | tuple (items : List (Value ι))
  | set (members : List Key)
  | list (identity : ι) (items : List (Value ι))
  | map (identity : ι) (entries : List (Key × Value ι))
deriving Inhabited

/-- The entries of a mapping. -/
abbrev Entries (ι : Type) := List (Key × Value ι)

/-- A value without identities. -/
abbrev Content := Value Unit

/-- What marks a list or mapping in data. Those with one place are one and the same; the place leads
there from the whole, innermost step first. Messages show a mapping that was made as an ordered one
in another form. -/
structure Mark where
  place : List Nat
  ordered : Bool
deriving DecidableEq, Repr, Inhabited

/-- A value as data. -/
abbrev Datum := Value Mark

/-- The entries of a mapping of data. -/
abbrev Data := Entries Mark

namespace Scalar

/-- The scalar as a number, if it counts as one among keys: truth values do. -/
def keyNumber? : Scalar → Option Number
  | .bool b => some (.int (if b then 1 else 0))
  | .number n => some n
  | _ => none

/-- Equality of keys: numbers and truth values by their numeric value, moments by their point of
time, all else literally. -/
def sameKey (a b : Scalar) : Bool :=
  match a.keyNumber?, b.keyNumber? with
  | some m, some n => m.sameKey n
  | none, none =>
    match a, b with
    | .moment p, .moment q => p.same q
    | a, b => a == b
  | _, _ => false

/-- The scalar at a place. Only what is not a number keeps it. -/
def placed (place : List Nat) : Scalar → Scalar
  | .number (.float (.notANumber _)) => .number (.float (.notANumber (some place)))
  | s => s

end Scalar

namespace Key

mutual

/-- Equality of keys. -/
def same : Key → Key → Bool
  | .scalar a, .scalar b => a.sameKey b
  | .sequence as, .sequence bs => sameItems as bs
  | _, _ => false

/-- Equality of the items of two keys. -/
def sameItems : List Key → List Key → Bool
  | [], [] => true
  | a :: as, b :: bs => same a b && sameItems as bs
  | _, _ => false

end

/-- A text as a key. -/
@[match_pattern] abbrev str (s : String) : Key := .scalar (.str s)

mutual

/-- The key at a place. -/
def placed (place : List Nat) : Key → Key
  | .scalar s => .scalar (s.placed place)
  | .sequence items => .sequence (placedItems place 0 items)

/-- The items of a key at a place, from a position on. -/
def placedItems (place : List Nat) (position : Nat) : List Key → List Key
  | [] => []
  | item :: rest => placed (position :: place) item :: placedItems place (position + 1) rest

end

end Key

namespace Mark

/-- The mark of a place. -/
def ofPlace (place : List Nat) : Mark := ⟨place, false⟩

/-- The mark in a copy with a number. -/
def copied (copy : Nat) (mark : Mark) : Mark := { mark with place := copy :: mark.place }

end Mark

namespace Value

variable {ι κ : Type}

@[match_pattern] abbrev null : Value ι := .scalar .null
@[match_pattern] abbrev undefined : Value ι := .scalar .undefined
@[match_pattern] abbrev bool (b : Bool) : Value ι := .scalar (.bool b)
@[match_pattern] abbrev number (n : Number) : Value ι := .scalar (.number n)
@[match_pattern] abbrev str (s : String) : Value ι := .scalar (.str s)

mutual

/-- The value that a key is when it is enumerated. -/
def ofKey : Key → Value ι
  | .scalar s => .scalar s
  | .sequence items => .tuple (ofKeys items)

/-- The values that keys are. -/
def ofKeys : List Key → List (Value ι)
  | [] => []
  | key :: rest => ofKey key :: ofKeys rest

end

mutual

/-- The key that a value is; absent for what holds a set, list or mapping. -/
def toKey? : Value ι → Option Key
  | .scalar s => some (.scalar s)
  | .tuple items => (toKeys? items).map .sequence
  | .set _ | .list _ _ | .map _ _ => none

/-- The keys that values are. -/
def toKeys? : List (Value ι) → Option (List Key)
  | [] => some []
  | item :: rest =>
    match toKey? item, toKeys? rest with
    | some key, some keys => some (key :: keys)
    | _, _ => none

end

/-- Whether the value is a mapping. -/
def isMap : Value ι → Bool
  | .map _ _ => true
  | _ => false

mutual

/-- The value with other identities. -/
def mapIdentity (f : ι → κ) : Value ι → Value κ
  | .scalar s => .scalar s
  | .tuple items => .tuple (mapIdentities f items)
  | .set members => .set members
  | .list identity items => .list (f identity) (mapIdentities f items)
  | .map identity entries => .map (f identity) (mapEntryIdentities f entries)

/-- The items with other identities. -/
def mapIdentities (f : ι → κ) : List (Value ι) → List (Value κ)
  | [] => []
  | value :: rest => mapIdentity f value :: mapIdentities f rest

/-- The entries with other identities. -/
def mapEntryIdentities (f : ι → κ) : Entries ι → Entries κ
  | [] => []
  | (key, value) :: rest => (key, mapIdentity f value) :: mapEntryIdentities f rest

end

/-- What a value holds, without identities. -/
def content (value : Value ι) : Content := mapIdentity (fun _ => ()) value

/-- The data in a copy with a number: its parts differ from those of other copies. -/
def copied (copy : Nat) (value : Datum) : Datum := mapIdentity (Mark.copied copy) value

mutual

/-- The value as data of its own, in which no two parts are the same: each gets its place, which is
that of the whole extended by the positions that lead to it. -/
def placed (place : List Nat) : Value ι → Datum
  | .scalar s => .scalar (s.placed place)
  | .tuple items => .tuple (placedItems place 0 items)
  | .set members => .set (Key.placedItems place 0 members)
  | .list _ items => .list (.ofPlace place) (placedItems place 0 items)
  | .map _ entries => .map (.ofPlace place) (placedEntries place 0 entries)

/-- The items from a position on as data. -/
def placedItems (place : List Nat) (position : Nat) : List (Value ι) → List Datum
  | [] => []
  | item :: rest =>
    placed (position :: place) item :: placedItems place (position + 1) rest

/-- The entries from a position on as data. Keys and values take turns. -/
def placedEntries (place : List Nat) (position : Nat) : Entries ι → Data
  | [] => []
  | (key, value) :: rest =>
    (key.placed (position :: place), placed ((position + 1) :: place) value) ::
      placedEntries place (position + 2) rest

end

end Value

namespace Entries

variable {ι : Type}

/-- The value at a key. -/
def get? (entries : Entries ι) (key : Key) : Option (Value ι) :=
  (List.find? (fun entry => entry.1.same key) entries).map (·.2)

/-- Whether the key occurs. -/
def hasKey (entries : Entries ι) (key : Key) : Bool := entries.any fun entry => entry.1.same key

/-- The entries with a value at a key: in its place when the key occurs, at the end otherwise. -/
def insert : Entries ι → Key → Value ι → Entries ι
  | [], key, value => [(key, value)]
  | (k, v) :: rest, key, value =>
    if k.same key then (k, value) :: rest else (k, v) :: insert rest key value

/-- The entries of a sequence of insertions. -/
def ofInsertions (insertions : Entries ι) : Entries ι :=
  insertions.foldl (fun entries entry => entries.insert entry.1 entry.2) []

end Entries

end Transclude
