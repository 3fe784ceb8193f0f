import Transclude.Value.Basic

/-! # Deep merging of data

Merging lays one mapping over another. Where both have a mapping at a key the
two are merged in turn; otherwise the value laid over wins. Keys keep the order
of the lower mapping, and new keys follow in the order of the upper one. The
result is a copy, made of one copy of the lower mapping and one of each value
laid over it: parts are the same in it only if they are in one of these. -/

namespace Transclude

mutual

/-- A value laid over what stands at its key, if anything. -/
def Value.over (current : Option Datum) : Datum → Datum
  | .scalar s => .scalar s
  | .tuple items => .tuple items
  | .set members => .set members
  | .list mark items => .list mark items
  | .map mark entries =>
    match current with
    | some (.map _ below) =>
      .map (.ofPlace []) (Data.mergeFrom 1 (Value.mapEntryIdentities (Mark.copied 0) below) entries)
    | _ => .map mark entries

/-- The mapping with entries laid over it, whose copies are numbered from a position on. -/
def Data.mergeFrom (position : Nat) (base : Data) : Data → Data
  | [] => base
  | (key, value) :: rest =>
    let laid := (Value.over (Entries.get? base key) value).copied position
    Data.mergeFrom (position + 1) (Entries.insert base key laid) rest

end

/-- The mapping with another one laid over it. -/
def Data.merge (base override : Data) : Data :=
  Data.mergeFrom 1 (Value.mapEntryIdentities (Mark.copied 0) base) override

/-- The mapping with several laid over it in turn; absent ones do not count. -/
def Data.derive (base : Data) (overrides : List (Option Data)) : Data :=
  overrides.foldl (fun data override => data.merge (override.getD [])) base

end Transclude
