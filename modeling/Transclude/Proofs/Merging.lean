import Mathlib
import Transclude.Include.Frame
import Transclude.Proofs.Relabeling

/-! # Merging data at other places

A merge copies what it lays over a mapping, each part under a number of its own. When
the parts laid over come from other places, so do those of the result: what is
below a number moves as what has been copied there, and the numbers stay. -/

namespace Transclude

namespace Relabeling

/-- A value of data with its parts at other places. -/
def datum (r : Relabeling) (value : Datum) : Datum := value.mapIdentity r.mark

/-- Entries of data with their parts at other places. -/
def data (r : Relabeling) (entries : Data) : Data := Value.mapEntryIdentities r.mark entries

theorem data_cons (r : Relabeling) (key : Key) (value : Datum) (rest : Data) :
    r.data ((key, value) :: rest) = (key, r.datum value) :: r.data rest := rfl

theorem datum_map (r : Relabeling) (mark : Mark) (entries : Data) :
    r.datum (.map mark entries) = .map (r.mark mark) (r.data entries) := rfl

theorem get?_data (r : Relabeling) (entries : Data) (key : Key) :
    Entries.get? (r.data entries) key = (Entries.get? entries key).map r.datum :=
  Entries.get?_mapEntryIdentities r.mark entries key

theorem insert_data (r : Relabeling) (entries : Data) (key : Key) (value : Datum) :
    Entries.insert (r.data entries) key (r.datum value) =
      r.data (Entries.insert entries key value) :=
  Entries.insert_mapEntryIdentities r.mark entries key value

/-- The places in a copy with a number. -/
def inCopy (copy : Nat) : Relabeling := ⟨(copy :: ·), List.cons_injective⟩

/-- All places as they are. -/
def same : Relabeling := ⟨id, Function.injective_id⟩

/-- The places in each copy as they are moved there. -/
def layered (copies : Nat → Relabeling) : Relabeling where
  place
    | [] => []
    | n :: path => n :: (copies n).place path
  injective := by
    rintro (_ | ⟨n, path⟩) (_ | ⟨m, other⟩) heq
    · rfl
    · cases heq
    · cases heq
    · obtain ⟨rfl, hrest⟩ := List.cons.inj heq
      exact congrArg (n :: ·) ((copies n).injective hrest)

theorem layered_mark_root (copies : Nat → Relabeling) :
    (layered copies).mark (.ofPlace []) = .ofPlace [] := rfl

theorem layered_copied (copies : Nat → Relabeling) (n : Nat) (value : Datum) :
    (layered copies).datum (value.copied n) = ((copies n).datum value).copied n := by
  unfold Value.copied datum
  rw [Value.mapIdentity_mapIdentity, Value.mapIdentity_mapIdentity]
  rfl

theorem layered_copiedEntries (copies : Nat → Relabeling) (n : Nat) (entries : Data) :
    (layered copies).data (Value.mapEntryIdentities (Mark.copied n) entries) =
      Value.mapEntryIdentities (Mark.copied n) ((copies n).data entries) := by
  unfold data
  rw [Value.mapEntryIdentities_mapEntryIdentities, Value.mapEntryIdentities_mapEntryIdentities]
  rfl

theorem layered_same_data (entries : Data) : (layered fun _ => same).data entries = entries := by
  have hmark : (layered fun _ => same).mark = id := by
    funext ⟨place, ordered⟩
    cases place <;> rfl
  unfold data
  rw [hmark, Value.mapEntryIdentities_id]

/-- The parts of the entries lie in copies with numbers below a position. -/
def Settled (position : Nat) (entries : Data) : Prop :=
  ∀ copies copies' : Nat → Relabeling, (∀ n < position, copies n = copies' n) →
    (layered copies).data entries = (layered copies').data entries

theorem settled_copied (entries : Data) :
    Settled 1 (Value.mapEntryIdentities (Mark.copied 0) entries) := by
  intro copies copies' hagree
  rw [layered_copiedEntries, layered_copiedEntries, hagree 0 Nat.one_pos]

theorem Settled.insert {position : Nat} {entries : Data} (h : Settled position entries) (key : Key)
    (value : Datum) :
    Settled (position + 1) (Entries.insert entries key (value.copied position)) := by
  intro copies copies' hagree
  have hbelow := h copies copies' fun n hn => hagree n (Nat.lt_succ_of_lt hn)
  rw [← insert_data, ← insert_data, hbelow, layered_copied, layered_copied,
    hagree position (Nat.lt_succ_self position)]

mutual

/-- A value from other places laid over one from other places is what it would be, at other
places. -/
theorem over_datum (below : Relabeling) (current : Option Datum) (r : Relabeling) :
    ∀ value : Datum, ∃ t : Relabeling,
      Value.over (current.map below.datum) (r.datum value) = t.datum (Value.over current value)
  | .scalar _ | .tuple _ | .set _ | .list _ _ => ⟨r, rfl⟩
  | .map mark entries => by
      rcases current with _ | (_ | _ | _ | _ | ⟨other, lower⟩)
      case some.map =>
        obtain ⟨copies, _, hmerge⟩ := mergeFrom_data r entries 1
          (Value.mapEntryIdentities (Mark.copied 0) lower) (fun _ => below) (settled_copied lower)
        rw [layered_copiedEntries] at hmerge
        refine ⟨layered copies, ?_⟩
        simp only [Option.map_some, datum_map, Value.over, layered_mark_root, ← hmerge]
      all_goals exact ⟨r, rfl⟩

theorem mergeFrom_data (r : Relabeling) : ∀ (entries : Data) (position : Nat) (base : Data)
    (copies : Nat → Relabeling), Settled position base → ∃ copies' : Nat → Relabeling,
      (∀ n < position, copies' n = copies n) ∧
        Data.mergeFrom position ((layered copies).data base) (r.data entries) =
          (layered copies').data (Data.mergeFrom position base entries)
  | [], position, base, copies, _ => ⟨copies, fun _ _ => rfl, rfl⟩
  | (key, value) :: rest, position, base, copies, hsettled => by
      obtain ⟨t, hover⟩ := over_datum (layered copies) (Entries.get? base key) r value
      -- the number of the new copy is the position, which no part below has
      have hbelow : ∀ n < position, Function.update copies position t n = copies n :=
        fun n hn => Function.update_of_ne (Nat.ne_of_lt hn) t copies
      have hbase := hsettled _ _ hbelow
      have hlaid : (layered (Function.update copies position t)).datum
          ((Value.over (Entries.get? base key) value).copied position) =
            (t.datum (Value.over (Entries.get? base key) value)).copied position := by
        rw [layered_copied, Function.update_self]
      obtain ⟨copies', hagree, hmerge⟩ := mergeFrom_data r rest (position + 1)
        (Entries.insert base key ((Value.over (Entries.get? base key) value).copied position))
        (Function.update copies position t) (hsettled.insert key _)
      refine ⟨copies', fun n hn => ?_, ?_⟩
      · rw [hagree n (Nat.lt_succ_of_lt hn), hbelow n hn]
      · rw [data_cons, Data.mergeFrom, Data.mergeFrom, ← hmerge, ← insert_data, hlaid, hbase,
          get?_data, hover]

end

/-- The data of a document with a parameter from other places are its data, at other places. -/
theorem exists_dataOf (r : Relabeling) (shared parameter : Data) (text : List Char) :
    ∃ copies : Nat → Relabeling, Frame.dataOf shared (some (r.data parameter)) text =
      (layered copies).data (Frame.dataOf shared (some parameter) text) := by
  obtain ⟨copies, _, hmerge⟩ := mergeFrom_data r parameter 1
    (Value.mapEntryIdentities (Mark.copied 0) shared) (fun _ => same) (settled_copied shared)
  rw [layered_same_data] at hmerge
  refine ⟨copies, ?_⟩
  simp only [Frame.dataOf, Data.derive, List.foldl_cons, List.foldl_nil, Data.merge,
    Option.getD_some, hmerge]
  exact insert_data (layered copies) _ _ (.str (String.ofList text))

end Relabeling

end Transclude
