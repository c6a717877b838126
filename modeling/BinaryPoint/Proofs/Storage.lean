import BinaryPoint.Proofs.Outcome
import BinaryPoint.Storage
import Mathlib.Data.Int.Notation

/-! # Reading after writing

What was put at an index of a store is read at every index that means the same place, and
everywhere else is what was there before. In a row two indexes may mean one place, since those
below zero count from the end.

* `Store.SamePlace`: two indexes that mean one place;
* `Store.read_of_write`, `Store.read_of_write_of_not`: what is read there, and elsewhere;
* `Store.exists_write_plain_iff`: where an untyped operand may be put.
-/

namespace BinaryPoint

/-- A position that an index means is in the row. -/
theorem lt_of_slot? {length k : ℕ} {index : ℤ} (h : slot? length index = some k) :
    k < length := by
  simp only [slot?] at h
  generalize (if index < 0 then index + length else index) = position at h
  split at h
  · next hin =>
    simp only [Bool.and_eq_true, decide_eq_true_eq] at hin
    cases h
    omega
  · cases h

namespace Store

/-- Two indexes that mean the same place of a store, if they mean one at all. -/
def SamePlace (s : Store) (i j : ℤ) : Prop :=
  match s with
  | sequence items | slots _ _ _ items => slot? items.length i = slot? items.length j
  | mapping _ => i = j

/-- An index at which an untyped operand may be put: one of the row, or any key. -/
def TakesPlain (s : Store) (i : ℤ) : Prop :=
  match s with
  | sequence items => (slot? items.length i).isSome
  | mapping _ => True
  | slots .. => False

variable {s s' : Store} {items items' : List Operand} {entries : List (ℤ × Operand)} {i j : ℤ}
  {o : Operand}

/-! ## Rows -/

theorem writeItem_eq_ok_iff :
    writeItem items i o = .ok items' ↔ ∃ k, slot? items.length i = some k ∧ items' = items.set k o := by
  unfold writeItem
  split
  · next k hk => simp [hk, eq_comm]
  · next hnone => simp [hnone]

theorem readItem_writeItem (h : writeItem items i o = .ok items')
    (hij : slot? items.length i = slot? items.length j) : readItem items' j = .ok o := by
  obtain ⟨k, hk, rfl⟩ := writeItem_eq_ok_iff.mp h
  have hread : (slot? (items.set k o).length j).bind ((items.set k o)[·]?) = some o := by
    rw [List.length_set, ← hij, hk, Option.bind_some, List.getElem?_set_self (lt_of_slot? hk)]
  rw [readItem, hread]

theorem readItem_writeItem_of_ne (h : writeItem items i o = .ok items')
    (hij : slot? items.length i ≠ slot? items.length j) :
    readItem items' j = readItem items j := by
  obtain ⟨k, hk, rfl⟩ := writeItem_eq_ok_iff.mp h
  have hread : (slot? (items.set k o).length j).bind ((items.set k o)[·]?) =
      (slot? items.length j).bind (items[·]?) := by
    rw [List.length_set]
    cases hj : slot? items.length j with
    | none => rfl
    | some l =>
      have hkl : k ≠ l := by
        rintro rfl
        exact hij (hk.trans hj.symm)
      exact List.getElem?_set_ne hkl
  rw [readItem, readItem, hread]

/-! ## Mappings -/

theorem find?_writeEntry_self (key : ℤ) (o : Operand) (entries : List (ℤ × Operand)) :
    (writeEntry key o entries).find? (·.1 = key) = some (key, o) := by
  induction entries with
  | nil => simp [writeEntry]
  | cons e es ih =>
    rw [writeEntry]
    by_cases he : e.1 = key
    · simp [he]
    · rw [if_neg he, List.find?_cons_of_neg (by simpa using he), ih]

theorem find?_writeEntry_of_ne {key : ℤ} (h : key ≠ j) (o : Operand)
    (entries : List (ℤ × Operand)) :
    (writeEntry key o entries).find? (·.1 = j) = entries.find? (·.1 = j) := by
  induction entries with
  | nil => simp [writeEntry, h]
  | cons e es ih =>
    rw [writeEntry]
    by_cases he : e.1 = key
    · simp [he, h]
    · rw [if_neg he, List.find?_cons, List.find?_cons, ih]

/-! ## Stores -/

/-- A write to the slots of a constant is one of a value of its format to the row of them. -/
theorem write_slots_eq_ok_iff {name : String} {format : Format} {own : List Operand} :
    (slots name format own items).write i o = .ok s' ↔
      (∃ v, o.typed = .ok v ∧ v.format = format) ∧
        ∃ items', writeItem items i o = .ok items' ∧ s' = slots name format own items' := by
  rw [write, bind_eq_ok]
  constructor
  · -- the value was looked at before the row was
    rintro ⟨v, hv, h⟩
    dsimp only at h
    split at h
    · exact absurd h (refuse_ne_ok _ _)
    · next hformat =>
      obtain ⟨items', hwrite, h⟩ := bind_eq_ok.mp h
      cases h
      exact ⟨⟨v, hv, not_not.mp hformat⟩, items', hwrite, rfl⟩
  · rintro ⟨⟨v, hv, hformat⟩, items', hwrite, rfl⟩
    refine ⟨v, hv, ?_⟩
    rw [if_neg (not_not.mpr hformat), hwrite]
    rfl

/-- What was written is read wherever the place is meant. -/
theorem read_of_write (h : s.write i o = .ok s') (hij : s.SamePlace i j) :
    s'.read j = .ok o := by
  cases s with
  | sequence items =>
    obtain ⟨items', hwrite, rfl⟩ := map_eq_ok.mp h
    exact readItem_writeItem hwrite hij
  | mapping entries =>
    obtain rfl : i = j := hij
    cases h
    rw [read, find?_writeEntry_self]
  | slots name format own items =>
    obtain ⟨-, items', hwrite, rfl⟩ := write_slots_eq_ok_iff.mp h
    exact readItem_writeItem hwrite hij

/-- Elsewhere is read what was read before. -/
theorem read_of_write_of_not (h : s.write i o = .ok s') (hij : ¬ s.SamePlace i j) :
    s'.read j = s.read j := by
  cases s with
  | sequence items =>
    obtain ⟨items', hwrite, rfl⟩ := map_eq_ok.mp h
    exact readItem_writeItem_of_ne hwrite hij
  | mapping entries =>
    cases h
    rw [read, read, find?_writeEntry_of_ne hij]
  | slots name format own items =>
    obtain ⟨-, items', hwrite, rfl⟩ := write_slots_eq_ok_iff.mp h
    exact readItem_writeItem_of_ne hwrite hij

/-- An untyped operand is put where the store takes one. -/
theorem exists_write_plain_iff (v : Datum) (serial : ℕ) :
    (∃ s', s.write i (.plain v serial) = .ok s') ↔ s.TakesPlain i := by
  cases s with
  | sequence items =>
    simp only [write, map_eq_ok, writeItem_eq_ok_iff, TakesPlain, Option.isSome_iff_exists]
    constructor
    · rintro ⟨s', items', ⟨k, hk, -⟩, -⟩
      exact ⟨k, hk⟩
    · rintro ⟨k, hk⟩
      exact ⟨_, _, ⟨k, hk, rfl⟩, rfl⟩
  | mapping entries => exact iff_of_true ⟨_, rfl⟩ trivial
  | slots name format own items =>
    -- slots take typed values only
    refine iff_of_false ?_ not_false
    rintro ⟨s', hs'⟩
    obtain ⟨⟨v', hv', -⟩, -⟩ := write_slots_eq_ok_iff.mp hs'
    exact absurd hv' (refuse_ne_ok _ _)

end Store

end BinaryPoint
