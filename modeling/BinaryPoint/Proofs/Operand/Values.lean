import BinaryPoint.Operand.Operators
import BinaryPoint.Proofs.Range
import BinaryPoint.Proofs.Sorted
import BinaryPoint.Storage

/-! # The values in operands

An operator makes a value with the type of one of its operands, or takes over operands as they
are. So whatever holds of the types of all values that go in holds of those that come out, and
a store gives back what was put into it.

* `Operand.values`: all values in an operand;
* `Operand.Outcome.Typed.add` and the other operators: what they make of them;
* `Store.mem_write`: what is in a store after an operand was put into it.
-/

namespace BinaryPoint

/-! ## Arithmetic keeps the type -/

namespace Fixed

variable {a b v : Fixed}

theorem type_of_add (h : a.add b = .ok v) : v.type = a.type := by
  obtain ⟨n, -, h⟩ := bind_eq_ok.mp h
  exact (ofRaw_eq_ok_iff.mp h).1

theorem type_of_sub (h : a.sub b = .ok v) : v.type = a.type := by
  obtain ⟨n, -, h⟩ := bind_eq_ok.mp h
  exact (ofRaw_eq_ok_iff.mp h).1

theorem type_of_mul (h : a.mul b = .ok v) : v.type = a.type := by
  obtain ⟨n, -, h⟩ := bind_eq_ok.mp h
  exact (ofRaw_eq_ok_iff.mp h).1

theorem type_of_neg (h : a.neg = .ok v) : v.type = a.type := (ofRaw_eq_ok_iff.mp h).1

theorem type_of_abs (h : a.abs = .ok v) : v.type = a.type := by
  rw [abs] at h
  split at h
  · cases h
    rfl
  · exact type_of_neg h

end Fixed

/-! ## Operands -/

namespace Operand

mutual
/-- The values in an operand: those in a row are in its items. -/
def values : Operand → List Fixed
  | fixed v _ => [v]
  | plain .. => []
  | row items _ => valuesOf items

/-- The values in all items of a row. -/
def valuesOf : List Operand → List Fixed
  | [] => []
  | o :: os => values o ++ valuesOf os
end

theorem valuesOf_eq (os : List Operand) : valuesOf os = os.flatMap values := by
  induction os with
  | nil => rfl
  | cons o os ih => rw [valuesOf, ih, List.flatMap_cons]

/-- All values in an operand have types of some kind. -/
def Typed (p : ValueType → Prop) (o : Operand) : Prop := ∀ v ∈ o.values, p v.type

variable {p : ValueType → Prop}

@[simp] theorem typed_fixed {v : Fixed} {serial : ℕ} : (fixed v serial).Typed p ↔ p v.type := by
  simp [Typed, values]

@[simp] theorem typed_plain {v : Datum} {serial : ℕ} : (plain v serial).Typed p := by
  simp [Typed, values]

@[simp] theorem typed_row {items : List Operand} {serial : ℕ} :
    (row items serial).Typed p ↔ ∀ o ∈ items, o.Typed p := by
  simp only [Typed, values, valuesOf_eq, List.mem_flatMap]
  exact ⟨fun h o ho v hv => h v ⟨o, ho, hv⟩, fun h v ⟨o, ho, hv⟩ => h o ho v hv⟩

theorem Typed.mono {q : ValueType → Prop} {o : Operand} (h : o.Typed p) (hpq : ∀ t, p t → q t) :
    o.Typed q := fun v hv => hpq v.type (h v hv)

/-! ## Operators -/

/-- The same of what an operator comes to. -/
def Outcome.Typed (p : ValueType → Prop) : Outcome → Prop
  | .fixed v => p v.type
  | .plain _ => True
  | .row items => ∀ o ∈ items, o.Typed p
  | .same o => o.Typed p

namespace Outcome

variable {a b : Operand} {r : Outcome}

/-- An operation on two values that keeps the type of the first. -/
theorem Typed.of_fixed {op : Fixed → Fixed → Except Fault Fixed} {v w : Fixed}
    (hop : ∀ u, op v w = .ok u → u.type = v.type) (hv : p v.type)
    (h : (op v w).map Outcome.fixed = .ok r) : r.Typed p := by
  obtain ⟨u, hu, rfl⟩ := map_eq_ok.mp h
  show p u.type
  rwa [hop u hu]

theorem Typed.of_plain {x : Except Fault Datum} (h : x.map Outcome.plain = .ok r) :
    r.Typed p := by
  obtain ⟨u, -, rfl⟩ := map_eq_ok.mp h
  trivial

theorem Typed.add (ha : a.Typed p) (hb : b.Typed p) (h : a.add b = .ok r) : r.Typed p := by
  unfold Operand.add at h
  split at h
  · exact .of_fixed (fun _ => Fixed.type_of_add) (typed_fixed.mp ha) h
  · exact .of_plain h
  · cases h
    split
    · exact hb
    · split
      · exact ha
      · exact List.forall_mem_append.mpr ⟨typed_row.mp ha, typed_row.mp hb⟩
  all_goals exact absurd h (refuse_ne_ok _ _)

theorem Typed.sub (ha : a.Typed p) (h : a.sub b = .ok r) : r.Typed p := by
  unfold Operand.sub at h
  split at h
  · exact .of_fixed (fun _ => Fixed.type_of_sub) (typed_fixed.mp ha) h
  · exact .of_plain h
  · exact absurd h (refuse_ne_ok _ _)

/-- A repeated row has no other items than the row. -/
theorem Typed.repeatRow {items : List Operand} {serial : ℕ} {count : Operand}
    (hitems : ∀ o ∈ items, o.Typed p) (h : Operand.repeatRow items serial count = .ok r) :
    r.Typed p := by
  unfold Operand.repeatRow at h
  split at h
  · split at h
    · next n hn =>
      cases h
      split
      · exact typed_row.mpr hitems
      · intro o ho
        obtain ⟨row, hrow, ho⟩ := List.mem_flatten.mp ho
        exact hitems o (List.eq_of_mem_replicate hrow ▸ ho)
    · exact absurd h (refuse_ne_ok _ _)
  · exact absurd h (refuse_ne_ok _ _)

theorem Typed.mul (ha : a.Typed p) (hb : b.Typed p) (h : a.mul b = .ok r) : r.Typed p := by
  unfold Operand.mul at h
  split at h
  · exact .of_fixed (fun _ => Fixed.type_of_mul) (typed_fixed.mp ha) h
  · exact .of_plain h
  · exact .repeatRow (typed_row.mp ha) h
  · exact .repeatRow (typed_row.mp hb) h
  · exact .repeatRow (typed_row.mp hb) h
  · split at h
    · exact absurd h (refuse_ne_ok _ _)
    · split at h
      · exact absurd h (refuse_ne_ok _ _)
      · exact absurd h (refuse_ne_ok _ _)

end Outcome

/-- Sorting changes the order only. -/
theorem mem_of_sort {os sorted : List Operand} (h : sort os = .ok sorted) {o : Operand}
    (ho : o ∈ sorted) : o ∈ os :=
  (Sorted.sortBy_perm h).mem_iff.mp ho

end Operand

/-! ## Stores -/

namespace Store

/-- The operands in a store; a constant has its own besides those in its slots. -/
def operands : Store → List Operand
  | sequence items => items
  | mapping entries => entries.map (·.2)
  | slots _ _ own items => own ++ items

theorem mem_of_readItem {items : List Operand} {index : ℤ} {o : Operand}
    (h : readItem items index = .ok o) : o ∈ items := by
  unfold readItem at h
  split at h
  · next o' hread =>
    cases h
    obtain ⟨i, -, hi⟩ := Option.bind_eq_some_iff.mp hread
    exact List.mem_of_getElem? hi
  · exact absurd h (refuse_ne_ok _ _)

/-- What is read from a store is in it. -/
theorem mem_of_read {s : Store} {index : ℤ} {o : Operand} (h : s.read index = .ok o) :
    o ∈ s.operands := by
  cases s with
  | sequence items => exact mem_of_readItem h
  | slots name format own items => exact List.mem_append_right own (mem_of_readItem h)
  | mapping entries =>
    rw [read] at h
    split at h
    · next e hfind =>
      cases h
      exact List.mem_map_of_mem (List.mem_of_find?_eq_some hfind)
    · exact absurd h (refuse_ne_ok _ _)

theorem mem_of_writeItem {items items' : List Operand} {index : ℤ} {o o' : Operand}
    (h : writeItem items index o = .ok items') (ho' : o' ∈ items') : o' = o ∨ o' ∈ items := by
  unfold writeItem at h
  split at h
  · cases h
    exact (List.mem_or_eq_of_mem_set ho').symm
  · exact absurd h (refuse_ne_ok _ _)

theorem mem_of_writeEntry {key : ℤ} {o o' : Operand} {entries : List (ℤ × Operand)}
    (h : o' ∈ (writeEntry key o entries).map (·.2)) : o' = o ∨ o' ∈ entries.map (·.2) := by
  induction entries with
  | nil => exact .inl (List.mem_singleton.mp h)
  | cons e es ih =>
    rw [writeEntry] at h
    split at h
    · rcases List.mem_cons.mp h with rfl | h
      · exact .inl rfl
      · exact .inr (.tail _ h)
    · rcases List.mem_cons.mp h with rfl | h
      · exact .inr (.head _)
      · exact (ih h).imp_right (.tail _)

/-- What is in a store after writing is what was written or was there before. -/
theorem mem_of_write {s s' : Store} {index : ℤ} {o o' : Operand} (h : s.write index o = .ok s')
    (ho' : o' ∈ s'.operands) : o' = o ∨ o' ∈ s.operands := by
  cases s with
  | sequence items =>
    obtain ⟨items', hwrite, rfl⟩ := map_eq_ok.mp h
    exact mem_of_writeItem hwrite ho'
  | mapping entries =>
    cases h
    exact mem_of_writeEntry ho'
  | slots name format own items =>
    obtain ⟨v, -, h⟩ := bind_eq_ok.mp h
    dsimp only at h
    split at h
    · -- slots refuse a value of another format
      exact absurd h (refuse_ne_ok _ _)
    · obtain ⟨items', hwrite, h⟩ := bind_eq_ok.mp h
      cases h
      -- the constant's own values stay
      rcases List.mem_append.mp ho' with hown | hitem
      · exact .inr (List.mem_append_left _ hown)
      · exact (mem_of_writeItem hwrite hitem).imp_right (List.mem_append_right _)

theorem mem_of_foldl_writeEntry {o : Operand} {new old : List (ℤ × Operand)}
    (h : o ∈ (new.foldl (fun es e => writeEntry e.1 e.2 es) old).map (·.2)) :
    o ∈ new.map (·.2) ∨ o ∈ old.map (·.2) := by
  induction new generalizing old with
  | nil => exact .inr h
  | cons e new ih =>
    rcases ih h with h | h
    · exact .inl (.tail _ h)
    · rcases mem_of_writeEntry h with rfl | h
      · exact .inl (.head _)
      · exact .inr h

/-- A mapping has the operands of its entries. -/
theorem mem_of_ofEntries {o : Operand} {entries : List (ℤ × Operand)}
    (h : o ∈ (ofEntries entries).operands) : o ∈ entries.map (·.2) :=
  (mem_of_foldl_writeEntry h).resolve_right (List.not_mem_nil)

/-- What a store shows is in it. -/
theorem mem_of_contents {s : Store} {e : ℤ × Operand} (h : e ∈ s.contents) : e.2 ∈ s.operands := by
  have hrow : ∀ items : List Operand, e ∈ items.zipIdx.map (fun e => ((e.2 : ℤ), e.1)) →
      e.2 ∈ items := by
    intro items he
    obtain ⟨⟨o, i⟩, hmem, rfl⟩ := List.mem_map.mp he
    exact List.mem_of_getElem? (List.mem_zipIdx_iff_getElem?.mp hmem)
  cases s with
  | sequence items => exact hrow items h
  | mapping entries => exact List.mem_map_of_mem h
  | slots name format own items => exact List.mem_append_left _ (hrow own h)

end Store

end BinaryPoint
