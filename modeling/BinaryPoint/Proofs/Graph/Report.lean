import BinaryPoint.Graph.Report
import BinaryPoint.Proofs.Binder.Rounding
import BinaryPoint.Proofs.Graph.Isolation

/-! # When a graph can be written

The table of a graph shows its values as doubles, which can always be written. In JSON their
scaled integers stand beside them, and an integer can have too many digits to be written. The
widths of a format never have: its type has a name, in which they stand.

* `Decl.ensures_writable`: the format of each constant that is built can be written;
* `Graph.exists_table`, `Graph.exists_render_iff`: so the table can, and the JSON text if the
  scaled integers can.
-/

namespace BinaryPoint

open Decimal (Short)

/-! ## JSON -/

namespace JsonValue

mutual
/-- The integers in a value. -/
def ints : JsonValue → List Int
  | null | bool _ | real _ | text _ => []
  | int n => [n]
  | list items => intsOf items
  | object entries => intsOfEntries entries

/-- The integers in the items of a list. -/
def intsOf : List JsonValue → List Int
  | [] => []
  | v :: vs => ints v ++ intsOf vs

/-- The integers in the entries of an object. -/
def intsOfEntries : List (String × JsonValue) → List Int
  | [] => []
  | (_, v) :: es => ints v ++ intsOfEntries es
end

mutual
/-- A value has a text just if its integers have. -/
theorem exists_textAt_iff (depth : Nat) :
    ∀ v : JsonValue, (∃ s, v.textAt depth = .ok s) ↔ ∀ n ∈ v.ints, Short n
  | null | bool _ | real _ | text _ => by simp [textAt, ints]
  | int n => by simpa [textAt, ints] using exists_integerText_iff
  | list items => by
    rw [ints, ← exists_itemsAt_iff (depth + 1) items, textAt]
    simp [bind_eq_ok]
  | object entries => by
    rw [ints, ← exists_entriesAt_iff (depth + 1) entries, textAt]
    simp [bind_eq_ok]

theorem exists_itemsAt_iff (depth : Nat) :
    ∀ vs : List JsonValue, (∃ s, itemsAt depth vs = .ok s) ↔ ∀ n ∈ intsOf vs, Short n
  | [] => by simp [itemsAt, intsOf]
  | v :: vs => by
    rw [intsOf, List.forall_mem_append, ← exists_textAt_iff depth v, ← exists_itemsAt_iff depth vs,
      itemsAt]
    simp [bind_eq_ok]

theorem exists_entriesAt_iff (depth : Nat) :
    ∀ es : List (String × JsonValue),
      (∃ s, entriesAt depth es = .ok s) ↔ ∀ n ∈ intsOfEntries es, Short n
  | [] => by simp [entriesAt, intsOfEntries]
  | (key, v) :: es => by
    rw [intsOfEntries, List.forall_mem_append, ← exists_textAt_iff depth v,
      ← exists_entriesAt_iff depth es, entriesAt]
    simp [bind_eq_ok]
end

end JsonValue

/-! ## Constants that were built -/

namespace Decl

open Binder (Legible)
open Binder.Binding (Ensures)

/-- To round any value to a format takes a type of it. -/
theorem ensures_writable_bindSamples (b : Binder) {d : Decl} {g : Graph}
    {samples : List Binary64} {scalar : Bool} (hsamples : d.samples g = .ok (samples, scalar))
    (hne : samples ≠ []) (f : Format) :
    Ensures Legible (d.bindSamples b g samples f) fun _ => f.Writable := by
  -- there is a first sample, and its type was asked for
  have hany : ∀ {α : Type} {xs : List α} {x : α → Binder.Binding Fixed}, xs ≠ [] →
      (∀ a, Ensures Legible (x a) fun _ => f.Writable) →
      Ensures Legible (xs.mapM x) fun _ => f.Writable := by
    intro α xs x hxs hx
    refine (Ensures.mapM (R := fun _ _ => f.Writable) fun a _ => hx a).mono fun ys hys => ?_
    cases hys with
    | nil => exact absurd rfl hxs
    | cons h _ => exact h
  unfold bindSamples
  split
  · next c hsource _ =>
    rw [samples_of_source? hsource] at hsamples
    cases hsamples
    refine hany (fun hnil => hne (by rw [Constant.reals, hnil]; rfl)) fun v => ?_
    exact (b.ensures_writable f).bind fun _ hf => .of fun _ _ => hf
  · exact hany hne fun x => (b.ensures_writable f).bind fun _ hf => .of fun _ _ => hf

/-- The format of a constant can be written. -/
theorem ensures_writable (config : Config) (b : Binder) (d : Decl) (g : Graph) :
    Ensures Legible (d.build config b g) fun c => c.format.Writable := by
  rw [build]
  refine Ensures.of_bind fun _ _ => Ensures.of_bind ?_
  rintro ⟨samples, scalar⟩ hsamples
  dsimp only
  split
  · exact Ensures.of_bind fun _ h => absurd h (refuse_ne_ok _ _)
  · next hempty =>
    refine Ensures.of_bind ?_
    rintro ⟨f, tolerance⟩ -
    have hne : samples ≠ [] := fun h => hempty (List.isEmpty_iff.mpr h)
    exact (ensures_writable_bindSamples b hsamples hne f).bind fun values hf => .pure hf

end Decl

/-! ## Graphs -/

namespace Graph

variable {g : Graph}

/-- The scaled integers of all constants. -/
def raws (g : Graph) : List Int := g.constants.flatMap fun c => c.values.map (·.raw)

/-- The table can be written. -/
theorem exists_table (h : ∀ c ∈ g.constants, c.format.Writable) : ∃ lines, g.table = .ok lines := by
  obtain ⟨rows, hrows⟩ := exists_mapM (f := Constant.row) fun c hc => by
    obtain ⟨key, hkey⟩ := (h c hc).exists_keyText
    exact ⟨_, by rw [Constant.row, hkey]; rfl⟩
  exact ⟨_, by rw [table, hrows]; rfl⟩

end Graph

theorem JsonValue.intsOf_map_int (ns : List Int) : intsOf (ns.map .int) = ns := by
  induction ns with
  | nil => rfl
  | cons n ns ih => rw [List.map_cons, intsOf, ih, ints, List.singleton_append]

theorem JsonValue.intsOf_map_real (xs : List Binary64) : intsOf (xs.map .real) = [] := by
  induction xs with
  | nil => rfl
  | cons x xs ih => rw [List.map_cons, intsOf, ih, ints, List.nil_append]

/-- The integers that stand for a constant in JSON. -/
theorem Constant.ints_of_toJson {c : Constant} {v : JsonValue} (h : c.toJson = .ok v) :
    v.ints = (c.format.integerBits : Int) :: c.format.fractionalBits :: c.values.map (·.raw) := by
  rw [toJson] at h
  obtain ⟨key, -, h⟩ := bind_eq_ok.mp h
  cases h
  have hraws : c.values.map (fun v => JsonValue.int v.raw) = (c.values.map (·.raw)).map .int := by
    rw [List.map_map]
    rfl
  simp only [JsonValue.ints, JsonValue.intsOfEntries, hraws, JsonValue.intsOf_map_int,
    JsonValue.intsOf_map_real]
  cases c.tolerance <;> simp [JsonValue.ints]

/-- Of the integers that stand for constants only the scaled ones can be too long. -/
theorem Constant.short_intsOf_iff {cs : List Constant} {vs : List JsonValue}
    (hvs : List.Forall₂ (fun c v => c.toJson = .ok v) cs vs) (h : ∀ c ∈ cs, c.format.Writable) :
    (∀ n ∈ JsonValue.intsOf vs, Short n) ↔
      ∀ n ∈ cs.flatMap fun c => c.values.map (·.raw), Short n := by
  induction hvs with
  | nil => exact Iff.rfl
  | cons hv _ ih =>
    -- beside its scaled values a constant has two widths, which are short
    obtain ⟨⟨hinteger, hfractional⟩, hcs⟩ := List.forall_mem_cons.mp h
    rw [JsonValue.intsOf, List.flatMap_cons, List.forall_mem_append, List.forall_mem_append, ih hcs,
      ints_of_toJson hv, List.forall_mem_cons, List.forall_mem_cons]
    exact and_congr_left' ⟨fun h => h.2.2, fun h => ⟨hinteger, hfractional, h⟩⟩

/-- The JSON text can be written just if each scaled integer can. -/
theorem Graph.exists_render_iff {g : Graph} (h : ∀ c ∈ g.constants, c.format.Writable) :
    (∃ v s, g.toJson = .ok v ∧ v.render = .ok s) ↔ ∀ n ∈ g.raws, Short n := by
  obtain ⟨vs, hvs⟩ := exists_mapM (f := Constant.toJson) fun c hc => by
    obtain ⟨key, hkey⟩ := (h c hc).exists_keyText
    exact ⟨_, by rw [Constant.toJson, hkey]; rfl⟩
  have hjson : g.toJson = .ok (.object
      [("program", (g.name.map JsonValue.text).getD .null), ("constants", .list vs)]) := by
    rw [toJson, hvs]
    rfl
  have hname : ((g.name.map JsonValue.text).getD .null).ints = [] := by
    cases g.name <;> simp [JsonValue.ints]
  rw [raws, ← Constant.short_intsOf_iff (mapM_eq_ok.mp hvs) h, hjson]
  simp only [Except.ok.injEq, exists_eq_left', exists_and_left, JsonValue.render]
  rw [JsonValue.exists_textAt_iff]
  simp [JsonValue.ints, JsonValue.intsOfEntries, hname]

end BinaryPoint
