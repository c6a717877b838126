import BinaryPoint.Proofs.Outcome
import BinaryPoint.Yaml.Meaning
import Mathlib.Tactic.Common

/-! # The keys of what is read

A mapping that is read gets its entries one by one, and an entry whose key is there already
gives that a new value. So no mapping in a value that was read has a key twice.

* `Datum.Distinct`: in all mappings of a value the keys differ;
* `Yaml.distinct_read`: a value that was read is so.
-/

namespace BinaryPoint

/-! ## Mappings with different keys -/

namespace Datum

mutual
/-- In each mapping of a value the keys differ. -/
def Distinct : Datum → Prop
  | list items => DistinctItems items
  | map entries => entries.Pairwise (fun a b => a.1.eq b.1 = false) ∧ DistinctEntries entries
  | _ => True

/-- The same for the items of a list. -/
def DistinctItems : List Datum → Prop
  | [] => True
  | v :: vs => Distinct v ∧ DistinctItems vs

/-- The same for the values of a mapping. -/
def DistinctEntries : List (Datum × Datum) → Prop
  | [] => True
  | (_, v) :: es => Distinct v ∧ DistinctEntries es
end

theorem distinctEntries_iff {es : List (Datum × Datum)} :
    DistinctEntries es ↔ ∀ e ∈ es, e.2.Distinct := by
  induction es with
  | nil => simp [DistinctEntries]
  | cons e es ih => rw [DistinctEntries, ih, List.forall_mem_cons]

theorem distinct_map {es : List (Datum × Datum)} :
    (map es).Distinct ↔ es.Pairwise (fun a b => a.1.eq b.1 = false) ∧ ∀ e ∈ es, e.2.Distinct := by
  rw [Distinct, distinctEntries_iff]

/-- A new entry has its own key and value, or takes the place of one of the same key. -/
theorem mem_insert {key value : Datum} {es : List (Datum × Datum)} {e : Datum × Datum}
    (h : e ∈ insert key value es) :
    (e.1 = key ∨ ∃ e' ∈ es, e.1 = e'.1) ∧ (e.2 = value ∨ e ∈ es) := by
  induction es with
  | nil =>
    obtain rfl := List.mem_singleton.mp h
    exact ⟨.inl rfl, .inl rfl⟩
  | cons d es ih =>
    rw [insert] at h
    split at h
    · -- the key is there, and its value is replaced
      rcases List.mem_cons.mp h with rfl | he
      · exact ⟨.inr ⟨d, .head _, rfl⟩, .inl rfl⟩
      · exact ⟨.inr ⟨e, .tail _ he, rfl⟩, .inr (.tail _ he)⟩
    · -- the first entry has another key, and stays
      rcases List.mem_cons.mp h with rfl | he
      · exact ⟨.inr ⟨e, .head _, rfl⟩, .inr (.head _)⟩
      · obtain ⟨hkey, hvalue⟩ := ih he
        exact ⟨hkey.imp_right fun ⟨e', he', h⟩ => ⟨e', .tail _ he', h⟩, hvalue.imp_right (.tail _)⟩

/-- Keys that differ still do with one more entry. -/
theorem pairwise_insert (key value : Datum) {es : List (Datum × Datum)}
    (h : es.Pairwise fun a b => a.1.eq b.1 = false) :
    (insert key value es).Pairwise fun a b => a.1.eq b.1 = false := by
  induction es with
  | nil => exact List.pairwise_singleton _ _
  | cons e es ih =>
    obtain ⟨hfirst, hothers⟩ := List.pairwise_cons.mp h
    rw [insert]
    split
    · exact List.pairwise_cons.mpr ⟨hfirst, hothers⟩
    · next hnew =>
      -- the first entry differs from the new one as well
      refine List.pairwise_cons.mpr ⟨fun d hd => ?_, ih hothers⟩
      rcases (mem_insert hd).1 with hkey | ⟨d', hd', hkey⟩
      · rw [hkey]
        exact Bool.not_eq_true _ ▸ hnew
      · rw [hkey]
        exact hfirst d' hd'

theorem Distinct.insert {key value : Datum} {es : List (Datum × Datum)} (h : (map es).Distinct)
    (hvalue : value.Distinct) : (map (Datum.insert key value es)).Distinct := by
  obtain ⟨hkeys, hvalues⟩ := distinct_map.mp h
  refine distinct_map.mpr ⟨pairwise_insert key value hkeys, fun e he => ?_⟩
  rcases (mem_insert he).2 with hnew | hold
  · exact hnew ▸ hvalue
  · exact hvalues e hold

/-- Only a text itself equals a text. -/
theorem eq_text {v : Datum} {s : String} : v.eq (.text s) ↔ v = .text s := by
  cases v <;> simp [Datum.eq, number?]

/-- The value of a text in a mapping with different keys. -/
theorem find?_eq_some_of_mem {α : Type} {es : List (Datum × α)}
    (h : es.Pairwise fun a b => a.1.eq b.1 = false) {s : String} {a : α}
    (hmem : (.text s, a) ∈ es) : es.find? (fun e => e.1.eq (.text s)) = some (.text s, a) := by
  induction es with
  | nil => cases hmem
  | cons e es ih =>
    obtain ⟨hfirst, hothers⟩ := List.pairwise_cons.mp h
    rcases List.mem_cons.mp hmem with rfl | hmem
    · exact List.find?_cons_of_pos (eq_text.mpr rfl)
    · have hother : e.1.eq (.text s) = false := hfirst _ hmem
      rw [List.find?_cons_of_neg (by simp [hother]), ih hothers hmem]

end Datum

/-! ## Reading -/

namespace Yaml

theorem distinct_dateOf {year month day : Nat} {v : Datum} (h : dateOf year month day = .ok v) :
    v.Distinct := by
  unfold dateOf at h
  split at h
  · cases h
  split at h
  · cases h
  split at h
  · cases h
  · cases h
    trivial

theorem distinct_date {cs : List Char} {r : Except Failure Datum} (hr : date? cs = some r)
    {v : Datum} (h : r = .ok v) : v.Distinct := by
  unfold date? at hr
  split at hr
  · split at hr
    · cases hr
      exact distinct_dateOf h
    · cases hr
  · cases hr

theorem distinct_plainValue {s : String} {v : Datum} (h : plainValue s = .ok v) : v.Distinct := by
  unfold plainValue at h
  dsimp only at h
  split at h
  · cases h
    trivial
  split at h
  · cases h
  split at h
  · cases h
    trivial
  · obtain ⟨n, -, rfl⟩ := map_eq_ok.mp h
    trivial
  · cases h
    trivial
  · next hdate _ _ _ => exact distinct_date hdate h
  · cases h
    trivial

mutual
theorem distinct_value : ∀ (n : Node) (v : Datum), n.value = .ok v → v.Distinct
  | .scalar text plain, v, h => by
    rw [Node.value] at h
    split at h
    · exact distinct_plainValue h
    · cases h
      trivial
  | .sequence items, v, h => by
    rw [Node.value] at h
    obtain ⟨vs, hvs, h⟩ := bind_eq_ok.mp h
    cases h
    exact distinct_valuesOf items vs hvs
  | .mapping entries, v, h => by
    rw [Node.value] at h
    obtain ⟨es, hes, h⟩ := bind_eq_ok.mp h
    cases h
    exact distinct_entriesOf entries [] es ⟨.nil, trivial⟩ hes

theorem distinct_valuesOf :
    ∀ (ns : List Node) (vs : List Datum), valuesOf ns = .ok vs → Datum.DistinctItems vs
  | [], vs, h => by
    cases h
    trivial
  | n :: ns, vs, h => by
    rw [valuesOf] at h
    obtain ⟨v, hv, h⟩ := bind_eq_ok.mp h
    obtain ⟨vs', hvs, h⟩ := bind_eq_ok.mp h
    cases h
    exact ⟨distinct_value n v hv, distinct_valuesOf ns vs' hvs⟩

theorem distinct_entriesOf :
    ∀ (es : List (Node × Node)) (found found' : List (Datum × Datum)), (Datum.map found).Distinct →
      entriesOf found es = .ok found' → (Datum.map found').Distinct
  | [], found, found', hfound, h => by
    cases h
    exact hfound
  | (k, v) :: es, found, found', hfound, h => by
    -- whatever the key is, it goes into the mapping with the value
    have hentry : ∀ key : Datum, (do
        if !isKey key then .error .malformed
        entriesOf (Datum.insert key (← v.value) found) es) = Except.ok found' →
        (Datum.map found').Distinct := by
      intro key h
      dsimp only at h
      split at h
      · cases h
      · obtain ⟨value, hvalue, h⟩ := bind_eq_ok.mp h
        exact distinct_entriesOf es _ found' (hfound.insert (distinct_value v value hvalue)) h
    unfold entriesOf at h
    dsimp only at h
    split at h <;> obtain ⟨key, -, h⟩ := bind_eq_ok.mp h <;> exact hentry key h
end

/-- In all mappings of a value that was read the keys differ. -/
theorem distinct_read {content : String} {d : Datum} (h : read content = .ok d) : d.Distinct := by
  unfold read at h
  dsimp only at h
  split at h
  · split at h
    · exact distinct_value _ d h
    · cases h
  · cases h

end Yaml

end BinaryPoint
