import BinaryPoint.Proofs.Outcome
import BinaryPoint.Sorted

/-! # When sorting returns

Sorting with comparisons that can fail returns a list of the same items (`sortBy_perm`). It
returns if all of them can be compared (`exists_sortBy`); and since every item is compared with
one that was there before it, it returns only if they are all of one kind (`uniform_of_sortBy`).
-/

namespace BinaryPoint.Sorted

variable {α ε : Type} {less : α → α → Except ε Bool}

/-! ## The items of the result -/

theorem takeRun_append {descending : Bool} {last : α} {xs run rest : List α}
    (h : takeRun less descending last xs = .ok (run, rest)) : run ++ rest = xs := by
  induction xs generalizing last run with
  | nil =>
    cases h
    rfl
  | cons x xs ih =>
    obtain ⟨b, -, h⟩ := bind_eq_ok.mp h
    split at h
    · obtain ⟨⟨run', rest'⟩, hrun, h⟩ := bind_eq_ok.mp h
      cases h
      rw [List.cons_append, ih hrun]
    · cases h
      rfl

theorem insert_perm {sorted ys : List α} {x : α} (h : insert less sorted x = .ok ys) :
    ys.Perm (x :: sorted) := by
  obtain ⟨place, -, h⟩ := bind_eq_ok.mp h
  cases h
  have hmiddle : (sorted.take place ++ x :: sorted.drop place).Perm
      (x :: (sorted.take place ++ sorted.drop place)) := List.perm_middle
  rwa [List.take_append_drop] at hmiddle

theorem foldlM_insert_perm {xs sorted ys : List α} (h : xs.foldlM (insert less) sorted = .ok ys) :
    ys.Perm (sorted ++ xs) := by
  induction xs generalizing sorted with
  | nil =>
    cases h
    rw [List.append_nil]
  | cons x xs ih =>
    rw [List.foldlM_cons] at h
    obtain ⟨between, hinsert, h⟩ := bind_eq_ok.mp h
    have hinserted : (between ++ xs).Perm (x :: (sorted ++ xs)) :=
      (insert_perm hinsert).append_right xs
    exact (ih h).trans (hinserted.trans List.perm_middle.symm)

/-- A sorted list has the items of the list that was to be sorted. -/
theorem sortBy_perm {xs ys : List α} (h : sortBy less xs = .ok ys) : ys.Perm xs := by
  unfold sortBy at h
  split at h
  · next x y others =>
    obtain ⟨descending, -, h⟩ := bind_eq_ok.mp h
    obtain ⟨⟨run, rest⟩, hrun, h⟩ := bind_eq_ok.mp h
    have hitems := takeRun_append hrun
    -- a descending run is turned round first
    have hturned : (if descending then (x :: y :: run).reverse else x :: y :: run).Perm
        (x :: y :: run) := by
      split
      · exact List.reverse_perm _
      · exact .refl _
    rw [← hitems]
    exact (foldlM_insert_perm h).trans (hturned.append_right rest)
  · cases h
    exact .refl _

/-! ## Items that can be compared -/

section Comparable

variable {p : α → Prop} (hless : ∀ a b, p a → p b → ∃ c, less a b = .ok c)

include hless

theorem exists_takeRun (descending : Bool) {last : α} (hlast : p last) {xs : List α}
    (hxs : ∀ x ∈ xs, p x) : ∃ r, takeRun less descending last xs = .ok r := by
  induction xs generalizing last with
  | nil => exact ⟨_, rfl⟩
  | cons x xs ih =>
    obtain ⟨hx, hxs⟩ := List.forall_mem_cons.mp hxs
    obtain ⟨c, hc⟩ := hless x last hx hlast
    obtain ⟨r, hr⟩ := ih hx hxs
    rw [takeRun, hc, ok_bind, hr]
    split
    · exact ⟨_, rfl⟩
    · exact ⟨_, rfl⟩

theorem exists_searchPlace {sorted : List α} (hsorted : ∀ y ∈ sorted, p y) {x : α} (hx : p x)
    (steps low high : ℕ) : ∃ place, searchPlace less sorted x steps low high = .ok place := by
  induction steps generalizing low high with
  | zero => exact ⟨low, rfl⟩
  | succ steps ih =>
    rw [searchPlace]
    split
    · dsimp only
      split
      · exact ⟨low, rfl⟩
      · next y hy =>
        -- whichever half the search goes on in, there is a step less to do
        obtain ⟨c, hc⟩ := hless x y hx (hsorted y (List.mem_of_getElem? hy))
        rw [hc, ok_bind]
        split
        · exact ih _ _
        · exact ih _ _
    · exact ⟨low, rfl⟩

theorem exists_foldlM_insert {xs sorted : List α} (hxs : ∀ x ∈ xs, p x)
    (hsorted : ∀ y ∈ sorted, p y) : ∃ ys, xs.foldlM (insert less) sorted = .ok ys := by
  induction xs generalizing sorted with
  | nil => exact ⟨sorted, rfl⟩
  | cons x xs ih =>
    obtain ⟨hx, hxs⟩ := List.forall_mem_cons.mp hxs
    obtain ⟨place, hplace⟩ := exists_searchPlace hless hsorted hx sorted.length 0 sorted.length
    have hinsert : insert less sorted x = .ok (sorted.take place ++ x :: sorted.drop place) := by
      rw [insert, hplace, ok_bind]
    rw [List.foldlM_cons, hinsert, ok_bind]
    apply ih hxs
    intro y hy
    rcases List.mem_cons.mp ((insert_perm hinsert).mem_iff.mp hy) with rfl | hy
    · exact hx
    · exact hsorted y hy

/-- Items that can all be compared are sorted. -/
theorem exists_sortBy {xs : List α} (hxs : ∀ x ∈ xs, p x) : ∃ ys, sortBy less xs = .ok ys := by
  match xs with
  | [] => exact ⟨_, rfl⟩
  | [x] => exact ⟨_, rfl⟩
  | x :: y :: others =>
    obtain ⟨hx, hxs⟩ := List.forall_mem_cons.mp hxs
    obtain ⟨hy, hothers⟩ := List.forall_mem_cons.mp hxs
    obtain ⟨descending, hdescending⟩ := hless y x hy hx
    obtain ⟨⟨run, rest⟩, hrun⟩ := exists_takeRun hless descending hy hothers
    rw [← takeRun_append hrun] at hothers
    obtain ⟨hruns, hrest⟩ := List.forall_mem_append.mp hothers
    have hstart : ∀ z ∈ x :: y :: run, p z :=
      List.forall_mem_cons.mpr ⟨hx, List.forall_mem_cons.mpr ⟨hy, hruns⟩⟩
    -- the run in front is sorted, and the rest is inserted into it
    rw [sortBy, hdescending, ok_bind, hrun, ok_bind]
    apply exists_foldlM_insert hless hrest
    intro z hz
    apply hstart
    split at hz
    · exact List.mem_reverse.mp hz
    · exact hz

end Comparable

/-! ## Items of one kind -/

section Uniform

variable {p : α → Prop} (hless : ∀ a b c, less a b = .ok c → (p a ↔ p b))

include hless

theorem uniform_of_takeRun {descending : Bool} {last : α} {xs run rest : List α}
    (h : takeRun less descending last xs = .ok (run, rest)) : ∀ y ∈ run, p y ↔ p last := by
  induction xs generalizing last run with
  | nil =>
    cases h
    exact List.forall_mem_nil _
  | cons x xs ih =>
    obtain ⟨b, hb, h⟩ := bind_eq_ok.mp h
    split at h
    · obtain ⟨⟨run', rest'⟩, hrun, h⟩ := bind_eq_ok.mp h
      cases h
      have hx := hless _ _ _ hb
      exact List.forall_mem_cons.mpr ⟨hx, fun y hy => (ih hrun y hy).trans hx⟩
    · cases h
      exact List.forall_mem_nil _

/-- The search for a place starts with a comparison, if there is anything to compare with. -/
theorem uniform_of_insert {q : Prop} {sorted ys : List α} {x : α} (hne : sorted ≠ [])
    (hsorted : ∀ y ∈ sorted, p y ↔ q) (h : insert less sorted x = .ok ys) : p x ↔ q := by
  obtain ⟨place, hplace, -⟩ := bind_eq_ok.mp h
  obtain ⟨n, hn⟩ : ∃ n, sorted.length = n + 1 :=
    ⟨sorted.length - 1, by have := List.length_pos_iff.mpr hne; omega⟩
  rw [hn, searchPlace, if_pos (Nat.succ_pos n)] at hplace
  dsimp only at hplace
  have hmiddle : 0 + (n + 1 - 0) / 2 < sorted.length := by omega
  rw [List.getElem?_eq_getElem hmiddle] at hplace
  obtain ⟨c, hc, -⟩ := bind_eq_ok.mp hplace
  exact (hless _ _ _ hc).trans (hsorted _ (List.getElem_mem hmiddle))

theorem uniform_of_foldlM_insert {q : Prop} {xs sorted ys : List α} (hne : sorted ≠ [])
    (hsorted : ∀ y ∈ sorted, p y ↔ q) (h : xs.foldlM (insert less) sorted = .ok ys) :
    ∀ x ∈ xs, p x ↔ q := by
  induction xs generalizing sorted with
  | nil => exact List.forall_mem_nil _
  | cons x xs ih =>
    rw [List.foldlM_cons] at h
    obtain ⟨between, hinsert, h⟩ := bind_eq_ok.mp h
    -- the first one is compared with items that are there, and then counts as one of them
    have hx := uniform_of_insert hless hne hsorted hinsert
    have hperm := insert_perm hinsert
    refine List.forall_mem_cons.mpr ⟨hx, ih ?_ ?_ h⟩
    · rintro rfl
      exact absurd hperm.length_eq (by simp)
    · intro y hy
      rcases List.mem_cons.mp (hperm.mem_iff.mp hy) with rfl | hy
      · exact hx
      · exact hsorted y hy

/-- Items are sorted only if they are of one kind, where items of two kinds cannot be
compared. -/
theorem uniform_of_sortBy {xs ys : List α} (h : sortBy less xs = .ok ys) :
    (∀ x ∈ xs, p x) ∨ ∀ x ∈ xs, ¬ p x := by
  have hone : ∃ q : Prop, ∀ x ∈ xs, p x ↔ q := by
    match xs with
    | [] => exact ⟨True, List.forall_mem_nil _⟩
    | [x] => exact ⟨p x, List.forall_mem_singleton.mpr Iff.rfl⟩
    | x :: y :: others =>
      refine ⟨p x, ?_⟩
      obtain ⟨descending, hdescending, h⟩ := bind_eq_ok.mp h
      obtain ⟨⟨run, rest⟩, hrun, h⟩ := bind_eq_ok.mp h
      -- the second item was compared with the first
      have hy : p y ↔ p x := hless _ _ _ hdescending
      have hruns : ∀ z ∈ x :: y :: run, p z ↔ p x :=
        List.forall_mem_cons.mpr ⟨Iff.rfl, List.forall_mem_cons.mpr
          ⟨hy, fun z hz => (uniform_of_takeRun hless hrun z hz).trans hy⟩⟩
      have hstart : ∀ z ∈ if descending then (x :: y :: run).reverse else x :: y :: run,
          p z ↔ p x := by
        intro z hz
        apply hruns
        split at hz
        · exact List.mem_reverse.mp hz
        · exact hz
      -- and the rest with the run in front
      have hrest := uniform_of_foldlM_insert hless (by split <;> simp) hstart h
      rw [← takeRun_append hrun]
      intro z hz
      rcases List.mem_append.mp (show z ∈ (x :: y :: run) ++ rest from hz) with hz | hz
      · exact hruns z hz
      · exact hrest z hz
  obtain ⟨q, hq⟩ := hone
  by_cases h : q
  · exact .inl fun x hx => (hq x hx).mpr h
  · exact .inr fun x hx hp => h ((hq x hx).mp hp)

end Uniform

end BinaryPoint.Sorted
