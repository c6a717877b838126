import BinaryPoint.Proofs.Binder.Binding

/-! # The faults that a computation may end in

What a computation returns is one half of what is to be known of it; the other half is how it
fails. `AtWorst E` says that all its faults are in `E`. It goes through every way of putting
computations together, also of those that work on a cache, so that the faults of a whole
build come down to the places where one is raised. A fault is raised as itself if it can be
worded, which is why each of these places owes a wording.
-/

namespace BinaryPoint

variable {α β : Type} {E E' : Fault → Prop}

/-- The computation returns, or fails with a fault in `E`. -/
def AtWorst (E : Fault → Prop) (x : Except Fault α) : Prop := ∀ f, x = .error f → E f

namespace AtWorst

theorem ok (a : α) : AtWorst E (.ok a : Except Fault α) := by
  rintro _ ⟨⟩

protected theorem refuse {f : Fault} (h : E f.settled) : AtWorst E (refuse f : Except Fault α) := by
  rintro _ ⟨⟩
  exact h

/-- A fault that can be worded is raised as it is. -/
theorem worded {f : Fault} (h : E f) (hworded : f.message?.isSome) :
    AtWorst E (BinaryPoint.refuse f : Except Fault α) := by
  apply AtWorst.refuse
  rwa [Fault.settled, if_pos hworded]

theorem report {f : Fault} (hreported : f.reported) (hworded : f.message?.isSome) :
    AtWorst (·.reported) (BinaryPoint.refuse f : Except Fault α) :=
  .worded hreported hworded

protected theorem bind {x : Except Fault α} {f : α → Except Fault β} (hx : AtWorst E x)
    (hf : ∀ a, x = .ok a → AtWorst E (f a)) : AtWorst E (x >>= f) := by
  cases x with
  | error e =>
    rintro _ ⟨⟩
    exact hx e rfl
  | ok a => exact hf a rfl

/-- A row of computations fails as one of its members does. -/
protected theorem mapM {f : α → Except Fault β} {xs : List α} (hf : ∀ x ∈ xs, AtWorst E (f x)) :
    AtWorst E (xs.mapM f) := by
  induction xs with
  | nil => exact .ok []
  | cons x xs ih =>
    rw [List.mapM_cons]
    apply AtWorst.bind (hf x (by simp))
    intro y _
    apply AtWorst.bind (ih fun z hz => hf z (by simp [hz]))
    intro ys _
    exact .ok (y :: ys)

theorem mono {x : Except Fault α} (hx : AtWorst E x) (h : ∀ f, E f → E' f) : AtWorst E' x :=
  fun f hf => h f (hx f hf)

end AtWorst

/-- The computation fails with a fault of a class. -/
def FailsAs (kind : FaultKind) (x : Except Fault α) : Prop := ∃ f, x = .error f ∧ f.kind = kind

@[simp] theorem failsAs_error {kind : FaultKind} {f : Fault} :
    FailsAs kind (.error f : Except Fault α) ↔ f.kind = kind := by
  simp [FailsAs]

@[simp] theorem not_failsAs_ok {kind : FaultKind} (a : α) :
    ¬ FailsAs kind (.ok a : Except Fault α) := by
  simp [FailsAs]

/-- A fault that can be worded is raised as it is. -/
theorem refuse_of_worded {f : Fault} (hworded : f.message?.isSome) :
    (refuse f : Except Fault α) = .error f := by
  rw [refuse, Fault.settled, if_pos hworded]

/-- What is raised is the fault itself or that it cannot be worded. -/
theorem error_ne_refuse {f g : Fault} (hself : g ≠ f) (hlong : g ≠ .integerTooLong) :
    (.error g : Except Fault α) ≠ refuse f := by
  rw [refuse, Fault.settled]
  split
  · simpa using hself
  · simpa using hlong

/-! ## Integers in wordings -/

/-- An integer that is not too long to be written. -/
def Decimal.Short (n : Int) : Prop := n.natAbs < writeLimit

instance (n : Int) : Decidable (Decimal.Short n) := inferInstanceAs (Decidable (_ < _))

theorem Decimal.exists_write? {n : Int} (h : n.natAbs < writeLimit) :
    ∃ s, write? n = some s :=
  ⟨toString n, if_pos h⟩

/-- A number of few digits can be written. -/
theorem Decimal.lt_writeLimit {n : Nat} (h : n < 10000) : n < writeLimit := by
  have hdigits : 4 ≤ digitLimit := by decide
  exact Nat.lt_of_lt_of_le h (Nat.pow_le_pow_right (show 0 < 10 by decide) hdigits)

theorem Decimal.exists_write?_iff {n : Int} : (∃ s, write? n = some s) ↔ Short n := by
  refine ⟨?_, exists_write?⟩
  rintro ⟨s, hs⟩
  by_contra h
  rw [write?, if_neg (show ¬ n.natAbs < writeLimit from h)] at hs
  cases hs

theorem exists_integerText_iff {n : Int} : (∃ s, integerText n = .ok s) ↔ Decimal.Short n := by
  unfold integerText
  simp only [← Decimal.exists_write?_iff]
  generalize Decimal.write? n = text
  cases text <;> simp

theorem Datum.plain?_int (n : Int) : (Datum.int n).plain? = Decimal.write? n := by
  simp [plain?, shown?]

/-! ## On a cache -/

namespace Binder.Binding

variable {P : Cache ValueType → Prop}

/-- Started where `P` holds, the computation returns, or fails with a fault in `E`. -/
def AtWorst (P : Cache ValueType → Prop) (E : Fault → Prop) (x : Binding α) : Prop :=
  ∀ cache, P cache → BinaryPoint.AtWorst E (x.runOn cache).1

namespace AtWorst

protected theorem pure (a : α) : AtWorst P E (pure a : Binding α) := fun _ _ => .ok a

protected theorem of {x : Except Fault α} (hx : BinaryPoint.AtWorst E x) : AtWorst P E (of x) :=
  fun _ _ => hx

/-- The second step starts where the first one stopped, with what that returned. -/
protected theorem bind {x : Binding α} {f : α → Binding β} {Q : α → Prop} (hx : AtWorst P E x)
    (hreturns : Ensures P x Q) (hf : ∀ a, Q a → AtWorst P E (f a)) : AtWorst P E (x >>= f) := by
  intro cache hcache
  have hfaults := hx cache hcache
  obtain ⟨hkeeps, hQ⟩ := hreturns cache hcache
  rw [runOn_bind]
  rcases hrun : x.runOn cache with ⟨e | a, between⟩
  · rw [hrun] at hfaults
    rintro _ ⟨⟩
    exact hfaults e rfl
  · rw [hrun] at hkeeps hQ
    exact hf a (hQ a rfl) between hkeeps

/-- What a step that leaves the cache alone returned is known to the rest. -/
theorem of_bind {x : Except Fault α} {f : α → Binding β} (hx : BinaryPoint.AtWorst E x)
    (hf : ∀ a, x = .ok a → AtWorst P E (f a)) : AtWorst P E (of x >>= f) :=
  AtWorst.bind (.of hx) (.of fun _ h => h) hf

protected theorem mapM {f : α → Binding β} {xs : List α} {Q : α → β → Prop}
    (hf : ∀ x ∈ xs, AtWorst P E (f x)) (hreturns : ∀ x ∈ xs, Ensures P (f x) (Q x)) :
    AtWorst P E (xs.mapM f) := by
  induction xs with
  | nil => exact .pure []
  | cons x xs ih =>
    have hothers : ∀ z ∈ xs, Ensures P (f z) (Q z) := fun z hz => hreturns z (by simp [hz])
    rw [List.mapM_cons]
    apply AtWorst.bind (hf x (by simp)) (hreturns x (by simp))
    intro y _
    apply AtWorst.bind (ih (fun z hz => hf z (by simp [hz])) hothers) (.mapM hothers)
    intro ys _
    exact .pure (y :: ys)

theorem mono {x : Binding α} (hx : AtWorst P E x) (h : ∀ f, E f → E' f) : AtWorst P E' x :=
  fun cache hcache => (hx cache hcache).mono h

end AtWorst

end Binder.Binding

end BinaryPoint
