import BinaryPoint.Cache

/-! # What a cache remembers

Recording a handle changes the answer for its format and for no other, and the
locks have no say in it. A request for a format that has a handle returns that
handle and changes nothing; a request for another one is answered by the maker.
-/

namespace BinaryPoint.Cache

variable {α ε : Type} {c : Cache α} {f g : Format}

@[simp] theorem get?_empty : ({} : Cache α).get? f = none := rfl

@[simp] theorem get?_enter : (c.enter g).get? f = c.get? f := rfl

@[simp] theorem get?_leave : (c.leave g).get? f = c.get? f := rfl

theorem find?_putEntry_self (entries : List (Format × Option α)) (handle : Option α) :
    (putEntry f handle entries).find? (·.1 = f) = some (f, handle) := by
  induction entries with
  | nil => simp [putEntry]
  | cons e es ih =>
    rw [putEntry]
    by_cases h : e.1 = f
    · simp [h]
    · rw [if_neg h, List.find?_cons_of_neg (by simpa using h), ih]

theorem find?_putEntry_of_ne (entries : List (Format × Option α)) (handle : Option α)
    (h : g ≠ f) : (putEntry g handle entries).find? (·.1 = f) = entries.find? (·.1 = f) := by
  induction entries with
  | nil => simp [putEntry, h]
  | cons e es ih =>
    rw [putEntry]
    by_cases he : e.1 = g
    · have hf : e.1 ≠ f := by rwa [he]
      simp [he, h]
    · rw [if_neg he]
      by_cases hf : e.1 = f
      · simp [hf]
      · rw [List.find?_cons_of_neg (by simpa using hf), ih,
          List.find?_cons_of_neg (by simpa using hf)]

theorem mem_putEntry {handle : Option α} {e : Format × Option α}
    {entries : List (Format × Option α)} (h : e ∈ putEntry f handle entries) :
    e = (f, handle) ∨ e ∈ entries := by
  induction entries with
  | nil => exact .inl (List.mem_singleton.mp h)
  | cons d es ih =>
    rw [putEntry] at h
    split at h
    · exact (List.mem_cons.mp h).imp_right (.tail _)
    · rcases List.mem_cons.mp h with rfl | h
      · exact .inr (.head _)
      · exact (ih h).imp_right (.tail _)

@[simp] theorem get?_record_self {handle : Option α} : (c.record f handle).get? f = handle := by
  simp [get?, record, find?_putEntry_self]

theorem get?_record_of_ne {handle : Option α} (h : g ≠ f) :
    (c.record g handle).get? f = c.get? f := by
  simp [get?, record, find?_putEntry_of_ne _ _ h]

/-! ## Requests -/

variable {make : Format → Except ε (Option α)}

/-- A handle that is there is returned, and nothing changes. -/
theorem getOrCreate_of_some {handle : α} (h : c.get? f = some handle) :
    c.getOrCreate f make = (.ok (some handle), c) := by
  simp [getOrCreate, h]

/-- Where there is none the maker answers, and what it comes up with is recorded. -/
theorem getOrCreate_of_none (h : c.get? f = none) :
    c.getOrCreate f make =
      match make f with
      | .ok handle => (.ok handle, ((c.enter f).record f handle).leave f)
      | .error e => (.error e, (c.enter f).leave f) := by
  cases hmake : make f with
  | ok handle => simp [getOrCreate, h, hmake]
  | error e => simp [getOrCreate, h, hmake]

/-- After a request the cache has the handle that was returned, if one was. -/
theorem get?_getOrCreate_self :
    (c.getOrCreate f make).2.get? f = ((c.getOrCreate f make).1.toOption).join := by
  cases h : c.get? f with
  | some handle => simp [getOrCreate_of_some h, h, Except.toOption]
  | none =>
    rw [getOrCreate_of_none h]
    cases make f with
    | ok handle => simp [Except.toOption]
    | error e => simp [h, Except.toOption]

/-- About the other formats it knows what it knew. -/
theorem get?_getOrCreate_of_ne (hne : f ≠ g) : (c.getOrCreate f make).2.get? g = c.get? g := by
  cases h : c.get? f with
  | some handle => rw [getOrCreate_of_some h]
  | none =>
    rw [getOrCreate_of_none h]
    cases make f with
    | ok handle => simp [get?_record_of_ne hne]
    | error e => simp

end BinaryPoint.Cache
