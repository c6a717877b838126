import BinaryPoint.Format

/-! # Caches of handles by format

A cache remembers one handle per format, in the order in which the formats were first
asked for, and never forgets one. A maker may also come up with no handle: that is
remembered as well, but the next request tries again.
-/

namespace BinaryPoint

/-- Handles by format, a count of the makers that succeeded, and for each format the
number of callers that are making a handle for it just now. -/
structure Cache (α : Type) where
  entries : List (Format × Option α) := []
  synthesized : Nat := 0
  locks : List (Format × Nat) := []

namespace Cache

variable {α ε : Type}

/-- The formats that have an entry, oldest first. -/
def formats (c : Cache α) : List Format := c.entries.map (·.1)

/-- Whether a format has an entry. -/
def contains (c : Cache α) (f : Format) : Bool := c.entries.any (·.1 = f)

/-- The handle of a format. -/
def get? (c : Cache α) (f : Format) : Option α :=
  (c.entries.find? (·.1 = f)).bind (·.2)

/-- Puts an entry in place of an older one, or at the end. -/
def putEntry (f : Format) (handle : Option α) :
    List (Format × Option α) → List (Format × Option α)
  | [] => [(f, handle)]
  | e :: es => if e.1 = f then (f, handle) :: es else e :: putEntry f handle es

/-- Records what a maker came up with. -/
def record (c : Cache α) (f : Format) (handle : Option α) : Cache α :=
  { c with entries := putEntry f handle c.entries, synthesized := c.synthesized + 1 }

/-- One more caller at work on a format. -/
def enter (c : Cache α) (f : Format) : Cache α :=
  { c with locks := go c.locks }
where
  /-- Counts the caller under its format. -/
  go : List (Format × Nat) → List (Format × Nat)
    | [] => [(f, 1)]
    | l :: ls => if l.1 = f then (f, l.2 + 1) :: ls else l :: go ls

/-- One caller less at work on a format; the last one takes the lock away. -/
def leave (c : Cache α) (f : Format) : Cache α :=
  { c with locks := c.locks.filterMap fun l =>
      if l.1 = f then (if l.2 ≤ 1 then none else some (f, l.2 - 1)) else some l }

/-- The handle of a format, made if there is none yet. A maker that fails leaves no trace. -/
def getOrCreate (c : Cache α) (f : Format) (make : Format → Except ε (Option α)) :
    Except ε (Option α) × Cache α :=
  match c.get? f with
  | some handle => (.ok (some handle), c)
  | none =>
    let held := c.enter f
    match make f with
    | .ok handle => (.ok handle, (held.record f handle).leave f)
    | .error e => (.error e, held.leave f)

end Cache

end BinaryPoint
