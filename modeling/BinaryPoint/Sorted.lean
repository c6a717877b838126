/-! # Sorting with comparisons that can fail

When a comparison can fail, it shows which pairs are compared and in which order. Here the
run at the start of a list is kept and the other items are inserted one by one, each at a
place that is searched by halving, after its equals.
-/

namespace BinaryPoint.Sorted

variable {α ε : Type}

/-- Goes on with a run of items that all descend, or all do not. -/
def takeRun (less : α → α → Except ε Bool) (descending : Bool) (last : α) :
    List α → Except ε (List α × List α)
  | [] => .ok ([], [])
  | x :: xs => do
    if (← less x last) = descending then
      let (run, rest) ← takeRun less descending x xs
      .ok (x :: run, rest)
    else .ok ([], x :: xs)

/-- The place of an item in a sorted list, after its equals, searched by halving between
two bounds. -/
def searchPlace (less : α → α → Except ε Bool) (sorted : List α) (x : α) :
    Nat → Nat → Nat → Except ε Nat
  | 0, low, _ => .ok low
  | steps + 1, low, high =>
    if low < high then do
      let middle := low + (high - low) / 2
      match sorted[middle]? with
      | none => .ok low
      | some y =>
        if ← less x y then searchPlace less sorted x steps low middle
        else searchPlace less sorted x steps (middle + 1) high
    else .ok low

/-- A sorted list with one more item. -/
def insert (less : α → α → Except ε Bool) (sorted : List α) (x : α) : Except ε (List α) := do
  let place ← searchPlace less sorted x sorted.length 0 sorted.length
  .ok (sorted.take place ++ x :: sorted.drop place)

/-- Sorts a list. A run that descends is turned round first. -/
def sortBy (less : α → α → Except ε Bool) : List α → Except ε (List α)
  | x :: y :: others => do
    let descending ← less y x
    let (run, rest) ← takeRun less descending y others
    let run := x :: y :: run
    rest.foldlM (insert less) (if descending then run.reverse else run)
  | few => .ok few

end BinaryPoint.Sorted
