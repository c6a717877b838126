import BinaryPoint.Proofs.Cache
import Mathlib.Data.List.Nodup

/-! # A cache over many requests

Requests come one after the other, and each of them may bring a maker of its own. A maker is run
only where its format has no handle, and only a maker that comes up with one leaves a trace: its
entry at the end of the row. So at any time the cache is told by the makers that succeeded.

* `Cache.serve`, `Cache.afterAll`: one request, and all requests of a row;
* `Cache.runs`, `Cache.made`: the makers that were run on the way, and the handles they made;
* `Cache.Holds`: what a cache is like between two requests, kept by `Holds.serve`;
* `Cache.written_once`: an entry is never changed, and never asked for again.
-/

namespace BinaryPoint.Cache

variable {α ε : Type}

/-! ## Requests -/

/-- A request to a cache. A maker comes up with a handle, or it fails. -/
inductive Request (α ε : Type)
  | getOrCreate (f : Format) (make : Format → Except ε α)
  | get (f : Format)
  | contains (f : Format)

/-- What a request is answered. -/
inductive Answer (α ε : Type)
  | outcome (r : Except ε (Option α))
  | found (handle : Option α)
  | present (b : Bool)

/-- The answer to a request, and the cache after it. -/
def serve (c : Cache α) : Request α ε → Answer α ε × Cache α
  | .getOrCreate f make =>
    let (r, c) := c.getOrCreate f fun f => (make f).map some
    (.outcome r, c)
  | .get f => (.found (c.get? f), c)
  | .contains f => (.present (c.contains f), c)

/-- The cache after all requests of a row. -/
def afterAll (c : Cache α) : List (Request α ε) → Cache α
  | [] => c
  | r :: rs => (c.serve r).2.afterAll rs

/-! ## Makers that are run -/

/-- The maker that a request runs, and what that comes to: the one it brings for a format that
has no handle. -/
def Request.run? (c : Cache α) : Request α ε → Option (Format × Except ε α)
  | .getOrCreate f make => if (c.get? f).isSome then none else some (f, make f)
  | .get _ | .contains _ => none

/-- All makers that the requests of a row run, in their order. -/
def runs (c : Cache α) : List (Request α ε) → List (Format × Except ε α)
  | [] => []
  | r :: rs => (r.run? c).toList ++ (c.serve r).2.runs rs

/-- The handles that came of the runs which succeeded. -/
def made (row : List (Format × Except ε α)) : List (Format × α) :=
  row.filterMap fun e => e.2.toOption.map fun handle => (e.1, handle)

@[simp] theorem made_nil : made ([] : List (Format × Except ε α)) = [] := rfl

@[simp] theorem made_append (row row' : List (Format × Except ε α)) :
    made (row ++ row') = made row ++ made row' := List.filterMap_append

/-! ## Between two requests -/

/-- A cache in which no request is at work and which has exactly the given handles, oldest
first. -/
structure Holds (c : Cache α) (row : List (Format × α)) : Prop where
  entries : c.entries = row.map fun e => (e.1, some e.2)
  synthesized : c.synthesized = row.length
  locks : c.locks = []
  nodup : (row.map (·.1)).Nodup

namespace Holds

variable {c : Cache α} {row : List (Format × α)} {f : Format} {handle : α}

theorem empty : ({} : Cache α).Holds [] := ⟨rfl, rfl, rfl, List.nodup_nil⟩

theorem formats (h : c.Holds row) : c.formats = row.map (·.1) := by
  rw [Cache.formats, h.entries, List.map_map]
  rfl

theorem length (h : c.Holds row) : c.entries.length = row.length := by
  rw [h.entries, List.length_map]

/-- The handle of a format is the one that was made for it. -/
theorem get?_eq (h : c.Holds row) : c.get? f = (row.find? (·.1 = f)).map (·.2) := by
  rw [get?, h.entries, List.find?_map, Option.bind_map]
  exact Option.map_eq_bind.symm

/-- An entry is a handle, so that a format has both or neither. -/
theorem contains_eq (h : c.Holds row) : c.contains f = (c.get? f).isSome := by
  rw [contains, h.get?_eq, h.entries, List.any_map, Option.isSome_map]
  exact List.isSome_find?.symm

/-- A format without a handle is none of those that the cache lists. -/
theorem not_mem_of_none (h : c.Holds row) (hnone : c.get? f = none) : f ∉ row.map (·.1) := by
  rw [h.get?_eq, Option.map_eq_none_iff, List.find?_eq_none] at hnone
  rintro hmem
  obtain ⟨e, he, rfl⟩ := List.mem_map.mp hmem
  exact hnone e he (by simp)

end Holds

/-- A new entry comes last. -/
theorem putEntry_of_not_mem {f : Format} (handle : Option α) :
    ∀ {entries : List (Format × Option α)}, f ∉ entries.map (·.1) →
      putEntry f handle entries = entries ++ [(f, handle)]
  | [], _ => rfl
  | e :: es, h => by
    rw [List.map_cons, List.mem_cons, not_or] at h
    rw [putEntry, if_neg (Ne.symm h.1), putEntry_of_not_mem handle h.2, List.cons_append]

/-- A caller that comes and goes leaves no lock, if there was none. -/
theorem locks_leave_enter {c : Cache α} (h : c.locks = []) (f : Format) :
    ((c.enter f).leave f).locks = [] := by
  simp [leave, enter, h, enter.go]

/-! ## One request -/

namespace Holds

variable {c : Cache α} {row : List (Format × α)} {f : Format} {make : Format → Except ε α}

/-- A format that has a handle is served with it, whatever maker the request brings. -/
theorem serve_of_some {handle : α} (hget : c.get? f = some handle) :
    c.serve (.getOrCreate f make) = (.outcome (.ok (some handle)), c) := by
  rw [serve, getOrCreate_of_some hget]

/-- A maker that fails is answered by its failure, and the cache is the one from before. -/
theorem serve_of_error (h : c.Holds row) (hnone : c.get? f = none) {e : ε}
    (hmake : make f = .error e) :
    c.serve (.getOrCreate f make) = (.outcome (.error e), c) := by
  have hlocks : ((c.enter f).leave f).locks = c.locks := by
    rw [h.locks, locks_leave_enter h.locks]
  have hsame : (c.enter f).leave f = c := by
    -- only the locks can have changed
    rw [show (c.enter f).leave f = { c with locks := ((c.enter f).leave f).locks } from rfl, hlocks]
  rw [serve, getOrCreate_of_none hnone, hmake]
  dsimp only [Except.map]
  rw [hsame]

/-- A maker that comes up with a handle adds it at the end. -/
theorem serve_of_ok (h : c.Holds row) (hnone : c.get? f = none) {handle : α}
    (hmake : make f = .ok handle) :
    ∃ c', c.serve (.getOrCreate f make) = (.outcome (.ok (some handle)), c') ∧
      c'.Holds (row ++ [(f, handle)]) := by
  refine ⟨((c.enter f).record f (some handle)).leave f, ?_, ?_⟩
  · rw [serve, getOrCreate_of_none hnone, hmake]
    rfl
  · -- the format was not in the row before, so the row has no format twice
    have hnew := h.not_mem_of_none hnone
    have hformats : f ∉ c.entries.map (·.1) := by
      rwa [show c.entries.map (·.1) = c.formats from rfl, h.formats]
    exact {
      entries := by
        show putEntry f (some handle) c.entries = _
        rw [putEntry_of_not_mem _ hformats, h.entries, List.map_append]
        rfl
      synthesized := by
        show c.synthesized + 1 = _
        rw [h.synthesized, List.length_append]
        rfl
      locks := locks_leave_enter h.locks f
      nodup := by
        rw [List.map_append, List.map_singleton, List.nodup_append_comm]
        exact List.nodup_cons.mpr ⟨hnew, h.nodup⟩ }

/-- A request adds the handle that its maker made, if that was run and made one. -/
theorem serve (h : c.Holds row) (r : Request α ε) :
    (c.serve r).2.Holds (row ++ made (r.run? c).toList) := by
  cases r with
  | get f => simpa [Request.run?, Cache.serve] using h
  | contains f => simpa [Request.run?, Cache.serve] using h
  | getOrCreate f make =>
    cases hget : c.get? f with
    | some handle =>
      rw [serve_of_some hget]
      simpa [Request.run?, hget] using h
    | none =>
      cases hmake : make f with
      | error e =>
        -- the row stays as it was
        rw [h.serve_of_error hget hmake]
        simpa [Request.run?, hget, hmake, made, Except.toOption] using h
      | ok handle =>
        -- it is longer by the new handle
        obtain ⟨c', hserve, hc'⟩ := h.serve_of_ok hget hmake
        rw [hserve]
        simpa [Request.run?, hget, hmake, made, Except.toOption] using hc'

/-! ## All requests of a row -/

/-- So after a row of requests the cache has what their makers made, in the order of making. -/
theorem afterAll (h : c.Holds row) (rs : List (Request α ε)) :
    (c.afterAll rs).Holds (row ++ made (c.runs rs)) := by
  induction rs generalizing c row with
  | nil => simpa [Cache.afterAll, runs] using h
  | cons r rs ih =>
    have hothers := ih (h.serve r)
    rwa [List.append_assoc, ← made_append] at hothers

end Holds

/-- A format that has its handle: every request is answered by that, no maker is run, and nothing
changes. -/
structure Settled (c : Cache α) (ε : Type) (f : Format) (handle : α) : Prop where
  unrun : ∀ make : Format → Except ε α, (Request.getOrCreate f make).run? c = none
  served : ∀ make : Format → Except ε α,
    c.serve (.getOrCreate f make) = (.outcome (.ok (some handle)), c)
  got : c.serve (.get f : Request α ε) = (.found (some handle), c)
  present : c.serve (.contains f : Request α ε) = (.present true, c)

/-- A format that has none: its makers are run. One that fails changes nothing, so that the next
one is run again; one that succeeds adds its handle behind those that are there. -/
structure Vacant (c : Cache α) (row : List (Format × α)) (ε : Type) (f : Format) : Prop where
  run : ∀ make : Format → Except ε α, (Request.getOrCreate f make).run? c = some (f, make f)
  failed : ∀ (make : Format → Except ε α) (e : ε), make f = .error e →
    c.serve (.getOrCreate f make) = (.outcome (.error e), c)
  created : ∀ (make : Format → Except ε α) (handle : α), make f = .ok handle →
    ∃ c', c.serve (.getOrCreate f make) = (.outcome (.ok (some handle)), c') ∧
      c'.Holds (row ++ [(f, handle)])
  got : c.serve (.get f : Request α ε) = (.found none, c)
  present : c.serve (.contains f : Request α ε) = (.present false, c)

namespace Holds

variable {c : Cache α} {row : List (Format × α)} {f : Format}

theorem settled (h : c.Holds row) {handle : α} (hget : c.get? f = some handle) :
    c.Settled ε f handle where
  unrun make := by simp [Request.run?, hget]
  served make := serve_of_some hget
  got := by rw [Cache.serve, hget]
  present := by rw [Cache.serve, h.contains_eq, hget, Option.isSome_some]

theorem vacant (h : c.Holds row) (hnone : c.get? f = none) : c.Vacant row ε f where
  run make := by simp [Request.run?, hnone]
  failed make e hmake := h.serve_of_error hnone hmake
  created make handle hmake := h.serve_of_ok hnone hmake
  got := by rw [Cache.serve, hnone]
  present := by rw [Cache.serve, h.contains_eq, hnone, Option.isSome_none]

/-- The row of a cache only grows at its end, and so a handle stays where it is. -/
theorem get?_of_append {c' : Cache α} {more : List (Format × α)} (h : c.Holds row)
    (h' : c'.Holds (row ++ more)) {handle : α} (hget : c.get? f = some handle) :
    c'.get? f = some handle := by
  rw [h.get?_eq, Option.map_eq_some_iff] at hget
  obtain ⟨e, hfind, rfl⟩ := hget
  rw [h'.get?_eq, List.find?_append, hfind]
  rfl

end Holds

/-- **A cache is written once.** After any requests the cache has the handles that their makers
made, in the order of making; the count is theirs too, and no lock is left. A format that has a
handle keeps it, and all later requests get it without a maker being run; a format that has none
is made by the next maker that succeeds, and those that fail before it leave the cache as it
was. -/
theorem written_once (rs later : List (Request α ε)) :
    let c := ({} : Cache α).afterAll rs
    let row := made (({} : Cache α).runs rs)
    c.Holds row ∧ c.formats = row.map (·.1) ∧ c.entries.length = c.synthesized ∧
      c.entries <+: (c.afterAll later).entries ∧
      (∀ f handle, c.get? f = some handle → (c.afterAll later).Settled ε f handle) ∧
      ∀ f, c.get? f = none → c.Vacant row ε f := by
  intro c row
  have h : c.Holds row := Holds.empty.afterAll rs
  have hlater := h.afterAll later
  refine ⟨h, h.formats, h.length.trans h.synthesized.symm, ?_, ?_, fun f => h.vacant⟩
  · rw [h.entries, hlater.entries, List.map_append]
    exact List.prefix_append _ _
  · intro f handle hget
    exact hlater.settled (h.get?_of_append hlater hget)

/-- A maker that fails, one that succeeds for another format, and one that succeeds for the
first; the last one comes too late. -/
theorem written_once_retry :
    let f : Format := ⟨true, 0, 7⟩
    let g : Format := ⟨false, 8, 8⟩
    let rs : List (Request Nat String) :=
      [.getOrCreate f fun _ => .error "no", .getOrCreate g fun _ => .ok 1,
        .getOrCreate f fun _ => .ok 2, .contains g]
    let later : List (Request Nat String) := [.getOrCreate f fun _ => .ok 3, .get g]
    let c := ({} : Cache Nat).afterAll rs
    c.get? f = some 2 ∧ c.formats = [g, f] ∧ c.synthesized = 2 ∧ c.locks = [] ∧
      (c.afterAll later).Settled String f 2 := by
  intro f g rs later c
  have hget : c.get? f = some 2 := by decide
  obtain ⟨hholds, hformats, -, -, hsettled, -⟩ := written_once rs later
  exact ⟨hget, hformats, hholds.synthesized, hholds.locks, hsettled f 2 hget⟩

end BinaryPoint.Cache
