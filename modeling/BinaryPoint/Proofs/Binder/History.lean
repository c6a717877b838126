import BinaryPoint.Proofs.Binder.Types
import Mathlib.Algebra.Order.Ring.Int
import Mathlib.Data.List.Induction
import Mathlib.Logic.Function.Basic

/-! # What binders owe to earlier calls

Binders that share a cache find there the value types that the others made, and a type
that is found is returned whatever the limit of the binder. So a call comes to what it
comes to on a fresh binder, unless an earlier call had a wider binder make the type:

* `isSome_cachesAfter_iff`: the types in a cache are those that some earlier call could
  make itself;
* `outcome_after`: a call depends on its history in no other way. In particular, where
  all binders of a cache have one limit, it does not depend on it at all;
* `not_forall_outcome_fresh`: two binders of different limits tell the difference.
-/

namespace BinaryPoint.Binder

open Binding

/-! ## Calls -/

/-- A call of a binder. What is to be bound may not be a number after all. -/
inductive Call
  | typeFor (d : Descriptor)
  | bind (d : Descriptor) (x : Except Fault Binary64)
  | reformat (v : Fixed) (d : Descriptor)

/-- What a caller learns from an outcome: the format of a value type, or the format and the
scaled integer of a value. -/
inductive Answer
  | ofType (f : Format)
  | ofValue (f : Format) (raw : ℤ)
deriving DecidableEq

/-- A value as a caller sees it. -/
def Answer.value (v : Fixed) : Answer := .ofValue v.format v.raw

/-- The descriptor that a call names. -/
def Call.descriptor : Call → Descriptor
  | typeFor d | bind d _ | reformat _ d => d

/-- Makes a call on the cache of a binder. -/
def Call.perform (b : Binder) : Call → Binding Answer
  | typeFor d => do return .ofType (← b.typeFor d).format
  | bind d x => do return .value (← b.bindNumber d x)
  | reformat v d => do return .value (← b.reformat v d)

/-! ## Histories -/

/-- The caches of all binders, by number, after one more call. -/
def serve (caches : ℕ → Cache ValueType) (e : Binder × Call) : ℕ → Cache ValueType :=
  Function.update caches e.1.origin ((e.2.perform e.1).runOn (caches e.1.origin)).2

/-- The caches after calls that were made one after the other, all of them empty before. -/
def cachesAfter (history : List (Binder × Call)) : ℕ → Cache ValueType :=
  history.foldl serve fun _ => {}

/-- What a call comes to after other calls. -/
def Call.outcome (c : Call) (b : Binder) (history : List (Binder × Call)) :
    Except Fault Answer :=
  ((c.perform b).runOn (cachesAfter history b.origin)).1

/-- The binder can make the type of a format itself. -/
def Makes (b : Binder) (f : Format) : Prop := ∃ t, b.synthesize f = .ok t

/-- The binder cannot make the type of a format itself, but an earlier call had another
binder make it in the same cache. -/
def Overruled (history : List (Binder × Call)) (b : Binder) (f : Format) : Prop :=
  ¬ b.Makes f ∧ ∃ e ∈ history, e.1.origin = b.origin ∧ e.2.descriptor = .format f ∧ e.1.Makes f

/-! ## One call -/

variable {cache cache' : Cache ValueType} {b b' : Binder} {f : Format}

/-- A value is the same to a caller in every type of one format. -/
theorem map_value_ofRaw {t t' : ValueType} (h : t.format = t'.format) (raw : ℤ) :
    (Fixed.ofRaw t raw).map Answer.value = (Fixed.ofRaw t' raw).map Answer.value := by
  rw [Fixed.ofRaw, Fixed.ofRaw]
  by_cases hraw : t.format.Holds raw
  · have hraw' : t'.format.Holds raw := h ▸ hraw
    rw [dif_pos hraw, dif_pos hraw']
    show Except.ok (Answer.ofValue t.format raw) = .ok (.ofValue t'.format raw)
    rw [h]
  · have hraw' : ¬ t'.format.Holds raw := h ▸ hraw
    rw [dif_neg hraw, dif_neg hraw', h]

theorem map_value_roundTo {t t' : ValueType} (h : t.format = t'.format) (x : Binary64) :
    (roundTo t x).map Answer.value = (roundTo t' x).map Answer.value := by
  rw [roundTo, roundTo]
  split
  · rw [h]
    exact map_value_ofRaw h _
  · rw [h]

/-- What a call does once the format that it names has its type. -/
def Call.finish (t : ValueType) : Call → Except Fault Answer
  | typeFor _ => .ok (.ofType t.format)
  | bind _ x => (x.bind (roundTo t)).map .value
  | reformat v _ =>
    (Fixed.ofRaw t (shiftRound v.raw ((v.format.fractionalBits : ℤ) - t.format.fractionalBits))).map
      .value

/-- It is the same for every type of the format. -/
theorem Call.finish_congr (c : Call) {t t' : ValueType} (h : t.format = t'.format) :
    c.finish t = c.finish t' := by
  cases c with
  | typeFor d => rw [finish, finish, h]
  | bind d x =>
    cases x with
    | error e => simp only [finish, Except.bind]
    | ok x => exact map_value_roundTo h x
  | reformat v d =>
    rw [finish, finish, h]
    exact map_value_ofRaw h _

/-- Every call asks for the type of its descriptor, and touches the cache in no other way. -/
theorem Call.runOn_perform (c : Call) (b : Binder) (cache : Cache ValueType) :
    (c.perform b).runOn cache =
      (((b.typeFor c.descriptor).runOn cache).1.bind c.finish,
        ((b.typeFor c.descriptor).runOn cache).2) := by
  cases c with
  | typeFor d =>
    rw [perform, runOn_bind, descriptor]
    rcases (b.typeFor d).runOn cache with ⟨_ | t, _⟩ <;> rfl
  | bind d x =>
    rw [perform, bindNumber, runOn_bind, runOn_bind, descriptor]
    rcases (b.typeFor d).runOn cache with ⟨_ | t, _⟩
    · rfl
    · dsimp only [runOn_of]
      -- with a type the rest is no request any more
      show _ = ((x.bind (roundTo t)).map Answer.value, _)
      cases x.bind (roundTo t) <;> rfl
  | reformat v d =>
    rw [perform, Binder.reformat, runOn_bind, runOn_bind, descriptor]
    rcases (b.typeFor d).runOn cache with ⟨_ | t, _⟩
    · rfl
    · dsimp only [runOn_of]
      show _ = ((Fixed.ofRaw t (shiftRound v.raw
        ((v.format.fractionalBits : ℤ) - t.format.fractionalBits))).map Answer.value, _)
      cases Fixed.ofRaw t _ <;> rfl

/-- What a call comes to depends on the cache and the binder through the type only. -/
theorem Call.perform_congr (c : Call)
    (h : ((b.typeFor c.descriptor).runOn cache).1.map ValueType.format =
      ((b'.typeFor c.descriptor).runOn cache').1.map ValueType.format) :
    ((c.perform b).runOn cache).1 = ((c.perform b').runOn cache').1 := by
  rw [runOn_perform, runOn_perform]
  -- both requests fail with the same fault, or both give types of one format
  cases htype : ((b.typeFor c.descriptor).runOn cache).1 with
  | error e =>
    cases htype' : ((b'.typeFor c.descriptor).runOn cache').1 with
    | error e' =>
      rw [htype, htype'] at h
      injection h with h
      rw [h]
    | ok t' =>
      rw [htype, htype'] at h
      cases h
  | ok t =>
    cases htype' : ((b'.typeFor c.descriptor).runOn cache').1 with
    | error e' =>
      rw [htype, htype'] at h
      cases h
    | ok t' =>
      rw [htype, htype'] at h
      injection h with h
      exact c.finish_congr h

/-! ## One type -/

/-- What a binder makes of a format depends on its limit only. -/
theorem map_format_synthesize (b b' : Binder) (hlimit : b.limit = b'.limit) (f : Format) :
    (b.synthesize f).map ValueType.format = (b'.synthesize f).map ValueType.format := by
  simp only [synthesize, hlimit]
  cases exceeds f.width b'.limit with
  | error e => simp only [error_bind, Except.map]
  | ok tooWide =>
    simp only [ok_bind]
    split
    · simp only [refuse_bind]
    · split
      · cases f.typeNameText <;> simp only [error_bind, ok_bind, Except.map]
      · rfl

theorem Makes.map_format (h : b.Makes f) : (b.synthesize f).map ValueType.format = .ok f := by
  obtain ⟨t, ht⟩ := h
  rw [ht]
  show Except.ok t.format = _
  rw [synthesize_format ht]

/-- The type that a request comes to: one that is there, or else what the binder makes. -/
theorem map_format_typeFor (htyped : Typed cache) (b : Binder) (f : Format) :
    ((b.typeFor f).runOn cache).1.map ValueType.format =
      if (cache.get? f).isSome then .ok f else (b.synthesize f).map ValueType.format := by
  show ((b.typeForFormat f).runOn cache).1.map ValueType.format = _
  cases hget : cache.get? f with
  | some t =>
    rw [runOn_typeForFormat_of_some b hget]
    show Except.ok t.format = _
    rw [htyped f t hget]
    rfl
  | none =>
    rw [runOn_typeForFormat_of_none b hget]
    cases b.synthesize f <;> rfl

/-- After a request a cache has the types that it had, and the one in question if the binder
can make it. -/
theorem isSome_get?_typeFor (b : Binder) (d : Descriptor) (g : Format) :
    (((b.typeFor d).runOn cache).2.get? g).isSome ↔
      (cache.get? g).isSome ∨ d = .format g ∧ b.Makes g := by
  cases d with
  | other v => simp [typeFor]
  | format f =>
    show (((b.typeForFormat f).runOn cache).2.get? g).isSome ↔ _
    have hdescriptor : (Descriptor.format f = .format g) ↔ f = g :=
      ⟨fun h => by injection h, fun h => by rw [h]⟩
    rw [hdescriptor]
    cases hget : cache.get? f with
    | some t =>
      -- nothing is made, and the type in question was there
      rw [runOn_typeForFormat_of_some b hget]
      constructor
      · exact fun h => .inl h
      · rintro (h | ⟨rfl, -⟩)
        · exact h
        · simp [hget]
    | none =>
      rw [runOn_typeForFormat_of_none b hget]
      cases hmake : b.synthesize f with
      | error e =>
        have hnot : ¬ b.Makes f := by
          rintro ⟨t, ht⟩
          rw [hmake] at ht
          cases ht
        rw [Cache.get?_leave, Cache.get?_enter]
        constructor
        · exact fun h => .inl h
        · rintro (h | ⟨rfl, h⟩)
          · exact h
          · exact absurd h hnot
      | ok t =>
        rw [Cache.get?_leave]
        by_cases hg : f = g
        · subst hg
          rw [Cache.get?_record_self]
          exact ⟨fun _ => .inr ⟨rfl, t, hmake⟩, fun _ => rfl⟩
        · rw [Cache.get?_record_of_ne hg, Cache.get?_enter]
          constructor
          · exact fun h => .inl h
          · rintro (h | ⟨h, -⟩)
            · exact h
            · exact absurd h hg

/-! ## All calls so far -/

variable {history : List (Binder × Call)}

theorem cachesAfter_concat (history : List (Binder × Call)) (e : Binder × Call) :
    cachesAfter (history ++ [e]) = serve (cachesAfter history) e := by
  rw [cachesAfter, List.foldl_append]
  rfl

theorem serve_origin (caches : ℕ → Cache ValueType) (e : Binder × Call) :
    serve caches e e.1.origin =
      ((e.1.typeFor e.2.descriptor).runOn (caches e.1.origin)).2 := by
  rw [serve, Function.update_self, Call.runOn_perform]

theorem serve_of_ne (caches : ℕ → Cache ValueType) {e : Binder × Call} {k : ℕ}
    (h : k ≠ e.1.origin) : serve caches e k = caches k := by
  rw [serve, Function.update_of_ne h]

/-- Calls lead to reachable caches. -/
theorem reached_cachesAfter (history : List (Binder × Call)) (k : ℕ) :
    Reached (cachesAfter history k) := by
  induction history using List.reverseRecOn with
  | nil => exact .empty
  | append_singleton history e ih =>
    rw [cachesAfter_concat]
    by_cases hk : k = e.1.origin
    · subst hk
      rw [serve_origin]
      exact ih.request e.1 e.2.descriptor
    · rwa [serve_of_ne _ hk]

/-- The types in a cache are those that one of the calls on it could make itself. -/
theorem isSome_cachesAfter_iff {k : ℕ} :
    ((cachesAfter history k).get? f).isSome ↔
      ∃ e ∈ history, e.1.origin = k ∧ e.2.descriptor = .format f ∧ e.1.Makes f := by
  induction history using List.reverseRecOn with
  | nil => simp [cachesAfter]
  | append_singleton history e ih =>
    rw [cachesAfter_concat]
    simp only [List.mem_append, List.mem_singleton, or_and_right, exists_or, exists_eq_left]
    by_cases hk : k = e.1.origin
    · subst hk
      rw [serve_origin, isSome_get?_typeFor, ih]
      simp
    · have hne : ¬ e.1.origin = k := fun h => hk h.symm
      rw [serve_of_ne _ hk, ih]
      simp [hne]

/-- A call that is not overruled has the type that a fresh binder makes. -/
theorem map_format_typeFor_of_not_overruled (k : ℕ) (h : ¬ Overruled history b f) :
    ((b.typeFor f).runOn (cachesAfter history b.origin)).1.map ValueType.format =
      (((⟨b.limit, k⟩ : Binder).typeFor f).runOn {}).1.map ValueType.format := by
  rw [map_format_typeFor (reached_cachesAfter history b.origin).typed,
    map_format_typeFor Reached.empty.typed, if_neg (c := (Cache.get? {} f).isSome) (by simp),
    ← map_format_synthesize b ⟨b.limit, k⟩ rfl]
  split
  · next hknown =>
    -- somebody made it, so the binder could have made it as well
    have hmakes : b.Makes f := by
      by_contra hnot
      exact h ⟨hnot, isSome_cachesAfter_iff.mp hknown⟩
    exact hmakes.map_format.symm
  · rfl

/-- Beyond its limit a binder makes no type. -/
theorem synthesize_of_limit_lt {n : ℤ} (hlimit : b.limit = .int n) (h : n < f.width) :
    b.synthesize f = refuse (.tooWide f (.int n)) := by
  have hgt : compare (f.width : ℤ) n = .gt := compare_gt_iff_gt.mpr h
  simp [synthesize, exceeds, hlimit, Datum.number?, Datum.Number.compare?, hgt]

/-- A call that is overruled has a type of the format all the same. -/
theorem map_format_typeFor_of_overruled (h : Overruled history b f) :
    ((b.typeFor f).runOn (cachesAfter history b.origin)).1.map ValueType.format = .ok f := by
  rw [map_format_typeFor (reached_cachesAfter history b.origin).typed,
    if_pos (isSome_cachesAfter_iff.mpr h.2)]

/-- On a fresh binder a call depends on what the binder makes of the format. -/
theorem outcome_nil {c : Call} (hd : c.descriptor = .format f) (b : Binder) :
    c.outcome b [] = (b.synthesize f).bind c.finish := by
  have hempty : ({} : Cache ValueType).get? f = none := rfl
  have hrun := runOn_typeForFormat_of_none b hempty
  rw [Call.outcome, Call.runOn_perform, hd]
  show ((b.typeForFormat f).runOn {}).1.bind c.finish = _
  rw [hrun]
  cases b.synthesize f <;> rfl

/-- A call that is not overruled comes to what it comes to on a fresh binder. -/
theorem outcome_of_not_overruled {c : Call} (k : ℕ)
    (h : ∀ f, c.descriptor = .format f → ¬ Overruled history b f) :
    c.outcome b history = c.outcome ⟨b.limit, k⟩ [] := by
  apply c.perform_congr
  cases hd : c.descriptor with
  | other v => rfl
  | format f => exact map_format_typeFor_of_not_overruled k (h f hd)

/-- A binder that is overruled returns the type. -/
theorem outcome_typeFor_of_overruled (h : Overruled history b f) :
    (Call.typeFor f).outcome b history = .ok (.ofType f) := by
  have hformat := map_format_typeFor_of_overruled h
  rw [Call.outcome, Call.runOn_perform, Call.descriptor]
  cases htype : ((b.typeFor f).runOn (cachesAfter history b.origin)).1 with
  | error e =>
    rw [htype] at hformat
    cases hformat
  | ok t =>
    rw [htype] at hformat
    injection hformat with hformat
    show Except.ok (Answer.ofType t.format) = _
    rw [hformat]

/-- What a binder cannot make is refused by all fresh binders of its limit. -/
theorem outcome_nil_of_not_makes {c : Call} (hd : c.descriptor = .format f) (h : ¬ b.Makes f)
    (k : ℕ) : ∃ e, b.synthesize f = .error e ∧ c.outcome ⟨b.limit, k⟩ [] = .error e := by
  cases hmake : b.synthesize f with
  | ok t => exact absurd ⟨t, hmake⟩ h
  | error e =>
    -- the marks of the binders differ, what they can make does not
    have hsame := map_format_synthesize b ⟨b.limit, k⟩ rfl f
    rw [hmake] at hsame
    refine ⟨e, rfl, ?_⟩
    rw [outcome_nil hd]
    cases hmake' : (⟨b.limit, k⟩ : Binder).synthesize f with
    | ok t =>
      rw [hmake'] at hsame
      cases hsame
    | error e' =>
      rw [hmake'] at hsame
      injection hsame with hsame
      rw [hsame]
      rfl

/-- A call that is overruled comes to what it comes to where the type can be made. -/
theorem outcome_of_overruled {c : Call} (hd : c.descriptor = .format f)
    (h : Overruled history b f) {wide : Binder} (hwide : wide.Makes f) :
    c.outcome b history = c.outcome wide [] := by
  apply c.perform_congr
  rw [hd, map_format_typeFor_of_overruled h]
  show _ = ((wide.typeFor f).runOn {}).1.map ValueType.format
  rw [map_format_typeFor Reached.empty.typed, if_neg (by simp), hwide.map_format]

/-- A call comes to what it comes to on a fresh binder of the same limit, unless the binder
is overruled; in particular a format beyond the limit is then refused. A binder that is
overruled gets the type that it would refuse, and every call comes to what it comes to on
a binder that can make the type. -/
theorem outcome_after (history : List (Binder × Call)) (b : Binder) (c : Call) (k : ℕ) :
    ((∀ f, c.descriptor = .format f → ¬ Overruled history b f) →
        c.outcome b history = c.outcome ⟨b.limit, k⟩ []) ∧
      (∀ (f : Format) (n : ℤ), c.descriptor = .format f → ¬ Overruled history b f →
        b.limit = .int n → n < f.width →
          c.outcome b history = .error (Fault.tooWide f (.int n)).settled) ∧
      ∀ f, c.descriptor = .format f → Overruled history b f →
        (Call.typeFor f).outcome b history = .ok (.ofType f) ∧
          (∃ e, b.synthesize f = .error e ∧ c.outcome ⟨b.limit, k⟩ [] = .error e) ∧
          ∀ wide : Binder, wide.Makes f → c.outcome b history = c.outcome wide [] := by
  refine ⟨outcome_of_not_overruled k, ?_, ?_⟩
  · intro f n hd h hlimit hlt
    have hfresh : c.outcome b history = c.outcome ⟨b.limit, k⟩ [] := by
      apply outcome_of_not_overruled
      intro g hg
      cases hd.symm.trans hg
      exact h
    rw [hfresh, outcome_nil hd, synthesize_of_limit_lt (b := ⟨b.limit, k⟩) hlimit hlt]
    rfl
  · intro f hd hover
    have hrefused := outcome_nil_of_not_makes hd hover.1 k
    exact ⟨outcome_typeFor_of_overruled hover, hrefused,
      fun wide hwide => outcome_of_overruled hd hover hwide⟩

/-- A binder with a limit of eight bits shares a cache with one of 1024 bits, which made a type
of 32 bits before: it then has that type too, and binds a half to it. -/
theorem outcome_after_wide_neighbour :
    let narrow : Binder := ⟨.int 8, 0⟩
    let wide : Binder := ⟨.int 1024, 0⟩
    let f : Format := ⟨true, 0, 31⟩
    let half : Call := .bind f (.ok (.ofRatio false 1 2))
    let history := [(wide, Call.typeFor f)]
    Overruled history narrow f ∧ (Call.typeFor f).outcome narrow history = .ok (.ofType f) ∧
      half.outcome narrow history = half.outcome wide [] ∧
      half.outcome narrow [] = .error (Fault.tooWide f (.int 8)).settled := by
  intro narrow wide f half history
  have hrefuses : narrow.synthesize f = .error (Fault.tooWide f (.int 8)).settled :=
    synthesize_of_limit_lt rfl (by decide)
  have hnarrow : ¬ narrow.Makes f := by
    rintro ⟨t, ht⟩
    rw [hrefuses] at ht
    cases ht
  have hwide : wide.Makes f := ⟨⟨f, 0, by decide⟩, eq_ok_of_toOption (by decide +kernel)⟩
  have hover : Overruled history narrow f :=
    ⟨hnarrow, (wide, .typeFor f), by simp [history], rfl, rfl, hwide⟩
  have hhalf := (outcome_after history narrow half 0).2.2 f rfl hover
  have hfirst := (outcome_after [] narrow half 0).2.1 f 8 rfl (by simp [Overruled]) rfl (by decide)
  exact ⟨hover, hhalf.1, hhalf.2.2 wide hwide, hfirst⟩

/-- Not every call comes to what it comes to on a fresh binder: a narrow binder gets the type
that it would refuse if a wide one made it before in their cache. -/
theorem not_forall_outcome_fresh :
    ¬ ∀ (history : List (Binder × Call)) (b : Binder) (c : Call) (k : ℕ),
      c.outcome b history = c.outcome ⟨b.limit, k⟩ [] := by
  intro hall
  let f : Format := ⟨true, 0, 31⟩
  have h := hall [(⟨.int 1024, 0⟩, .typeFor f)] ⟨.int 8, 0⟩ (.typeFor f) 0
  have hfound : ((Call.typeFor f).outcome ⟨.int 8, 0⟩
      [(⟨.int 1024, 0⟩, .typeFor f)]).toOption = some (.ofType f) := by
    decide +kernel
  have hrefused : ((Call.typeFor f).outcome ⟨.int 8, 0⟩ []).toOption = none := by
    decide +kernel
  rw [h, hrefused] at hfound
  cases hfound

end BinaryPoint.Binder
