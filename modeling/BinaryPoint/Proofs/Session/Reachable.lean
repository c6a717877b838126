import BinaryPoint.Proofs.Fixed
import BinaryPoint.Proofs.Session.Steps

/-! # What a session can come to

A session starts in a sound state, and every step leads from a sound state to a sound one. So
however many binders there are, with whatever limits and caches, after any steps the caches have
their types under their formats, and each value has its type in a cache, its scaled integer in
the range of its format, and a finite double in the same range.

* `Session.sound_start`, `Session.sound_after`: all states that a session can come to are sound;
* `Session.Represented`: what that means for a value;
* `Session.represented_after`: what a session has, after any steps and after one step more.
-/

namespace BinaryPoint.Session

open Growth

/-! ## The start -/

theorem length_numberCaches (seen : List (Option String)) (setups : List Setup) :
    (numberCaches seen setups).length = setups.length := by
  induction setups generalizing seen with
  | nil => rfl
  | cons s others ih =>
    rw [numberCaches]
    split
    · rw [List.length_cons, ih, List.length_cons]
    · rw [List.length_cons, ih, List.length_cons]

/-- No binder asks for more caches than there are binders. -/
theorem origin_lt_of_numberCaches {seen : List (Option String)} {setups : List Setup} :
    ∀ e ∈ numberCaches seen setups, e.2.origin < seen.length + setups.length := by
  induction setups generalizing seen with
  | nil => exact List.forall_mem_nil _
  | cons s others ih =>
    rw [numberCaches, List.length_cons]
    -- a binder shares the cache of an earlier one, or has the next one to itself
    split
    · next i _ hi =>
      have hlt : i < seen.length := (List.idxOf?_eq_some_iff.mp hi).1
      refine List.forall_mem_cons.mpr ⟨?_, fun e he => ?_⟩
      · show i < _
        omega
      · have := ih e he
        omega
    · refine List.forall_mem_cons.mpr ⟨?_, fun e he => ?_⟩
      · show seen.length < _
        omega
      · have := ih e he
        rw [List.length_append, List.length_singleton] at this
        omega

/-- A session starts with empty caches, and without values. -/
theorem sound_start (setups : List Setup) : (start setups).Sound where
  origins e he := by
    have hlt := origin_lt_of_numberCaches e he
    show e.2.origin < (List.replicate (numberCaches [] _).length _).length
    rwa [List.length_replicate, length_numberCaches, ← Nat.zero_add (List.length _)]
  caches i cache hcache := by
    have hempty : cache = {} := List.eq_of_mem_replicate (List.mem_of_getElem? hcache)
    rw [hempty]
    exact List.forall_mem_nil _
  operands := List.forall_mem_nil _

/-! ## Steps -/

/-- The state after steps that were run one after the other. -/
def after (steps : List Step) (s : State) : State :=
  steps.foldl (fun s step => (step.run.run s).2) s

theorem after_append (steps : List Step) (step : Step) (s : State) :
    after (steps ++ [step]) s = (step.run.run (after steps s)).2 := by
  rw [after, List.foldl_append]
  rfl

theorem runAll_append (steps : List Step) (step : Step) (s : State) :
    runAll (steps ++ [step]) s = runAll steps s ++ [(step.run.run (after steps s)).1] := by
  show runAll.go _ s = runAll.go _ s ++ _
  induction steps generalizing s with
  | nil => rfl
  | cons first others ih => exact congrArg ((first.run.run s).1 :: ·) (ih (first.run.run s).2)

/-- One step leads from a sound state to a sound one. -/
theorem sound_step {s : State} (hs : s.Sound) (step : Step) : (step.run.run s).2.Sound := by
  have hstep := performs_step step hs
  rcases hrun : step.run.run s with ⟨f | r, s'⟩
  · rw [hrun] at hstep
    exact hstep.1
  · rw [hrun] at hstep
    exact hstep.1

/-- And so do all steps of a session. -/
theorem sound_after {s : State} (hs : s.Sound) (steps : List Step) : (after steps s).Sound := by
  induction steps generalizing s with
  | nil => exact hs
  | cons step steps ih => exact ih (sound_step hs step)

/-! ## Values -/

/-- A value of a state: in the range of its format, of the type that its cache holds, and with a
finite double that is in the range of the format as well. -/
structure Represented (s : State) (v : Fixed) : Prop where
  range : v.format.rawMin ≤ v.raw ∧ v.raw ≤ v.format.rawMax
  bounded : v.format.integerBits < 1024
  known : s.Knows v.type
  finite : (Binder.unbind v).isFinite
  magnitude : |(Binder.unbind v).toRat| ≤ 2 ^ v.format.integerBits
  nonneg : v.format.signed = false → 0 ≤ (Binder.unbind v).toRat

theorem represented_of_knows {s : State} {v : Fixed} (h : s.Knows v.type) : Represented s v := by
  obtain ⟨hfinite, hlow, hhigh⟩ := v.toReal_bounds
  refine ⟨v.holds, v.type.bounded, h, hfinite, ?_, fun hunsigned => ?_⟩
  · exact abs_le.mpr ⟨v.format.neg_le_lowest.trans hlow, hhigh⟩
  · rwa [Format.lowest, hunsigned] at hlow

/-- All values in operands that are known are represented. -/
theorem represented_of_known {s : State} {os : List Operand} (h : ∀ o ∈ os, Known s o) :
    ∀ v ∈ os.flatMap Operand.values, Represented s v := by
  intro v hv
  obtain ⟨o, ho, hv⟩ := List.mem_flatMap.mp hv
  exact represented_of_knows (h o ho v hv)

/-- The step that turns the value in a register into its double does not fail. -/
theorem run_toReal {s : State} {e : String × Register} {v : Fixed} {serial : ℕ}
    (hfind : s.registers.find? (·.1 = e.1) = some e) (he : e.2 = .operand (.fixed v serial))
    {op : Unary} (hop : op = .unbind ∨ op = .float) (binder : String) :
    (Step.run { binder, action := .apply op (.register e.1) }).run s =
      (.ok (.operand (.plain (.real (Binder.unbind v)) s.serial)),
        { s with serial := s.serial + 1 }) := by
  have happly : applyUnary op (.fixed v serial) = newPlain (.real (Binder.unbind v)) := by
    rcases hop with rfl | rfl <;> rfl
  have hregister : (registerOf e.1).run s = (.ok (.operand (.fixed v serial)), s) := by
    have hget (f : State → Run Register) : (get >>= f).run s = (f s).run s := rfl
    rw [registerOf, hget, hfind, ← he]
    rfl
  -- the operand of the step is the value in the register
  have hoperand : (operandOf e.1).run s = (.ok (.fixed v serial), s) := by
    rw [operandOf, runState_bind, hregister]
    rfl
  have hperform : (perform binder "" (.apply op (.register e.1))).run s =
      (.ok (.operand (.plain (.real (Binder.unbind v)) s.serial)),
        { s with serial := s.serial + 1 }) := by
    show (operandOf e.1 >>= fun o => applyUnary op o >>= fun x => pure (Outcome.operand x)).run s =
      _
    rw [runState_bind, hoperand]
    dsimp only
    rw [happly]
    rfl
  rw [Step.run, runState_bind, hperform]
  rfl

/-- **All values are representable.** Whatever binders a session has and whatever steps it has
run, the entries of its caches are types under their own formats, and all its values are
represented, which `unbind` and `float` make use of without failing. After one more step the
values that come of it are represented too, or, if the step fails, registers and stores are what
they were, and so are all values in them. -/
theorem represented_after (setups : List Setup) (steps : List Step) :
    let s := after steps (start setups)
    (∀ cache ∈ s.caches, ∀ e ∈ cache.entries,
      ∃ t, e.2 = some t ∧ t.format = e.1 ∧ e.1.integerBits < 1024) ∧
    (∀ v ∈ s.values, Represented s v) ∧
    (∀ e v serial, s.registers.find? (·.1 = e.1) = some e → e.2 = .operand (.fixed v serial) →
      ∀ op ∈ [Unary.unbind, .float], ∀ binder,
        ∃ s', (Step.run { binder, action := .apply op (.register e.1) }).run s =
          (.ok (.operand (.plain (.real (Binder.unbind v)) s.serial)), s')) ∧
    ∀ step : Step,
      let s' := after (steps ++ [step]) (start setups)
      (∀ r, runAll (steps ++ [step]) (start setups) = runAll steps (start setups) ++ [.ok r] →
        ∀ v ∈ r.values, Represented s' v) ∧
      ∀ f, runAll (steps ++ [step]) (start setups) = runAll steps (start setups) ++ [.error f] →
        s'.stores = s.stores ∧ s'.registers = s.registers ∧ s'.values = s.values := by
  intro s
  have hs : s.Sound := sound_after (sound_start setups) steps
  refine ⟨fun cache hcache e he => ?_, represented_of_known hs.operands, ?_, fun step => ?_⟩
  · obtain ⟨i, hi⟩ := List.mem_iff_getElem?.mp hcache
    obtain ⟨t, ht, hformat, -⟩ := hs.caches i cache hi e he
    exact ⟨t, ht, hformat, hformat ▸ t.bounded⟩
  · -- both operators make one double
    intro e v serial hfind he op hop binder
    exact ⟨_, run_toReal hfind he (by simpa using hop) binder⟩
  · -- the last outcome of all is that of the last step
    have hstep := performs_step step hs
    rw [runAll_append, after_append]
    simp only [List.append_cancel_left_eq, List.cons.injEq, and_true]
    -- a step that fails has changed caches at most
    rcases hrun : step.run.run s with ⟨f | r, s'⟩
    · rw [hrun] at hstep
      constructor
      · rintro _ ⟨⟩
      · exact fun _ _ => ⟨hstep.2.stores, hstep.2.registers, hstep.2.values⟩
    · rw [hrun] at hstep
      constructor
      · rintro _ ⟨⟩
        exact represented_of_known hstep.2.2
      · rintro _ ⟨⟩

/-- A half is bound and doubled; doubled once more, it is out of range, and what there was is
left. -/
theorem represented_after_overflow :
    let q7 : FormatRef := .parts (.bool true) (.int 0) (.int 7)
    let double (source target : String) : Step :=
      { action := .combine .add (.register source) (.register source), target }
    let steps : List Step :=
      [{ action := .bind q7 (.value (.real (.ofRatio false 1 2))), target := "x" }, double "x" "y"]
    let s := after steps (start [])
    s.values.map (fun v => (v.format, v.raw)) = [(⟨true, 0, 7⟩, 128), (⟨true, 0, 7⟩, 64)] ∧
      (∀ v ∈ s.values, Represented s v) ∧
      (after (steps ++ [double "y" "x"]) (start [])).values = s.values := by
  intro q7 double steps s
  obtain ⟨-, hvalues, -, hstep⟩ := represented_after [] steps
  have hfails : ((double "y" "x").run.run s).1.toOption = none := by decide +kernel
  obtain ⟨f, hf⟩ := exists_error_of_toOption hfails
  refine ⟨by decide +kernel, hvalues, ((hstep (double "y" "x")).2 f ?_).2.2⟩
  rw [runAll_append, hf]

end BinaryPoint.Session
