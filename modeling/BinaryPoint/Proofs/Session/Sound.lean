import BinaryPoint.Proofs.Binder.Caching
import BinaryPoint.Proofs.Operand.Values
import BinaryPoint.Session.Basic

/-! # Sound states of a session

In a sound state each cache has types of its own, each under its format, and the type of any
value is the one that its cache holds. Caches only grow. A computation that leaves registers and
stores alone is `learning`; what changes them in the end does not fail (`Finishes`), so that a
computation that does fail has left them as they were (`Performs`).
-/

namespace BinaryPoint.Session

open Binder (caching)
open Growth

variable {α β : Type}

/-! ## What a state holds -/

/-- The operand in a register, if there is one. -/
def Register.operands : Register → List Operand
  | operand o => [o]
  | adapter _ => []

namespace State

/-- All operands in the stores and registers of a state. -/
def operands (s : State) : List Operand :=
  s.stores.flatMap Store.operands ++ s.registers.flatMap fun e => e.2.operands

/-- All values in them. -/
def values (s : State) : List Fixed := s.operands.flatMap Operand.values

/-- The type is the one that its cache holds for its format. -/
def Knows (s : State) (t : ValueType) : Prop :=
  ∃ cache, s.caches[t.origin]? = some cache ∧ Binder.Knows cache t

/-- Every binder has its cache, every cache has types of its own, each under its format, and
all values are of types in their caches. -/
structure Sound (s : State) : Prop where
  origins : ∀ e ∈ s.binders, e.2.origin < s.caches.length
  caches : ∀ i cache, s.caches[i]? = some cache → (caching i).Good cache
  operands : ∀ o ∈ s.operands, o.Typed s.Knows

/-- Nothing is lost from the caches of a state. -/
structure Grown (s s' : State) : Prop where
  binders : s'.binders = s.binders
  caches : ∀ i cache, s.caches[i]? = some cache →
    ∃ cache', s'.caches[i]? = some cache' ∧ (caching i).Le cache cache'

/-- Nor is anything new in the registers and stores. -/
structure Learnt (s s' : State) : Prop extends Grown s s' where
  stores : s'.stores = s.stores
  registers : s'.registers = s.registers

variable {s s' s'' : State}

theorem Grown.refl (s : State) : s.Grown s := ⟨rfl, fun _ cache h => ⟨cache, h, fun _ _ h => h⟩⟩

theorem Grown.trans (h : s.Grown s') (h' : s'.Grown s'') : s.Grown s'' := by
  refine ⟨h'.binders.trans h.binders, fun i cache hcache => ?_⟩
  obtain ⟨cache', hcache', hle⟩ := h.caches i cache hcache
  obtain ⟨cache'', hcache'', hle'⟩ := h'.caches i cache' hcache'
  exact ⟨cache'', hcache'', (caching i).trans hle hle'⟩

theorem Grown.knows (h : s.Grown s') {t : ValueType} (ht : s.Knows t) : s'.Knows t := by
  obtain ⟨cache, hcache, hknows⟩ := ht
  obtain ⟨cache', hcache', hle⟩ := h.caches t.origin cache hcache
  exact ⟨cache', hcache', hle t.format t hknows⟩

theorem Grown.typed (h : s.Grown s') {o : Operand} (ho : o.Typed s.Knows) : o.Typed s'.Knows :=
  ho.mono fun _ => h.knows

theorem Learnt.operands (h : s.Learnt s') : s'.operands = s.operands := by
  rw [State.operands, State.operands, h.stores, h.registers]

theorem Learnt.values (h : s.Learnt s') : s'.values = s.values := by
  rw [State.values, State.values, h.operands]

/-- With the same caches, a state is sound if its new operands are of types in them. -/
theorem Sound.of_operands (hs : s.Sound) (hcaches : s'.caches = s.caches)
    (hbinders : s'.binders = s.binders)
    (h : ∀ o ∈ s'.operands, o ∈ s.operands ∨ o.Typed s.Knows) : s'.Sound where
  origins := by
    rw [hcaches, hbinders]
    exact hs.origins
  caches := by
    rw [hcaches]
    exact hs.caches
  operands o ho := by
    have hknows : s'.Knows = s.Knows := by
      funext t
      rw [State.Knows, State.Knows, hcaches]
    rw [hknows]
    exact (h o ho).elim (hs.operands o) id

theorem grown_of_caches (hcaches : s'.caches = s.caches) (hbinders : s'.binders = s.binders) :
    s.Grown s' :=
  ⟨hbinders, fun _ cache h => ⟨cache, hcaches ▸ h, fun _ _ h => h⟩⟩

end State

/-! ## Computations -/

/-- Computations that leave registers and stores alone. -/
def learning : Growth State where
  Good := State.Sound
  Le := State.Learnt
  refl s := ⟨.refl s, rfl, rfl⟩
  trans h h' := ⟨h.toGrown.trans h'.toGrown, h'.stores.trans h.stores,
    h'.registers.trans h.registers⟩

/-- The computation does not fail, and leaves a sound state. -/
def Finishes (s : State) (x : Run α) (Q : State → α → Prop) : Prop :=
  s.Sound → ∃ a s', x.run s = (.ok a, s') ∧ s'.Sound ∧ s.Grown s' ∧ Q s' a

/-- The computation leaves a sound state, and if it fails then it has left registers and stores
alone. -/
def Performs (s : State) (x : Run α) (Q : State → α → Prop) : Prop :=
  s.Sound →
    match x.run s with
    | (.ok a, s') => s'.Sound ∧ s.Grown s' ∧ Q s' a
    | (.error _, s') => s'.Sound ∧ s.Learnt s'

namespace Finishes

variable {s : State} {x : Run α} {f : α → Run β} {Q : State → α → Prop} {R : State → β → Prop}

theorem of_learning (h : learning.Yields s x Q) (hx : ∃ a s', x.run s = (.ok a, s')) :
    Finishes s x Q := by
  intro hs
  obtain ⟨a, s', hrun⟩ := hx
  obtain ⟨hsound, hlearnt, hreturns⟩ := h hs
  rw [hrun] at hsound hlearnt hreturns
  exact ⟨a, s', hrun, hsound, hlearnt.toGrown, hreturns a rfl⟩

protected theorem bind (hx : Finishes s x Q)
    (hf : ∀ s' a, s'.Sound → s.Grown s' → Q s' a → Finishes s' (f a) R) :
    Finishes s (x >>= f) R := by
  intro hs
  obtain ⟨a, s', hrun, hsound, hgrown, ha⟩ := hx hs
  obtain ⟨b, s'', hrun', hsound', hgrown', hb⟩ := hf s' a hsound hgrown ha hsound
  refine ⟨b, s'', ?_, hsound', hgrown.trans hgrown', hb⟩
  rw [runState_bind, hrun]
  exact hrun'

end Finishes

namespace Performs

variable {s : State} {x : Run α} {f : α → Run β} {Q : State → α → Prop} {R : State → β → Prop}

theorem of_learning (h : learning.Yields s x Q) : Performs s x Q := by
  intro hs
  obtain ⟨hsound, hlearnt, hreturns⟩ := h hs
  rcases hrun : x.run s with ⟨e | a, s'⟩
  · rw [hrun] at hsound hlearnt
    exact ⟨hsound, hlearnt⟩
  · rw [hrun] at hsound hlearnt hreturns
    exact ⟨hsound, hlearnt.toGrown, hreturns a rfl⟩

theorem of_finishes (h : Finishes s x Q) : Performs s x Q := by
  intro hs
  obtain ⟨a, s', hrun, h⟩ := h hs
  rw [hrun]
  exact h

/-- A computation that leaves registers and stores alone may come first. -/
protected theorem bind (hx : learning.Yields s x Q)
    (hf : ∀ s' a, s'.Sound → s.Learnt s' → Q s' a → Performs s' (f a) R) :
    Performs s (x >>= f) R := by
  intro hs
  obtain ⟨hsound, hlearnt, hreturns⟩ := hx hs
  rw [runState_bind]
  rcases hrun : x.run s with ⟨e | a, s'⟩
  · rw [hrun] at hsound hlearnt
    exact ⟨hsound, hlearnt⟩
  · -- whether the second one fails or not, the first one has stored nothing
    rw [hrun] at hsound hlearnt hreturns
    have hrest := hf s' a hsound hlearnt (hreturns a rfl) hsound
    dsimp only
    rcases hrun' : (f a).run s' with ⟨e | b, s''⟩
    · rw [hrun'] at hrest
      exact ⟨hrest.1, learning.trans hlearnt hrest.2⟩
    · rw [hrun'] at hrest
      exact ⟨hrest.1, hlearnt.toGrown.trans hrest.2.1, hrest.2.2⟩

/-- One that does not fail may come last. -/
theorem andThen (hx : Performs s x Q)
    (hf : ∀ s' a, s'.Sound → Q s' a → Finishes s' (f a) R) : Performs s (x >>= f) R := by
  intro hs
  have hfirst := hx hs
  rw [runState_bind]
  rcases hrun : x.run s with ⟨e | a, s'⟩
  · rw [hrun] at hfirst
    exact hfirst
  · rw [hrun] at hfirst
    obtain ⟨hsound, hgrown, ha⟩ := hfirst
    obtain ⟨b, s'', hrun', hsound', hgrown', hb⟩ := hf s' a hsound ha hsound
    dsimp only
    rw [hrun']
    exact ⟨hsound', hgrown.trans hgrown', hb⟩

end Performs

/-! ## Primitives -/

/-- An operand whose values are of types in their caches. -/
def Known (s : State) (o : Operand) : Prop := o.Typed s.Knows

theorem stable_known : learning.Stable Known := fun _ _ _ h ho => h.toGrown.typed ho

section Primitives

variable {s : State}

/-- A computation that does not touch the session, with anything as its result. -/
theorem learning_of (r : Except Fault α) : learning.Yields s (Run.of r) fun _ _ => True :=
  .of fun _ _ _ => trivial

/-- A refusal has no result, so anything holds of it. -/
theorem learning_refuse {Q : State → α → Prop} (f : Fault) :
    learning.Yields s (Run.of (refuse f)) Q :=
  .of fun _ _ h => absurd h (refuse_ne_ok _ _)

theorem learning_freshSerial : learning.Yields s freshSerial fun _ _ => True := by
  intro hs
  refine ⟨hs.of_operands rfl rfl fun o ho => .inl ho, ?_, fun _ _ => trivial⟩
  exact ⟨State.grown_of_caches rfl rfl, rfl, rfl⟩

theorem learning_newFixed {v : Fixed} (h : s.Knows v.type) :
    learning.Yields s (newFixed v) Known := by
  refine learning_freshSerial.bind fun s' n _ hle _ => .pure fun _ => ?_
  exact Operand.typed_fixed.mpr (hle.knows h)

theorem learning_newPlain (v : Datum) : learning.Yields s (newPlain v) Known :=
  learning_freshSerial.bind fun _ _ _ _ _ => .pure fun _ => Operand.typed_plain

theorem learning_newRow {items : List Operand} (h : ∀ o ∈ items, Known s o) :
    learning.Yields s (newRow items) Known := by
  refine learning_freshSerial.bind fun s' n _ hle _ => .pure fun _ => ?_
  exact Operand.typed_row.mpr (stable_known.all s s' items hle h)

/-- A binder that is found is one of those that the session has. -/
theorem learning_binderOf (name : String) :
    learning.Yields s (binderOf name) fun s' b => ∃ e ∈ s'.binders, e.2 = b := by
  refine Yields.get.bind fun s' a _ _ ha => ?_
  subst ha
  split
  · next e hfind => exact .pure fun _ => ⟨e, List.mem_of_find?_eq_some hfind, rfl⟩
  · exact learning_refuse _

/-- A state in which one of the caches has grown. -/
theorem learnt_set {i : ℕ} {cache cache' : Cache ValueType} (hs : s.Sound)
    (hcache : s.caches[i]? = some cache) (hgood : (caching i).Good cache')
    (hle : (caching i).Le cache cache') :
    State.Sound { s with caches := s.caches.set i cache' } ∧
      s.Learnt { s with caches := s.caches.set i cache' } := by
  obtain ⟨hi, -⟩ := List.getElem?_eq_some_iff.mp hcache
  have hself : (s.caches.set i cache')[i]? = some cache' := List.getElem?_set_self hi
  have hothers : ∀ j, i ≠ j → (s.caches.set i cache')[j]? = s.caches[j]? :=
    fun j hne => List.getElem?_set_ne hne
  have hlearnt : s.Learnt { s with caches := s.caches.set i cache' } := by
    refine ⟨⟨rfl, fun j cache'' hj => ?_⟩, rfl, rfl⟩
    by_cases hij : i = j
    · subst hij
      cases hcache.symm.trans hj
      exact ⟨cache', hself, hle⟩
    · exact ⟨cache'', (hothers j hij).trans hj, (caching j).refl _⟩
  -- the operands are the same, and their types are still known
  refine ⟨⟨?_, fun j cache'' hj => ?_, fun o ho => ?_⟩, hlearnt⟩
  · rw [List.length_set]
    exact hs.origins
  · by_cases hij : i = j
    · subst hij
      cases hself.symm.trans hj
      exact hgood
    · exact hs.caches j cache'' ((hothers j hij).symm.trans hj)
  · exact hlearnt.typed (hs.operands o ho)

theorem run_set_of (s s' : State) (r : Except Fault α) :
    (do set s'; Run.of r : Run α).run s = (r, s') := rfl

/-- Work on the cache of a binder. -/
theorem learning_withBinder (name : String) {work : Binder → Binder.Binding α}
    {Q : Cache ValueType → α → Prop}
    (hwork : ∀ b cache, (caching b.origin).Yields cache (work b) Q) :
    learning.Yields s (withBinder name work) fun s' a =>
      ∃ (i : ℕ) (cache : Cache ValueType), s'.caches[i]? = some cache ∧ Q cache a := by
  refine (learning_binderOf name).bind fun s b _ _ hb => ?_
  obtain ⟨e, he, rfl⟩ := hb
  refine Yields.get.bind fun s' a _ hle ha hs => ?_
  subst ha
  rw [← hle.binders] at he
  obtain ⟨cache, hcache⟩ : ∃ cache, a.caches[e.2.origin]? = some cache :=
    ⟨_, List.getElem?_eq_getElem (hs.origins e he)⟩
  -- the work is done on the cache of the binder, which is put back
  obtain ⟨hgood, hle, hreturns⟩ := hwork e.2 cache (hs.caches _ _ hcache)
  obtain ⟨hsound, hlearnt⟩ := learnt_set hs hcache hgood hle
  have hself := List.getElem?_set_self (a := ((work e.2).run cache).2)
    (List.getElem?_eq_some_iff.mp hcache).1
  dsimp only
  rw [run_set_of, hcache]
  exact ⟨hsound, hlearnt, fun a ha => ⟨e.2.origin, _, hself, hreturns a ha⟩⟩

/-- What a cache holds belongs to that cache. -/
theorem knows_of_cache (hs : s.Sound) {i : ℕ} {cache : Cache ValueType}
    (hcache : s.caches[i]? = some cache) {t : ValueType} (h : Binder.Knows cache t) :
    s.Knows t := by
  obtain ⟨-, rfl⟩ := Binder.format_of_get? (hs.caches i cache hcache) h
  exact ⟨cache, hcache, h⟩

/-- Work that makes a value leaves its type in the cache. -/
theorem learning_withBinder_value (name : String) {work : Binder → Binder.Binding Fixed}
    (hwork : ∀ b cache, (caching b.origin).Yields cache (work b) Binder.KnowsValue) :
    learning.Yields s (withBinder name work) fun s' v => s'.Knows v.type :=
  (learning_withBinder name hwork).mono fun _ _ hs ⟨_, _, hcache, h⟩ => knows_of_cache hs hcache h

/-- The type that a binder returns is in its cache. -/
theorem learning_typeFor (name : String) (d : Descriptor) :
    learning.Yields s (withBinder name fun b => b.typeFor d) State.Knows :=
  (learning_withBinder name fun b _ => b.caching_typeFor d).mono
    fun _ _ hs ⟨_, _, hcache, h⟩ => knows_of_cache hs hcache h

/-! ## Registers and stores -/

theorem learning_registerOf (name : String) :
    learning.Yields s (registerOf name) fun s' r => ∀ o ∈ r.operands, Known s' o := by
  refine Yields.get.bind fun s' a hs _ ha => ?_
  subst ha
  split
  · next e hfind =>
    refine .pure fun _ o ho => hs.operands o ?_
    exact List.mem_append_right _
      (List.mem_flatMap.mpr ⟨e, List.mem_of_find?_eq_some hfind, ho⟩)
  · exact learning_refuse _

theorem learning_operandOf (name : String) : learning.Yields s (operandOf name) Known := by
  refine (learning_registerOf name).bind fun s' r _ _ hr => ?_
  cases r with
  | operand o => exact .pure fun _ => hr o (List.mem_singleton_self o)
  | adapter a => exact learning_refuse _

theorem learning_adapterOf (name : String) :
    learning.Yields s (adapterOf name) fun _ _ => True := by
  refine (learning_registerOf name).bind fun s' r _ _ _ => ?_
  cases r with
  | operand o => exact learning_of _
  | adapter a => exact .pure fun _ => trivial

/-- All operands in a store that is found are known. -/
theorem learning_storeOf (handle : ℕ) :
    learning.Yields s (storeOf handle) fun s' store => ∀ o ∈ store.operands, Known s' o := by
  refine Yields.get.bind fun s' a hs _ ha => .pure fun _ o ho => ?_
  subst ha
  cases hstore : a.stores[handle]? with
  | none =>
    rw [hstore] at ho
    cases ho
  | some store =>
    rw [hstore] at ho
    exact hs.operands o (List.mem_append_left _
      (List.mem_flatMap.mpr ⟨store, List.mem_of_getElem? hstore, ho⟩))

/-- A register is filled with operands that are known. -/
theorem finishes_fill (name : String) {r : Register} (h : ∀ o ∈ r.operands, Known s o) :
    Finishes s (fill name r) fun _ _ => True := by
  intro hs
  refine ⟨(), _, rfl, hs.of_operands rfl rfl fun o ho => ?_, State.grown_of_caches rfl rfl, trivial⟩
  rcases List.mem_append.mp ho with hstore | hregister
  · exact .inl (List.mem_append_left _ hstore)
  · obtain ⟨e, he, ho⟩ := List.mem_flatMap.mp hregister
    rcases List.mem_cons.mp he with rfl | he
    · exact .inr (h o ho)
    · have hold : e ∈ s.registers := (List.mem_filter.mp he).1
      exact .inl (List.mem_append_right _ (List.mem_flatMap.mpr ⟨e, hold, ho⟩))

/-- A store is put up with operands that are known. -/
theorem finishes_addStore (name : String) {store : Store} (h : ∀ o ∈ store.operands, Known s o) :
    Finishes s (addStore name store) fun _ _ => True := by
  intro hs
  have hsame : s.Grown { s with stores := s.stores ++ [store] } :=
    State.grown_of_caches rfl rfl
  have hstores : State.Sound { s with stores := s.stores ++ [store] } := by
    refine hs.of_operands rfl rfl fun o ho => ?_
    rw [State.operands, List.flatMap_append, List.flatMap_singleton, List.append_assoc] at ho
    -- an operand of a register, of the new store or of an earlier one
    rcases List.mem_append.mp ho with hold | hnew
    · exact .inl (List.mem_append_left _ hold)
    · rcases List.mem_append.mp hnew with hnew | hold
      · exact .inr (h o hnew)
      · exact .inl (List.mem_append_right _ hold)
  obtain ⟨_, s', hrun, hsound, hgrown, -⟩ := finishes_fill (r := .adapter (.store s.stores.length))
    name (List.forall_mem_nil _) hstores
  exact ⟨(), s', hrun, hsound, hsame.trans hgrown, trivial⟩

end Primitives

/-! ## Binding and storage -/

section Storage

variable {s : State}

theorem learning_bindOperand (binder : String) (d : Descriptor) (o : Operand) :
    learning.Yields s (bindOperand binder d o) Known :=
  (learning_withBinder_value binder fun b _ => b.caching_bindNumber d o.toReal).bind
    fun _ _ _ _ h => learning_newFixed h

/-- What is read from a store was known before; a double from it becomes a value that is. -/
theorem learning_readAt (a : Adapter) (index : ℤ) : learning.Yields s (readAt a index) Known := by
  induction a generalizing s with
  | store handle =>
    exact (learning_storeOf handle).bind fun _ store _ _ hstore =>
      .of fun _ o ho => hstore o (Store.mem_of_read ho)
  | floats inner binder d ih => exact ih.bind fun _ o _ _ _ => learning_bindOperand binder d o

/-- A store is given another operand, which is known. -/
theorem finishes_setStore {handle : ℕ} {store : Store}
    (h : ∀ o ∈ store.operands, Known s o) :
    Finishes s (modify fun s => { s with stores := s.stores.set handle store } : Run Unit)
      fun _ _ => True := by
  intro hs
  refine ⟨(), _, rfl, hs.of_operands rfl rfl fun o ho => ?_, State.grown_of_caches rfl rfl, trivial⟩
  rcases List.mem_append.mp ho with hstore | hregister
  · obtain ⟨store', hmem, hin⟩ := List.mem_flatMap.mp hstore
    rcases List.mem_or_eq_of_mem_set hmem with hold | rfl
    · exact .inl (List.mem_append_left _ (List.mem_flatMap.mpr ⟨store', hold, hin⟩))
    · exact .inr (h o hin)
  · exact .inl (List.mem_append_right _ hregister)

/-- An operand that is known is written, or registers and stores stay as they were. -/
theorem performs_writeAt (a : Adapter) (index : ℤ) {o : Operand} (ho : Known s o) :
    Performs s (writeAt a index o) fun _ _ => True := by
  induction a generalizing s o with
  | store handle =>
    refine Performs.bind (learning_storeOf handle) fun s' store _ hle hstore => ?_
    have ho : Known s' o := stable_known s s' o hle ho
    refine Performs.bind (Q := fun s'' store' => ∀ o' ∈ store'.operands, Known s'' o')
      (.of fun _ store' hwrite o' ho' => ?_) fun _ _ _ _ h => .of_finishes (finishes_setStore h)
    rcases Store.mem_of_write hwrite ho' with rfl | hold
    · exact ho
    · exact hstore o' hold
  | floats inner binder d ih =>
    refine Performs.bind (learning_of o.typed) fun s' v _ _ _ => ?_
    exact Performs.bind (learning_newPlain _) fun s'' w _ _ hw => ih hw

mutual
/-- A rebuilt operand has values that the binder of the process has types for. -/
theorem learning_rebuild {s : State} : ∀ o : Operand, learning.Yields s (rebuild o) Known
  | .fixed v _ => by
    rw [rebuild]
    exact (learning_withBinder_value _ fun b _ => b.caching_restore _ _).bind
      fun _ _ _ _ h => learning_newFixed h
  | .plain v _ => by
    rw [rebuild]
    exact learning_newPlain v
  | .row items _ => by
    rw [rebuild]
    exact (learning_rebuildItems items).bind fun _ _ _ _ h => learning_newRow h

theorem learning_rebuildItems {s : State} :
    ∀ os : List Operand, learning.Yields s (rebuildItems os) fun s' os' => ∀ o ∈ os', Known s' o
  | [] => by
    rw [rebuildItems]
    exact .pure fun _ => List.forall_mem_nil _
  | o :: os => by
    rw [rebuildItems]
    refine (learning_rebuild o).bind fun s' o' _ _ ho => ?_
    refine (learning_rebuildItems os).bind fun s'' os' _ hle hos => .pure fun _ => ?_
    exact List.forall_mem_cons.mpr ⟨stable_known s' s'' o' hle ho, hos⟩
end

end Storage

end BinaryPoint.Session
