import BinaryPoint.Proofs.Graph.Accuracy
import BinaryPoint.Proofs.Session.Steps
import BinaryPoint.Proofs.Storage

/-! # The slots of a constant

The slots of a constant start out with its values and are written one at a time. A write is
accepted if it brings a value of the constant's format to an index that means a slot; whatever
else is written is refused before anything is changed. So after any reads and writes the slots
are as many as the values of the constant and all of its format, a slot holds what was last
accepted for it, under whichever of its two indexes, and the constant is what it was.

* `Means`: the two indexes of a slot;
* `Access`, `afterAll`: reads and writes, and the state that they lead to;
* `Access.exists_leaves`, `Access.exists_leavesAll`: what one access makes of the slots, and what
  any number of them make;
* `slots_hold_last`: the slots of a constant of a built graph.
-/

namespace BinaryPoint

/-! ## Indexes -/

/-- An index means a slot of a row by its number, or counts to it from the end. -/
def Means (length k : ℕ) (index : ℤ) : Prop := k < length ∧ (index = k ∨ index = k - length)

theorem slot?_eq_some_iff {length k : ℕ} {index : ℤ} :
    slot? length index = some k ↔ Means length k index := by
  rw [slot?, Means]
  split <;> simp <;> omega

theorem slot?_eq_none_iff {length : ℕ} {index : ℤ} :
    slot? length index = none ↔ ∀ k, ¬ Means length k index := by
  simp only [← slot?_eq_some_iff, Option.eq_none_iff_forall_ne_some]

namespace Session

variable {s : State} {handle : ℕ} {store : Store} {name : String} {f : Format}
  {own items : List Operand} {k : ℕ} {o : Operand}

/-! ## Accesses -/

/-- A read or a write. -/
inductive Access
  | read (index : ℤ)
  | write (index : ℤ) (o : Operand)

namespace Access

/-- Performs an access. -/
def run (a : Adapter) : Access → Run Unit
  | read index => do let _ ← readAt a index
  | write index o => writeAt a index o

/-- What an access leaves of a store. -/
def leaves (store : Store) : Access → Store
  | read _ => store
  | write index o =>
    match store.write index o with
    | .ok store' => store'
    | .error _ => store

/-- The access writes a value of a format to a slot of a row. -/
def Puts (length : ℕ) (f : Format) (k : ℕ) (o : Operand) (x : Access) : Prop :=
  ∃ index, x = write index o ∧ Means length k index ∧ ∃ v, o.typed = .ok v ∧ v.format = f

/-- Of the accesses, the last one that puts anything into a slot puts this there. -/
def LastPut (accesses : List Access) (length : ℕ) (f : Format) (k : ℕ) (o : Operand) : Prop :=
  ∃ before x later, accesses = before ++ x :: later ∧ x.Puts length f k o ∧
    ∀ y ∈ later, ∀ o', ¬ y.Puts length f k o'

end Access

/-- The state after reads and writes, of which some may fail. -/
def afterAll (a : Adapter) (accesses : List Access) (s : State) : State :=
  accesses.foldl (fun s x => ((x.run a).run s).2) s

/-- The state with another store. -/
def State.withStore (s : State) (handle : ℕ) (store : Store) : State :=
  { s with stores := s.stores.set handle store }

/-! ### One access -/

theorem run_storeOf (h : s.stores[handle]? = some store) :
    (storeOf handle).run s = (.ok store, s) := by
  have hstore : (s.stores[handle]?).getD (.sequence []) = store := by rw [h, Option.getD_some]
  rw [← hstore]
  rfl

/-- Reading changes nothing. -/
theorem run_readAt_store (h : s.stores[handle]? = some store) (index : ℤ) :
    (readAt (.store handle) index).run s = (store.read index, s) := by
  rw [readAt, runState_bind, run_storeOf h]
  rfl

/-- Writing changes the store as a whole, or nothing. -/
theorem run_writeAt_store (h : s.stores[handle]? = some store) (index : ℤ) (o : Operand) :
    (writeAt (.store handle) index o).run s =
      match store.write index o with
      | .ok store' => (.ok (), s.withStore handle store')
      | .error e => (.error e, s) := by
  rw [writeAt, runState_bind, run_storeOf h]
  dsimp only
  cases store.write index o <;> rfl

theorem State.withStore_self (h : s.stores[handle]? = some store) :
    s.withStore handle store = s := by
  obtain ⟨hlt, rfl⟩ := List.getElem?_eq_some_iff.mp h
  rw [withStore, List.set_getElem_self]

theorem run_access (h : s.stores[handle]? = some store) (x : Access) :
    ((x.run (.store handle)).run s).2 = s.withStore handle (x.leaves store) := by
  cases x with
  | read index =>
    rw [Access.run, runState_bind, run_readAt_store h, Access.leaves, State.withStore_self h]
    cases store.read index <;> rfl
  | write index o =>
    rw [Access.run, run_writeAt_store h, Access.leaves]
    cases store.write index o with
    | ok store' => rfl
    | error e => exact (State.withStore_self h).symm

/-! ### Any number of accesses -/

/-- Nothing but the store that is accessed changes. -/
theorem afterAll_eq (h : s.stores[handle]? = some store) (accesses : List Access) :
    afterAll (.store handle) accesses s =
      s.withStore handle (accesses.foldl Access.leaves store) := by
  induction accesses generalizing s store with
  | nil => exact (State.withStore_self h).symm
  | cons x others ih =>
    have hlt := (List.getElem?_eq_some_iff.mp h).1
    have hset : (s.withStore handle (x.leaves store)).stores[handle]? = some (x.leaves store) :=
      List.getElem?_set_self hlt
    show afterAll (.store handle) others ((x.run (.store handle)).run s).2 = _
    rw [run_access h, ih hset, List.foldl_cons, State.withStore, State.withStore, State.withStore,
      List.set_set]

/-! ## Slots -/

theorem read_slots_of_means {index : ℤ} (hk : Means items.length k index)
    (ho : items[k]? = some o) : (Store.slots name f own items).read index = .ok o := by
  rw [Store.read, Store.readItem, slot?_eq_some_iff.mpr hk, Option.bind_some, ho]

theorem read_slots_of_none {index : ℤ} (h : ∀ k, ¬ Means items.length k index) :
    (Store.slots name f own items).read index = refuse (.readIndex index) := by
  rw [Store.read, Store.readItem, slot?_eq_none_iff.mpr h, Option.bind_none]

/-- A write to slots is accepted if it puts a value into one of them. -/
theorem exists_write_slots_iff {index : ℤ} :
    (∃ store', (Store.slots name f own items).write index o = .ok store') ↔
      ∃ k, (Access.write index o).Puts items.length f k o := by
  simp only [Store.write_slots_eq_ok_iff, Store.writeItem_eq_ok_iff, slot?_eq_some_iff]
  constructor
  · rintro ⟨store', htyped, items', ⟨k, hk, -⟩, -⟩
    exact ⟨k, index, rfl, hk, htyped⟩
  · rintro ⟨k, _, ⟨⟩, hk, htyped⟩
    exact ⟨_, htyped, _, ⟨k, hk, rfl⟩, rfl⟩

/-- Why a write to slots is refused: what is written is no value, or one of another format, or
there is no slot at the index. -/
def Refusal (name : String) (f : Format) (length : ℕ) (index : ℤ) (o : Operand) (e : Fault) :
    Prop :=
  o.typed = .error e ∨
    ∃ v, o.typed = .ok v ∧
      (v.format ≠ f ∧ e = Fault.settled (.slotFormat name f v.format) ∨
        v.format = f ∧ (∀ k, ¬ Means length k index) ∧ e = .writeIndex index)

theorem refusal_of_write_slots {index : ℤ} {e : Fault}
    (h : (Store.slots name f own items).write index o = .error e) :
    Refusal name f items.length index o e := by
  rw [Store.write] at h
  cases ho : o.typed with
  -- the operand is no value
  | error e' =>
    rw [ho, error_bind] at h
    exact .inl (ho.trans (congrArg Except.error (Except.error.inj h)))
  | ok v =>
    rw [ho, ok_bind] at h
    dsimp only at h
    refine .inr ⟨v, ho, ?_⟩
    split at h
    · -- a value of another format
      next hformat => exact .inl ⟨hformat, (Except.error.inj h).symm⟩
    · next hformat =>
      -- a value of the format, but no slot
      rw [Store.writeItem] at h
      split at h
      · cases h
      · next hnone =>
        rw [refuse_bind, refuse_of_worded rfl] at h
        exact .inr ⟨not_not.mp hformat, slot?_eq_none_iff.mp hnone, (Except.error.inj h).symm⟩

namespace Access

/-- An access leaves slots, as many as there were, all of them of the format if they were, and
with another operand only where it puts one. -/
theorem exists_leaves (x : Access) (name : String) (own : List Operand)
    (htyped : ∀ o ∈ items, ∃ v, o.typed = .ok v ∧ v.format = f) :
    ∃ items', x.leaves (.slots name f own items) = .slots name f own items' ∧
      items'.length = items.length ∧ (∀ o ∈ items', ∃ v, o.typed = .ok v ∧ v.format = f) ∧
      ∀ k, (∀ o, x.Puts items.length f k o → items'[k]? = some o) ∧
        ((∀ o, ¬ x.Puts items.length f k o) → items'[k]? = items[k]?) := by
  by_cases hputs : ∃ k o, x.Puts items.length f k o
  · obtain ⟨l, o, index, rfl, hl, ho⟩ := hputs
    have hwrite : (Store.slots name f own items).write index o =
        .ok (.slots name f own (items.set l o)) :=
      Store.write_slots_eq_ok_iff.mpr ⟨ho, _,
        Store.writeItem_eq_ok_iff.mpr ⟨l, slot?_eq_some_iff.mpr hl, rfl⟩, rfl⟩
    refine ⟨items.set l o, by rw [leaves, hwrite], List.length_set, ?_, fun k => ⟨?_, ?_⟩⟩
    · intro o' ho'
      rcases List.mem_or_eq_of_mem_set ho' with hold | rfl
      · exact htyped o' hold
      · exact ho
    · rintro _ ⟨_, ⟨⟩, hk, -⟩
      -- one index means one slot only
      obtain rfl : l = k := Option.some.inj
        ((slot?_eq_some_iff.mpr hl).symm.trans (slot?_eq_some_iff.mpr hk))
      exact List.getElem?_set_self hl.1
    · intro hnot
      have hne : l ≠ k := by
        rintro rfl
        exact hnot o ⟨index, rfl, hl, ho⟩
      exact List.getElem?_set_ne hne
  · have hsame : x.leaves (.slots name f own items) = .slots name f own items := by
      cases x with
      | read index => rfl
      | write index o =>
        rw [leaves]
        split
        · next store' hwrite =>
          obtain ⟨k, hk⟩ := exists_write_slots_iff.mp ⟨store', hwrite⟩
          exact absurd ⟨k, o, hk⟩ hputs
        · rfl
    exact ⟨items, hsame, rfl, htyped, fun k => ⟨fun o ho => absurd ⟨k, o, ho⟩ hputs, fun _ => rfl⟩⟩

/-- And so do any number of accesses: a slot has what was last put there, or what it had if
nothing was. -/
theorem exists_leavesAll (accesses : List Access) (name : String) (own : List Operand)
    (htyped : ∀ o ∈ items, ∃ v, o.typed = .ok v ∧ v.format = f) :
    ∃ items', accesses.foldl leaves (.slots name f own items) = .slots name f own items' ∧
      items'.length = items.length ∧ (∀ o ∈ items', ∃ v, o.typed = .ok v ∧ v.format = f) ∧
      ∀ k o, items'[k]? = some o → LastPut accesses items.length f k o ∨
        (∀ x ∈ accesses, ∀ o', ¬ x.Puts items.length f k o') ∧ items[k]? = some o := by
  -- from the end, since it is the last access that counts
  induction accesses using List.reverseRecOn with
  | nil => exact ⟨items, rfl, rfl, htyped, fun k o ho => .inr ⟨by simp, ho⟩⟩
  | append_singleton others x ih =>
    obtain ⟨between, hbetween, hlength, htyped', hothers⟩ := ih
    obtain ⟨items', hitems', hlength', htyped'', hslots⟩ := exists_leaves x name own htyped'
    rw [hlength] at hlength' hslots
    refine ⟨items', by rw [List.foldl_concat, hbetween, hitems'], hlength', htyped'', ?_⟩
    intro k o ho
    by_cases hputs : ∃ o', x.Puts items.length f k o'
    · obtain ⟨o', ho'⟩ := hputs
      obtain rfl : o' = o := Option.some.inj (((hslots k).1 o' ho').symm.trans ho)
      exact .inl ⟨others, x, [], rfl, ho', by simp⟩
    · rw [not_exists] at hputs
      rw [(hslots k).2 hputs] at ho
      rcases hothers k o ho with ⟨before, y, later, rfl, hy, hlater⟩ | ⟨hnone, ho⟩
      · refine .inl ⟨before, y, later ++ [x], by simp, hy, ?_⟩
        simpa [List.forall_mem_append, or_imp, forall_and] using ⟨hlater, hputs⟩
      · refine .inr ⟨?_, ho⟩
        simpa [List.forall_mem_append, or_imp, forall_and] using ⟨hnone, hputs⟩

end Access

/-! ## Constants -/

/-- Puts up the slots of a constant. -/
def openSlots (target : String) (c : Constant) : Run Unit := do
  let own ← c.values.mapM newFixed
  addStore target (.slots c.name c.format own own)

/-- This is what a session does that asks for the slots of a constant. -/
theorem perform_constant (binder target source name : String) :
    perform binder target (.constant source name) = (do
      let built ← withBinder processBinder fun b =>
        Program.compile .standard b source "<string>"
      let c ← Run.of (built.graph.get name)
      openSlots target c
      return .stored) := by
  simp only [perform, openSlots, bind_assoc]

/-- Values become operands, each with a number of its own. -/
theorem run_newFixeds (values : List Fixed) (s : State) :
    ∃ own serial, (values.mapM newFixed).run s = (.ok own, { s with serial := serial }) ∧
      own.map Operand.typed = values.map .ok := by
  induction values generalizing s with
  | nil => exact ⟨[], s.serial, rfl, rfl⟩
  | cons v values ih =>
    obtain ⟨own, serial, hrun, htyped⟩ := ih { s with serial := s.serial + 1 }
    refine ⟨.fixed v s.serial :: own, serial, ?_, ?_⟩
    · have hfirst : (newFixed v).run s = (.ok (.fixed v s.serial), { s with serial := s.serial + 1 }) :=
        rfl
      rw [List.mapM_cons, runState_bind, hfirst]
      dsimp only
      rw [runState_bind, hrun]
      rfl
    · rw [List.map_cons, List.map_cons, htyped]
      rfl

/-- A store that is put up comes behind all others, with an adapter in the register. -/
theorem exists_run_addStore (s : State) (target : String) (store : Store) :
    ∃ opened, (addStore target store).run s = (.ok (), opened) ∧
      opened.stores = s.stores ++ [store] ∧
      (adapterOf target).run opened = (.ok (.store s.stores.length), opened) := by
  refine ⟨{ s with stores := s.stores ++ [store],
                   registers := (target, .adapter (.store s.stores.length)) ::
                     s.registers.filter (·.1 ≠ target) }, rfl, rfl, ?_⟩
  have hget (f : State → Run Register) (s : State) : (get >>= f).run s = (f s).run s := rfl
  rw [adapterOf, runState_bind, registerOf, hget, List.find?_cons_of_pos (by simp)]
  rfl

/-- What the slots of a constant start out with. -/
theorem exists_run_openSlots (s : State) (target : String) (c : Constant) :
    ∃ own opened, (openSlots target c).run s = (.ok (), opened) ∧
      (adapterOf target).run opened = (.ok (.store s.stores.length), opened) ∧
      own.map Operand.typed = c.values.map .ok ∧
      opened.stores[s.stores.length]? = some (.slots c.name c.format own own) := by
  obtain ⟨own, serial, hown, htyped⟩ := run_newFixeds c.values s
  obtain ⟨opened, hopened, hstores, hadapter⟩ := exists_run_addStore { s with serial := serial }
    target (.slots c.name c.format own own)
  refine ⟨own, opened, ?_, hadapter, htyped, ?_⟩
  · rw [openSlots, runState_bind, hown, ← hopened]
  · rw [hstores]
    exact List.getElem?_concat_length

variable {config : Config} {b : Binder} {p : Program} {cache : Cache ValueType}
  {built : Program.Built}
  {c : Constant}

/-- The slots of a constant of a built graph, after any reads and writes: they are as many as
its values and all of its format; a read finds what was last put into the slot, or its own value
if nothing was; a write that puts nothing into a slot is refused and leaves all as it was; and
the constant has its own values. -/
theorem slots_hold_last (hcache : Binder.Reached cache)
    (h : ((p.build config b).runOn cache).1 = .ok built) (hc : c ∈ built.graph.constants)
    (s : State) (target : String) :
    let n := c.values.length
    let a := Adapter.store s.stores.length
    ∃ own opened, (openSlots target c).run s = (.ok (), opened) ∧
      (adapterOf target).run opened = (.ok a, opened) ∧
      own.map Operand.typed = c.values.map .ok ∧
      ∀ accesses, let s' := afterAll a accesses opened
        (∃ items, s' = opened.withStore s.stores.length (.slots c.name c.format own items) ∧
          items.length = n ∧ ∀ o ∈ items, ∃ v, o.typed = .ok v ∧ v.format = c.format) ∧
        (∀ index,
          (∃ k o, Means n k index ∧ (readAt a index).run s' = (.ok o, s') ∧
            (Access.LastPut accesses n c.format k o ∨
              (∀ x ∈ accesses, ∀ o', ¬ x.Puts n c.format k o') ∧ own[k]? = some o)) ∨
          (∀ k, ¬ Means n k index) ∧ (readAt a index).run s' = (.error (.readIndex index), s')) ∧
        ∀ index o,
          (∃ k, (Access.write index o).Puts n c.format k o) ∧
            ((writeAt a index o).run s').1 = .ok () ∨
          (¬ ∃ k, (Access.write index o).Puts n c.format k o) ∧
            ∃ e, (writeAt a index o).run s' = (.error e, s') ∧
              Refusal c.name c.format n index o e := by
  intro n a
  obtain ⟨own, opened, hopened, hadapter, hvalues, hstore⟩ := exists_run_openSlots s target c
  refine ⟨own, opened, hopened, hadapter, hvalues, fun accesses => ?_⟩
  have hlength : own.length = n := by
    simpa using congrArg List.length hvalues
  -- the first values of the slots are those of the constant, which are of its format
  have htyped : ∀ o ∈ own, ∃ v, o.typed = .ok v ∧ v.format = c.format := by
    intro o ho
    have hmem : o.typed ∈ c.values.map Except.ok := hvalues ▸ List.mem_map_of_mem ho
    obtain ⟨v, hv, hov⟩ := List.mem_map.mp hmem
    exact ⟨v, hov.symm, (Program.sound_of_build hcache h c hc).format_eq v hv⟩
  obtain ⟨items, hitems, hitemsLength, hitemsTyped, hslots⟩ :=
    Access.exists_leavesAll accesses c.name own htyped
  -- from here on all is about the slots that the accesses have left
  rw [hlength] at hitemsLength hslots
  intro s'
  have hs' : s' = opened.withStore s.stores.length (.slots c.name c.format own items) :=
    (afterAll_eq hstore accesses).trans (congrArg _ hitems)
  have hstore' : s'.stores[s.stores.length]? = some (.slots c.name c.format own items) := by
    rw [hs']
    exact List.getElem?_set_self (List.getElem?_eq_some_iff.mp hstore).1
  refine ⟨⟨items, hs', hitemsLength, hitemsTyped⟩, fun index => ?_, fun index o => ?_⟩
  · rw [run_readAt_store hstore']
    by_cases hmeans : ∃ k, Means n k index
    · obtain ⟨k, hk⟩ := hmeans
      have ho := List.getElem?_eq_getElem (hitemsLength ▸ hk.1 : k < items.length)
      exact .inl ⟨k, _, hk, by rw [read_slots_of_means (hitemsLength ▸ hk) ho], hslots k _ ho⟩
    · rw [not_exists] at hmeans
      rw [read_slots_of_none (hitemsLength ▸ hmeans), refuse_of_worded rfl]
      exact .inr ⟨hmeans, rfl⟩
  · have hputs : (∃ store', (Store.slots c.name c.format own items).write index o = .ok store') ↔
        ∃ k, (Access.write index o).Puts n c.format k o :=
      hitemsLength ▸ exists_write_slots_iff
    rw [← hputs, run_writeAt_store hstore']
    cases hwrite : (Store.slots c.name c.format own items).write index o with
    | ok store' => exact .inl ⟨⟨store', rfl⟩, rfl⟩
    | error e =>
      refine .inr ⟨by simp, e, rfl, ?_⟩
      exact hitemsLength ▸ refusal_of_write_slots hwrite

/-- The second of two slots has what was written to it last, the value of the first one, and not
what was refused; a third one is not there, and nothing but values goes into the first one. -/
theorem slots_hold_last_pair :
    let real (m : ℕ) : Expr := .real (.ofRatio false m 2) none
    let p : Program :=
      ⟨none, [⟨"S", .list [real 3, real 1] none, none, some (real 1), none⟩], none⟩
    ∃ built c first second opened,
      ((p.build .standard ⟨.int 1024, 0⟩).runOn {}).1 = .ok built ∧
      built.graph.constants = [c] ∧ c.values.length = 2 ∧
      (openSlots "slots" c).run (start []) = (.ok (), opened) ∧
      let s' := afterAll (.store 0)
        [.write 1 second, .write (-1) first, .write 2 second, .write 1 (.plain .null 9)] opened
      (readAt (.store 0) 1).run s' = (.ok first, s') ∧
        (readAt (.store 0) 2).run s' = (.error (.readIndex 2), s') ∧
        (writeAt (.store 0) 0 (.plain .null 9)).run s' =
          (.error (Fault.settled (.notTyped "NoneType")), s') := by
  intro real p
  have hlengths : ((p.build .standard ⟨.int 1024, 0⟩).runOn {}).1.toOption.map
      (fun built => built.graph.constants.map (·.values.length)) = some [2] := by decide +kernel
  obtain ⟨built, hbuilt, hconstants⟩ := Option.map_eq_some_iff.mp hlengths
  have h := eq_ok_of_toOption hbuilt
  obtain ⟨c, hc, hlength⟩ := List.map_eq_singleton_iff.mp hconstants
  obtain ⟨own, opened, hopened, -, hvalues, hall⟩ := slots_hold_last (c := c) .empty h
    (by rw [hc]; exact List.mem_singleton_self c) (start []) "slots"
  obtain ⟨v, w, hvw⟩ := List.length_eq_two.mp hlength
  obtain ⟨first, second, rfl⟩ : ∃ first second, own = [first, second] :=
    List.length_eq_two.mp (by simpa [hvw] using congrArg List.length hvalues)
  have hfirst : first.typed = .ok v := by simpa [hvw] using congrArg List.head? hvalues
  have hformat : v.format = c.format :=
    (Program.sound_of_build .empty h c (by simp [hc])).format_eq v (by simp [hvw])
  refine ⟨built, c, first, second, opened, h, hc, hlength, hopened, ?_⟩
  intro s'
  rw [hlength] at hall
  obtain ⟨-, hread, hwrite⟩ := hall
    [.write 1 second, .write (-1) first, .write 2 second, .write 1 (.plain .null 9)]
  refine ⟨?_, ?_, ?_⟩
  · obtain ⟨k, o, ⟨hk, hindex⟩, hrun, hslot⟩ | ⟨hnone, -⟩ := hread 1
    · obtain rfl : k = 1 := by omega
      -- the second write puts its value into the slot
      have hputs : (Access.write (-1) first).Puts 2 c.format 1 first :=
        ⟨-1, rfl, by simp [Means], v, hfirst, hformat⟩
      obtain ⟨before, x, later, hsplit, ⟨i, rfl, ⟨-, hi⟩, w, hw, -⟩, hlater⟩ | ⟨hnone, -⟩ := hslot
      · -- only it can be the last write to the slot: the third is out of range, the fourth is no
        -- value
        match before, hsplit with
        | [], hsplit =>
          cases hsplit
          exact absurd hputs (hlater _ (by simp) first)
        | [_], hsplit =>
          cases hsplit
          exact hrun
        | [_, _], hsplit =>
          cases hsplit
          omega
        | [_, _, _], hsplit =>
          cases hsplit
          cases hw
        | _ :: _ :: _ :: _ :: _, hsplit => simp at hsplit
      · exact absurd hputs (hnone _ (by simp) first)
    · exact absurd (by simp [Means]) (hnone 1)
  · obtain ⟨k, o, ⟨hk, hindex⟩, -⟩ | ⟨-, hrun⟩ := hread 2
    · omega
    · exact hrun
  · obtain ⟨⟨k, _, ⟨⟩, -, w, hw, -⟩, -⟩ | ⟨-, e, hrun, hrefusal⟩ := hwrite 0 (.plain .null 9)
    · cases hw
    · obtain he | ⟨w, hw, -⟩ := hrefusal
      · cases he
        exact hrun
      · cases hw

end Session

end BinaryPoint
