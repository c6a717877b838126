import BinaryPoint.Proofs.Session.Sound
import BinaryPoint.Session.Action

/-! # Steps of a session

What each action does to a sound state. Whatever it computes, it does so before it changes a
register or a store, and the change itself does not fail: so a step either has its effect or
leaves registers and stores as they were.

* `learning_perform_bind` and the other lemmas of its kind: an action that only computes;
* `performs_sequence` and the other lemmas of its kind: an action that ends with a change;
* `performs_perform`, `performs_step`: any action, and the step that keeps its outcome.
-/

namespace BinaryPoint.Session

open Growth

/-- The operands that come of a step. -/
def Outcome.operands : Outcome → List Operand
  | operand o => [o]
  | contents entries => entries.map (·.2)
  | valueType _ | cache .. | stored => []

/-- All values that come of a step. -/
def Outcome.values (r : Outcome) : List Fixed := r.operands.flatMap Operand.values

/-- An outcome whose operands are known. -/
def KnownOutcome (s : State) (r : Outcome) : Prop := ∀ o ∈ r.operands, Known s o

variable {s : State}

theorem learning_operand {x : Run Operand} (h : learning.Yields s x Known) :
    learning.Yields s (x >>= fun o => pure (.operand o)) KnownOutcome :=
  h.bind fun _ _ _ _ ho => .pure fun _ => List.forall_mem_singleton.mpr ho

/-! ## Operators -/

theorem learning_refOperand (r : Ref) : learning.Yields s r.operand Known := by
  cases r with
  | register name => exact learning_operandOf name
  | value v => exact learning_newPlain v

theorem learning_refOperands (rs : List Ref) :
    learning.Yields s (rs.mapM Ref.operand) fun s' os => ∀ o ∈ os, Known s' o :=
  .mapM stable_known fun _ _ r _ => learning_refOperand r

/-- The outcome of an operator gets a serial number, unless it is an operand that there was. -/
theorem learning_settle {r : Operand.Outcome} (h : r.Typed s.Knows) :
    learning.Yields s (settle r) Known := by
  cases r with
  | fixed v => exact learning_newFixed h
  | plain v => exact learning_newPlain v
  | row items => exact learning_newRow h
  | same o => exact .pure fun _ => h

theorem learning_combine (op : Arithmetic) {a b : Operand} (ha : Known s a) (hb : Known s b) :
    learning.Yields s (combine op a b) Known := by
  unfold combine
  refine Yields.bind (Q := fun s' r => r.Typed s'.Knows) (.of fun _ r h => ?_)
    fun _ _ _ _ h => learning_settle h
  cases op with
  | add => exact .add ha hb h
  | sub => exact .sub ha h
  | mul => exact .mul ha hb h

theorem learning_truth (x : Except Fault Bool) : learning.Yields s (truth x) Known :=
  (learning_of x).bind fun _ b _ _ _ => learning_newPlain (.bool b)

/-- A sign operator that keeps the types of values. -/
theorem learning_signed (symbol : String) {onFixed : Fixed → Except Fault Fixed}
    (hfixed : ∀ v w, onFixed v = .ok w → w.type = v.type) (onPlain : Datum → Except Fault Datum)
    {o : Operand} (ho : Known s o) : learning.Yields s (signed symbol onFixed onPlain o) Known := by
  unfold signed
  split
  · next v serial =>
    have hv : learning.Yields s (Run.of (onFixed v)) fun s' w => s'.Knows w.type := by
      refine .of fun _ w hw => ?_
      rw [hfixed v w hw]
      exact Operand.typed_fixed.mp ho
    exact hv.bind fun _ _ _ _ h => learning_newFixed h
  · next v serial => exact (learning_of (onPlain v)).bind fun _ w _ _ _ => learning_newPlain w
  · exact learning_refuse _

theorem learning_pos {o : Operand} (ho : Known s o) :
    learning.Yields s (applyUnary .pos o) Known := by
  have hsame : learning.Yields s (pure o) Known := .pure fun _ => ho
  have hsigned : learning.Yields s (signed "unary +" .ok Datum.pos o) Known := by
    refine learning_signed _ (fun v w h => ?_) _ ho
    cases h
    rfl
  cases o with
  | fixed => exact hsame
  | row => exact hsigned
  | plain v =>
    cases v with
    | int | real => exact hsame
    | _ => exact hsigned

theorem learning_abs {o : Operand} (ho : Known s o) :
    learning.Yields s (applyUnary .abs o) Known := by
  have hsame : learning.Yields s (pure o) Known := .pure fun _ => ho
  have hsigned : learning.Yields s (signed "abs()" Fixed.abs Datum.abs o) Known :=
    learning_signed _ (fun _ _ => Fixed.type_of_abs) _ ho
  cases o with
  | fixed v serial =>
    -- a value that is not negative is returned as it is
    show learning.Yields s (if 0 ≤ v.raw then _ else _) Known
    split
    · exact hsame
    · exact hsigned
  | row => exact hsigned
  | plain v =>
    cases v with
    | int n =>
      show learning.Yields s (if 0 ≤ n then _ else _) Known
      split
      · exact hsame
      · exact learning_newPlain _
    | _ => exact hsigned

theorem learning_applyUnary (op : Unary) {o : Operand} (ho : Known s o) :
    learning.Yields s (applyUnary op o) Known := by
  have hsame : learning.Yields s (pure o) Known := .pure fun _ => ho
  cases op with
  | get => exact hsame
  | unbind => exact (learning_of _).bind fun _ _ _ _ _ => learning_newPlain _
  | neg => exact learning_signed _ (fun _ _ => Fixed.type_of_neg) _ ho
  | pos => exact learning_pos ho
  | abs => exact learning_abs ho
  | float =>
    have hreal : learning.Yields s (Run.of o.toReal >>= fun x => newPlain (.real x)) Known :=
      (learning_of _).bind fun _ x _ _ _ => learning_newPlain (.real x)
    cases o with
    | plain v =>
      cases v with
      -- a double is its own number
      | real => exact hsame
      | _ => exact hreal
    | _ => exact hreal
  | repr => exact (learning_of _).bind fun _ _ _ _ _ => learning_newPlain _
  | copy =>
    cases o with
    | plain v =>
      cases v with
      -- containers are copied, and all else is shared
      | list | map => exact learning_newPlain _
      | _ => exact hsame
    | _ => exact hsame
  | rebuild => exact learning_rebuild o

/-! ## Actions that compute -/

section Actions

variable (binder target : String)

theorem learning_perform_bind (f : FormatRef) (v : Ref) :
    learning.Yields s (perform binder target (.bind f v)) KnownOutcome := by
  refine (learning_of _).bind fun _ d _ _ _ => ?_
  refine (learning_refOperand v).bind fun _ o _ _ _ => ?_
  exact learning_operand (learning_bindOperand binder d o)

theorem learning_perform_bindAll (f : FormatRef) (vs : List Ref) :
    learning.Yields s (perform binder target (.bindAll f vs)) KnownOutcome := by
  refine (learning_of _).bind fun _ d _ _ _ => ?_
  refine (learning_refOperands vs).bind fun s' os _ _ _ => ?_
  have hvalues : learning.Yields s' (os.mapM (bindOperand binder d)) fun s'' os' =>
      ∀ o ∈ os', Known s'' o :=
    .mapM stable_known fun _ _ o _ => learning_bindOperand binder d o
  exact hvalues.bind fun _ _ _ _ h => learning_operand (learning_newRow h)

theorem learning_perform_reformat (v : Ref) (f : FormatRef) :
    learning.Yields s (perform binder target (.reformat v f)) KnownOutcome := by
  refine (learning_of _).bind fun _ d _ _ _ => ?_
  refine (learning_refOperand v).bind fun _ o _ _ _ => ?_
  refine (learning_of o.typed).bind fun _ v _ _ _ => ?_
  exact (learning_withBinder_value binder fun b _ => b.caching_reformat v d).bind
    fun _ _ _ _ h => learning_operand (learning_newFixed h)

theorem learning_perform_fromRaw (f : FormatRef) (raw : ℤ) :
    learning.Yields s (perform binder target (.fromRaw f raw)) KnownOutcome := by
  refine (learning_of _).bind fun _ d _ _ _ => ?_
  refine (learning_typeFor binder d).bind fun s' t _ _ ht => ?_
  -- the value is of the type that the binder has just given
  have hmake : learning.Yields s' (Run.of (Fixed.ofRaw t raw)) fun s'' v => s''.Knows v.type :=
    .of fun _ v hv => (Fixed.ofRaw_eq_ok_iff.mp hv).1 ▸ ht
  exact hmake.bind fun _ _ _ _ h => learning_operand (learning_newFixed h)

theorem learning_perform_combine (op : Arithmetic) (a b : Ref) :
    learning.Yields s (perform binder target (.combine op a b)) KnownOutcome := by
  refine (learning_refOperand a).bind fun s' a _ _ ha => ?_
  refine (learning_refOperand b).bind fun s'' b _ hle hb => ?_
  -- the first operand is still known after the second one was settled
  exact learning_operand (learning_combine op (stable_known s' s'' a hle ha) hb)

theorem learning_perform_ask (q : Question) (a b : Ref) :
    learning.Yields s (perform binder target (.ask q a b)) KnownOutcome := by
  refine (learning_refOperand a).bind fun _ a _ _ _ => ?_
  refine (learning_refOperand b).bind fun _ b _ _ _ => ?_
  exact learning_operand (learning_truth _)

theorem learning_perform_apply (op : Unary) (a : Ref) :
    learning.Yields s (perform binder target (.apply op a)) KnownOutcome :=
  (learning_refOperand a).bind fun _ _ _ _ ho => learning_operand (learning_applyUnary op ho)

theorem learning_perform_sort (values : List Ref) :
    learning.Yields s (perform binder target (.sort values)) KnownOutcome := by
  refine (learning_refOperands values).bind fun s' os _ _ hos => ?_
  have hsort : learning.Yields s' (Run.of (Operand.sort os)) fun s'' os' =>
      ∀ o ∈ os', Known s'' o :=
    .of fun _ os' h o ho => hos o (Operand.mem_of_sort h ho)
  exact hsort.bind fun _ _ _ _ h => learning_operand (learning_newRow h)

theorem learning_perform_typeFor (f : FormatRef) :
    learning.Yields s (perform binder target (.typeFor f)) KnownOutcome := by
  refine (learning_of _).bind fun _ d _ _ _ => ?_
  exact (learning_typeFor binder d).bind fun _ _ _ _ _ => .pure fun _ => List.forall_mem_nil _

/-- Types are not constructed, but the type is made before that is refused. -/
theorem learning_perform_construct (f : FormatRef) (args : List Ref) :
    learning.Yields s (perform binder target (.construct f args)) KnownOutcome := by
  refine (learning_of _).bind fun _ d _ _ _ => ?_
  refine (learning_refOperands args).bind fun _ _ _ _ _ => ?_
  exact (learning_typeFor binder d).bind fun _ _ _ _ _ => learning_refuse _

theorem learning_perform_setAttribute (a : Ref) (name : String) :
    learning.Yields s (perform binder target (.setAttribute a name)) KnownOutcome := by
  refine (learning_refOperand a).bind fun _ o _ _ _ => ?_
  cases o <;> exact learning_refuse _

theorem learning_perform_showCache :
    learning.Yields s (perform binder target .showCache) KnownOutcome := by
  refine (learning_binderOf binder).bind fun _ b _ _ _ => ?_
  exact Yields.get.bind fun _ _ _ _ _ => .pure fun _ => List.forall_mem_nil _

theorem learning_perform_read (adapter : String) (index : ℤ) :
    learning.Yields s (perform binder target (.read adapter index)) KnownOutcome :=
  (learning_adapterOf adapter).bind fun _ a _ _ _ => learning_operand (learning_readAt a index)

theorem learning_perform_contents (store : String) :
    learning.Yields s (perform binder target (.contents store)) KnownOutcome := by
  refine (learning_adapterOf store).bind fun _ a _ _ _ => ?_
  cases a with
  | store handle =>
    refine (learning_storeOf handle).bind fun _ store _ _ hstore => .pure fun _ o ho => ?_
    obtain ⟨e, he, rfl⟩ := List.mem_map.mp ho
    exact hstore e.2 (Store.mem_of_contents he)
  -- converted doubles have no contents of their own
  | floats => exact learning_refuse _

/-! ## Actions that change something -/

/-- A change after which there is nothing more to be done. -/
theorem finishes_stored {x : Run Unit} (h : Finishes s x fun _ _ => True) :
    Finishes s (x >>= fun _ => pure .stored) KnownOutcome :=
  h.bind fun _ _ _ _ _ => .of_learning (.pure fun _ => List.forall_mem_nil _) ⟨_, _, rfl⟩

theorem performs_sequence (items : List Ref) :
    Performs s (perform binder target (.sequence items)) KnownOutcome := by
  refine .bind (learning_refOperands items) fun s' os _ _ hos => ?_
  exact .of_finishes (finishes_stored (finishes_addStore target hos))

theorem performs_mapping (items : List (ℤ × Ref)) :
    Performs s (perform binder target (.mapping items)) KnownOutcome := by
  have hstable : learning.Stable fun s (e : ℤ × Operand) => Known s e.2 :=
    fun s' s'' e => stable_known s' s'' e.2
  have hentry : ∀ s', ∀ e : ℤ × Ref, learning.Yields s'
      (e.2.operand >>= fun o => pure (e.1, o)) fun s'' e' => Known s'' e'.2 :=
    fun s' e => (learning_refOperand e.2).bind fun _ _ _ _ ho => .pure fun _ => ho
  refine .bind (.mapM hstable fun s' _ e _ => hentry s' e) fun s' es _ _ hes => ?_
  refine .of_finishes (finishes_stored (finishes_addStore target fun o ho => ?_))
  -- an entry of the mapping is one of those that were given
  obtain ⟨e, he, rfl⟩ := List.mem_map.mp (Store.mem_of_ofEntries ho)
  exact hes e he

theorem performs_floats (inner : String) (f : FormatRef) :
    Performs s (perform binder target (.floats inner f)) KnownOutcome := by
  refine .bind (learning_of _) fun _ d _ _ _ => ?_
  refine .bind (learning_adapterOf inner) fun _ a _ _ _ => ?_
  refine .bind (learning_binderOf binder) fun _ _ _ _ _ => ?_
  exact .of_finishes (finishes_stored (finishes_fill target (List.forall_mem_nil _)))

/-- A constant of a built graph has values of types that the cache of the process holds. -/
theorem learning_constant {built : Program.Built} {name : String}
    (h : ∀ c ∈ built.graph.constants, ∀ v ∈ c.values, s.Knows v.type) :
    learning.Yields s (Run.of (built.graph.get name)) fun s' c => ∀ v ∈ c.values, s'.Knows v.type :=
  .of fun _ c hc => h c (Graph.mem_of_get hc)

theorem performs_constant (source name : String) :
    Performs s (perform binder target (.constant source name)) KnownOutcome := by
  refine .bind (learning_withBinder processBinder fun b _ =>
    Program.caching_compile .standard b source "<string>") fun s' built hs _ hbuilt => ?_
  obtain ⟨i, cache, hcache, hknown⟩ := hbuilt
  refine .bind (learning_constant fun c hc v hv => knows_of_cache hs hcache (hknown c hc v hv))
    fun s'' c _ _ hc => ?_
  have hown : learning.Yields s'' (c.values.mapM newFixed) fun s₃ os => ∀ o ∈ os, Known s₃ o :=
    .mapM stable_known fun s₃ hle v hv => learning_newFixed (hle.knows (hc v hv))
  refine .bind hown fun s₃ os _ _ hos => ?_
  -- the slots start out with the constant's own values
  refine .of_finishes (finishes_stored (finishes_addStore target ?_))
  exact List.forall_mem_append.mpr ⟨hos, hos⟩

theorem performs_write (adapter : String) (index : ℤ) (v : Ref) :
    Performs s (perform binder target (.write adapter index v)) KnownOutcome := by
  refine .bind (learning_adapterOf adapter) fun _ a _ _ _ => ?_
  refine .bind (learning_refOperand v) fun _ o _ _ ho => ?_
  -- a write may be refused, but nothing that comes behind it
  refine .andThen (performs_writeAt a index ho) fun _ _ _ _ => ?_
  exact .of_learning (learning_operand (learning_newPlain .null)) ⟨_, _, rfl⟩

/-- An action computes first and changes something last. -/
theorem performs_perform (a : Action) : Performs s (perform binder target a) KnownOutcome := by
  cases a with
  | bind f v => exact .of_learning (learning_perform_bind binder target f v)
  | bindAll f vs => exact .of_learning (learning_perform_bindAll binder target f vs)
  | reformat v f => exact .of_learning (learning_perform_reformat binder target v f)
  | fromRaw f raw => exact .of_learning (learning_perform_fromRaw binder target f raw)
  | combine op a b => exact .of_learning (learning_perform_combine binder target op a b)
  | ask q a b => exact .of_learning (learning_perform_ask binder target q a b)
  | apply op a => exact .of_learning (learning_perform_apply binder target op a)
  | sort values => exact .of_learning (learning_perform_sort binder target values)
  | typeFor f => exact .of_learning (learning_perform_typeFor binder target f)
  | construct f args => exact .of_learning (learning_perform_construct binder target f args)
  | constructBase => exact .of_learning (learning_refuse _)
  | setAttribute a name => exact .of_learning (learning_perform_setAttribute binder target a name)
  | showCache => exact .of_learning (learning_perform_showCache binder target)
  | read adapter index => exact .of_learning (learning_perform_read binder target adapter index)
  | contents store => exact .of_learning (learning_perform_contents binder target store)
  | sequence items => exact performs_sequence binder target items
  | mapping items => exact performs_mapping binder target items
  | floats inner f => exact performs_floats binder target inner f
  | constant source name => exact performs_constant binder target source name
  | write adapter index v => exact performs_write binder target adapter index v

end Actions

/-- A step has its effect, or leaves registers and stores as they were. -/
theorem performs_step (step : Step) : Performs s step.run KnownOutcome := by
  refine .andThen (performs_perform step.binder step.target step.action) fun s' r _ hr => ?_
  have hreturn : Finishes s' (pure r) KnownOutcome :=
    .of_learning (.pure fun _ => hr) ⟨_, _, rfl⟩
  cases r with
  | operand o =>
    show Finishes s' (if step.target ≠ "" then
      fill step.target (.operand o) >>= fun _ => pure (Outcome.operand o)
      else pure (.operand o)) _
    split
    · refine (finishes_fill (r := .operand o) step.target hr).bind fun s'' _ _ hgrown _ => ?_
      exact .of_learning (.pure fun _ o ho => hgrown.typed (hr o ho)) ⟨_, _, rfl⟩
    · exact hreturn
  | _ => exact hreturn

end BinaryPoint.Session
