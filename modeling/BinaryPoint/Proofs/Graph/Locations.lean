import BinaryPoint.Graph.Build
import BinaryPoint.Proofs.Binder.Answers
import BinaryPoint.Proofs.Faults
import BinaryPoint.Proofs.Program.Grammar

/-! # Where faults point

A fault that carries a position has it from a part of the declaration that failed, and the parts
of a declaration have theirs from its tokens. So whatever is reported of a declaration points to
one of its tokens.

* `Fault.PlacedIn`: faults that carry one of some positions, or none;
* `Decl.placed_build`: the faults of building a declaration;
* `Decl.Derives.places_subset`: the positions in a declaration are those of tokens.
-/

namespace BinaryPoint

variable {α β : Type} {E : Fault → Prop} {ps : List Location}

/-! ## Faults -/

/-- The position that the fault carries, if it carries one, is one of those given. -/
def Fault.PlacedIn (ps : List Location) (f : Fault) : Prop := ∀ p, f.place? = some p → p ∈ ps

/-- A fault that carries no position may stand for any. -/
theorem Fault.placedIn_of_none {f : Fault} (h : f.place? = none) : f.PlacedIn ps :=
  fun _ hp => nomatch h.symm.trans hp

theorem AtWorst.refuse_placed {f : Fault} (h : f.PlacedIn ps) :
    AtWorst (·.PlacedIn ps) (BinaryPoint.refuse f : Except Fault α) := by
  apply AtWorst.refuse
  rw [Fault.settled]
  split
  · exact h
  · exact Fault.placedIn_of_none rfl

theorem AtWorst.refuse_unplaced {f : Fault} (h : f.place? = none) :
    AtWorst (·.place? = none) (BinaryPoint.refuse f : Except Fault α) := by
  apply AtWorst.refuse
  rw [Fault.settled]
  split
  · exact h
  · rfl

/-- Nothing comes after a fault. -/
theorem AtWorst.guard {f : Fault} {g : α → Except Fault β}
    (h : AtWorst E (BinaryPoint.refuse f : Except Fault α)) :
    AtWorst E ((BinaryPoint.refuse f : Except Fault α) >>= g) :=
  AtWorst.refuse (h f.settled rfl)

theorem AtWorst.placed {x : Except Fault α} (h : AtWorst (·.place? = none) x) :
    AtWorst (·.PlacedIn ps) x := h.mono fun _ => Fault.placedIn_of_none

/-- The faults of a part are placed in the whole. -/
theorem AtWorst.widen {x : Except Fault α} {ps' : List Location} (h : AtWorst (·.PlacedIn ps) x)
    (hsub : ps ⊆ ps') : AtWorst (·.PlacedIn ps') x :=
  h.mono fun _ hf p hp => hsub (hf p hp)

/-! ## Formats, inference and rounding carry none -/

theorem Format.unplaced_checkWidth (field : WidthField) (v : Datum) :
    AtWorst (·.place? = none) (Format.checkWidth field v) := by
  unfold checkWidth
  split
  · split
    · exact .refuse_unplaced rfl
    · exact .ok _
  · exact .refuse_unplaced rfl

theorem Format.unplaced_ofParts (signed integerBits fractionalBits : Datum) :
    AtWorst (·.place? = none) (Format.ofParts signed integerBits fractionalBits) := by
  refine AtWorst.bind ?_ fun _ _ => AtWorst.bind (unplaced_checkWidth _ _) fun _ _ =>
    AtWorst.bind (unplaced_checkWidth _ _) fun _ _ => .ok _
  unfold checkSigned
  split
  · exact .ok _
  · exact .refuse_unplaced rfl

namespace Inference

theorem unplaced_widthCount (bound : Datum) : AtWorst (·.place? = none) (widthCount bound) := by
  unfold widthCount
  split
  · exact .refuse_unplaced rfl
  · exact .refuse_unplaced rfl
  · split
    · exact .ok _
    · exact .refuse_unplaced rfl
    · exact .refuse_unplaced rfl

theorem unplaced_finestHalfStep (count : Int) :
    AtWorst (·.place? = none) (finestHalfStep count) := by
  rw [finestHalfStep]
  split
  · exact .ok _
  · exact .refuse_unplaced rfl

theorem unplaced_infer (samples : List Binary64) (tolerance : Binary64) (bound : Datum) :
    AtWorst (·.place? = none) (infer samples tolerance bound) := by
  unfold infer
  -- the faults in the order in which inference finds them
  by_cases hempty : samples.isEmpty
  · simp only [hempty, if_true]
    exact .guard (.refuse_unplaced rfl)
  by_cases htolerance : tolerance.isFinite && tolerance.isPositive
  swap
  · simp only [hempty, htolerance, Bool.false_eq_true, if_false, Bool.not_false, if_true]
    exact .guard (.refuse_unplaced rfl)
  simp only [hempty, htolerance, Bool.false_eq_true, if_false, Bool.not_true]
  cases samples.findIdx? (!·.isFinite) with
  | some i => exact .guard (.refuse_unplaced rfl)
  | none =>
    refine AtWorst.bind (unplaced_widthCount bound) fun count _ => ?_
    refine AtWorst.bind (unplaced_finestHalfStep count) fun halfStep _ => ?_
    split
    · exact .guard (.refuse_unplaced rfl)
    split
    · exact .ok _
    · exact .refuse_unplaced rfl

end Inference

namespace Binder

theorem unplaced_synthesize (b : Binder) (f : Format) :
    AtWorst (·.place? = none) (b.synthesize f) := by
  refine AtWorst.bind ?_ fun tooWide _ => ?_
  · -- the limit may be no number, which is refused first
    unfold exceeds
    split
    · exact .ok _
    · exact .refuse_unplaced rfl
  cases tooWide with
  | true => exact .guard (.refuse_unplaced rfl)
  | false =>
    simp only [Bool.false_eq_true, if_false]
    split
    · refine AtWorst.bind ?_ fun name _ => .ok _
      unfold Format.typeNameText
      split
      · exact .ok _
      · rintro _ ⟨⟩
        rfl
    · exact .refuse_unplaced rfl

theorem unplaced_typeFor {P : Cache ValueType → Prop} (b : Binder) (f : Format) :
    Binding.AtWorst P (·.place? = none) (b.typeFor f) := by
  intro cache _
  show AtWorst (·.place? = none) ((b.typeForFormat f).runOn cache).1
  rw [runOn_typeForFormat_fst, answer]
  split
  · exact .ok _
  · exact unplaced_synthesize b f

theorem unplaced_ofRaw (t : ValueType) (raw : Int) :
    AtWorst (·.place? = none) (Fixed.ofRaw t raw) := by
  unfold Fixed.ofRaw
  split
  · exact .ok _
  · exact .refuse_unplaced rfl

theorem unplaced_bind (b : Binder) (f : Format) (x : Binary64) :
    Binding.AtWorst (fun _ => True) (·.place? = none) (b.bind f x) := by
  refine Binding.AtWorst.bind (unplaced_typeFor b f) .any fun t _ => .of ?_
  show AtWorst (·.place? = none) (roundTo t x)
  unfold roundTo
  split
  · exact unplaced_ofRaw t _
  · exact .refuse_unplaced rfl

theorem unplaced_reformat (b : Binder) (v : Fixed) (f : Format) :
    Binding.AtWorst (fun _ => True) (·.place? = none) (b.reformat v f) :=
  Binding.AtWorst.bind (unplaced_typeFor b f) .any fun t _ =>
    .of (unplaced_ofRaw t _)

end Binder

/-! ## Evaluation -/

namespace Expr

mutual
/-- The positions in an expression. -/
def places : Expr → List Location
  | integer _ p | real _ p | name _ p | foreign _ p => p.toList
  | binary _ left right p => p.toList ++ (left.places ++ right.places)
  | unary _ operand p => p.toList ++ operand.places
  | paren inner p => p.toList ++ inner.places
  | list elements p => p.toList ++ placesOf elements

/-- The positions in a row of expressions. -/
def placesOf : List Expr → List Location
  | [] => []
  | e :: es => e.places ++ placesOf es
end

theorem place?_subset (e : Expr) : e.place?.toList ⊆ e.places := by
  cases e <;> simp [place?, places]

theorem left_subset_places {op : Operator} {left right : Expr} {place : Option Location} :
    left.places ⊆ (binary op left right place).places :=
  List.Subset.trans (List.subset_append_left _ _) (List.subset_append_right _ _)

theorem right_subset_places {op : Operator} {left right : Expr} {place : Option Location} :
    right.places ⊆ (binary op left right place).places :=
  List.Subset.trans (List.subset_append_right _ _) (List.subset_append_right _ _)

theorem places_subset_placesOf {e : Expr} {es : List Expr} (h : e ∈ es) :
    e.places ⊆ placesOf es := by
  induction es with
  | nil => cases h
  | cons e' es ih =>
    rw [placesOf]
    rcases List.mem_cons.mp h with rfl | h
    · exact List.subset_append_left _ _
    · exact List.Subset.trans (ih h) (List.subset_append_right _ _)

mutual
/-- A name stands at one of the positions. -/
theorem names_placed : ∀ e : Expr, ∀ n ∈ e.names, n.2.toList ⊆ e.places
  | integer .. | real .. | foreign .. => by simp [names]
  | name .. => by simp [names, places]
  | binary _ left right _ => by
    intro n hn
    rw [names, List.mem_append] at hn
    rcases hn with hn | hn
    · exact List.Subset.trans (names_placed left n hn) left_subset_places
    · exact List.Subset.trans (names_placed right n hn) right_subset_places
  | unary _ operand _ => by
    intro n hn
    exact List.Subset.trans (names_placed operand n hn) (List.subset_append_right _ _)
  | paren inner _ => by
    intro n hn
    exact List.Subset.trans (names_placed inner n hn) (List.subset_append_right _ _)
  | list elements _ => by
    intro n hn
    exact List.Subset.trans (namesOf_placed elements n hn) (List.subset_append_right _ _)

theorem namesOf_placed : ∀ es : List Expr, ∀ n ∈ namesOf es, n.2.toList ⊆ placesOf es
  | [] => by simp [namesOf]
  | e :: es => by
    intro n hn
    rw [namesOf, List.mem_append] at hn
    rw [placesOf]
    rcases hn with hn | hn
    · exact List.Subset.trans (names_placed e n hn) (List.subset_append_left _ _)
    · exact List.Subset.trans (namesOf_placed es n hn) (List.subset_append_right _ _)
end

end Expr

/-- A fault that carries the given position, which is one of some others. -/
theorem AtWorst.refuse_at {f : Fault} {place : Option Location} (h : f.place? = place)
    (hplace : place.toList ⊆ ps) :
    AtWorst (·.PlacedIn ps) (BinaryPoint.refuse f : Except Fault α) :=
  .refuse_placed fun p hp => hplace (by simp [← h, hp])

namespace Expr

theorem placed_finite (x : Binary64) {place : Option Location} (h : place.toList ⊆ ps) :
    AtWorst (·.PlacedIn ps) (finite x place) := by
  rw [finite]
  split
  · exact .ok x
  · exact .refuse_at rfl h

theorem placed_apply (op : Operator) (x y : Binary64) {place : Option Location}
    (h : place.toList ⊆ ps) : AtWorst (·.PlacedIn ps) (apply op x y place) := by
  cases op with
  | plus => exact placed_finite (x + y) h
  | minus => exact placed_finite (x - y) h
  | times => exact placed_finite (x * y) h
  | divide =>
    rw [apply]
    split
    · exact .refuse_at rfl h
    · exact placed_finite (x / y) h
  | unknown symbol => exact .refuse_at rfl h

theorem placed_eval (env : String → Option Binary64) :
    ∀ e : Expr, AtWorst (·.PlacedIn e.places) (e.eval env)
  | .integer n place => by
    rw [eval]
    split
    · exact .ok _
    · exact .refuse_at rfl (List.Subset.refl _)
  | .real x place => .ok x
  | .name n place => by
    rw [eval]
    split
    · exact .ok _
    · exact .refuse_at rfl (List.Subset.refl _)
  | .binary op left right place => by
    rw [eval]
    refine AtWorst.bind ((placed_eval env left).widen left_subset_places) fun x _ => ?_
    refine AtWorst.bind ((placed_eval env right).widen right_subset_places) fun y _ => ?_
    exact placed_apply op x y (List.subset_append_left _ _)
  | .unary symbol operand place => by
    rw [eval, places]
    refine AtWorst.bind ((placed_eval env operand).widen (List.subset_append_right _ _)) ?_
    intro x _
    split
    · exact .ok (-x)
    · exact .refuse_at rfl (List.subset_append_left _ _)
  | .paren inner place => by
    rw [eval, places]
    exact (placed_eval env inner).widen (List.subset_append_right _ _)
  | .list elements place => .refuse_at rfl (List.subset_append_left _ _)
  | .foreign kind place => .refuse_at rfl (List.Subset.refl _)

end Expr

namespace Graph

theorem placed_environment (g : Graph) :
    ∀ names : List (String × Option Location), (∀ n ∈ names, n.2.toList ⊆ ps) →
      AtWorst (·.PlacedIn ps) (g.environment names)
  | [], _ => .ok []
  | (name, place) :: others, h => by
    obtain ⟨hplace, hothers⟩ := List.forall_mem_cons.mp h
    have hrest := placed_environment g others hothers
    rw [environment]
    cases g.find? name with
    | none => exact hrest
    | some c =>
      by_cases hscalar : c.scalar
      · simp only [hscalar, Bool.not_true, Bool.false_eq_true, if_false]
        refine AtWorst.bind (AtWorst.placed ?_) fun v _ => AtWorst.bind hrest fun _ _ => .ok _
        unfold Constant.value
        split
        · exact .ok _
        · exact .refuse_unplaced rfl
      · simp only [hscalar, Bool.not_false, if_true]
        exact .guard (.refuse_at rfl hplace)

theorem placed_evaluate (g : Graph) (e : Expr) :
    AtWorst (·.PlacedIn e.places) (g.evaluate e) :=
  AtWorst.bind (g.placed_environment e.names e.names_placed) fun _ _ => Expr.placed_eval _ e

end Graph

/-! ## Declarations -/

/-- The position in a note. -/
def FormatNote.places : FormatNote → List Location
  | .explicit _ _ _ p | .preset _ p => p.toList
  | .misplaced _ => []

theorem FormatNote.placed_resolve (config : Config) (note : FormatNote) :
    AtWorst (·.PlacedIn note.places) (note.resolve config) := by
  cases note with
  | explicit signed integerBits fractionalBits place =>
    exact .placed (Format.unplaced_ofParts _ _ _)
  | preset name place =>
    rw [resolve]
    split
    · exact .ok _
    · exact .refuse_at rfl (List.Subset.refl _)
  | misplaced kind => exact .placed (.refuse_unplaced rfl)

namespace Decl

/-- The positions in a declaration. -/
def places (d : Decl) : List Location :=
  d.place.toList ++ (d.value.places ++
    ((d.format.map FormatNote.places).getD [] ++ (d.tolerance.map Expr.places).getD []))

theorem value_subset_places (d : Decl) : d.value.places ⊆ d.places :=
  List.Subset.trans (List.subset_append_left _ _) (List.subset_append_right _ _)

theorem format_subset_places {d : Decl} {note : FormatNote} (h : d.format = some note) :
    note.places ⊆ d.places := by
  intro p hp
  simp only [places, h, Option.map_some, Option.getD_some, List.mem_append]
  exact .inr (.inr (.inl hp))

theorem tolerance_subset_places {d : Decl} {e : Expr} (h : d.tolerance = some e) :
    e.places ⊆ d.places := by
  intro p hp
  simp only [places, h, Option.map_some, Option.getD_some, List.mem_append]
  exact .inr (.inr (.inr hp))

theorem placed_samples (d : Decl) (g : Graph) :
    AtWorst (·.PlacedIn d.value.places) (d.samples g) := by
  unfold samples
  split
  · exact .ok _
  · next elements place _ hvalue =>
    refine AtWorst.bind (.mapM fun e he => ?_) fun xs _ => .ok _
    refine (g.placed_evaluate e).widen ?_
    rw [hvalue, Expr.places]
    exact List.Subset.trans (Expr.places_subset_placesOf he) (List.subset_append_right _ _)
  · exact AtWorst.bind (g.placed_evaluate _) fun x _ => .ok _

theorem placed_resolve (config : Config) (d : Decl) (g : Graph) (samples : List Binary64) :
    AtWorst (·.PlacedIn d.places) (d.resolve config g samples) := by
  unfold resolve
  split
  · next e htolerance =>
    have htolerance := (g.placed_evaluate e).widen (tolerance_subset_places htolerance)
    refine AtWorst.bind htolerance fun tolerance _ => ?_
    exact AtWorst.bind (.placed (Inference.unplaced_infer _ _ _)) fun f _ => .ok _
  · next note _ hformat =>
    have hnote := (note.placed_resolve config).widen (format_subset_places hformat)
    exact AtWorst.bind hnote fun f _ => .ok _
  · exact .placed (.refuse_unplaced rfl)

theorem placed_bindSamples (b : Binder) (d : Decl) (g : Graph) (samples : List Binary64)
    (f : Format) :
    Binder.Binding.AtWorst (fun _ => True) (·.PlacedIn ps) (d.bindSamples b g samples f) := by
  refine Binder.Binding.AtWorst.mono ?_ fun _ => Fault.placedIn_of_none
  unfold bindSamples
  split
  · exact .mapM (fun v _ => b.unplaced_reformat v f) fun _ _ => .any
  · exact .mapM (fun x _ => b.unplaced_bind f x) fun _ _ => .any

/-- A fault in the build of a declaration points to a part of it. -/
theorem placed_build (config : Config) (b : Binder) (d : Decl) (g : Graph) :
    Binder.Binding.AtWorst (fun _ => True) (·.PlacedIn d.places) (d.build config b g) := by
  have hsamples := (d.placed_samples g).widen d.value_subset_places
  rw [build]
  refine Binder.Binding.AtWorst.of_bind (.placed ?_) fun _ _ => ?_
  · -- both parts, or none of them
    unfold checkParts
    split
    · exact .refuse_unplaced rfl
    · exact .refuse_unplaced rfl
    · exact .ok ()
  refine Binder.Binding.AtWorst.of_bind hsamples ?_
  rintro ⟨samples, scalar⟩ -
  dsimp only
  split
  · -- an empty list is reported at its own position
    refine .of_bind (.refuse_at rfl ?_) fun _ h => absurd h (refuse_ne_ok _ _)
    exact List.Subset.trans d.value.place?_subset d.value_subset_places
  · refine Binder.Binding.AtWorst.of_bind (d.placed_resolve config g samples) ?_
    rintro ⟨f, tolerance⟩ -
    exact .bind (placed_bindSamples b d g samples f) .any fun values _ => .pure _

end Decl

/-! ## Positions of tokens -/

theorem Expr.Derives.places_subset {level : Expr.Level} {ts : List Token} {e : Expr}
    (h : Expr.Derives level ts e) : e.places ⊆ ts.map Token.place := by
  induction h with
  | sum _ _ _ ihl ihr | product _ _ _ ihl ihr =>
    -- an operator is at its own token, its operands are among theirs
    intro p hp
    simp only [Expr.places, Option.toList_some, List.mem_append, List.mem_singleton] at hp
    simp only [List.map_append, List.map_cons, List.mem_append, List.mem_cons]
    rcases hp with rfl | hp | hp
    · exact .inr (.inl rfl)
    · exact .inl (ihl hp)
    · exact .inr (.inr (ihr hp))
  | term _ ih | factor _ ih | operand _ ih => exact ih
  | minus _ _ ih => exact List.cons_subset_cons _ ih
  | integer | real | name => exact List.Subset.refl _
  | paren _ _ _ ih =>
    rw [List.map_cons, List.map_append]
    exact List.cons_subset_cons _ (List.Subset.trans ih (List.subset_append_left _ _))

theorem FormatNote.Derives.places_subset {ts : List Token} {note : FormatNote}
    (h : FormatNote.Derives ts note) : note.places ⊆ ts.map Token.place := by
  cases h with
  | preset => exact List.Subset.refl _
  | explicit => exact List.cons_subset_cons _ (List.nil_subset _)

/-- A part that may be left out has its positions from its tokens, if it is there. -/
theorem OptionalPart.places_subset {kind : TokenKind} {G : List Token → α → Prop}
    {ts : List Token} {part : Option α} (h : OptionalPart kind G ts part)
    {places : α → List Location} (hG : ∀ us a, G us a → places a ⊆ us.map Token.place) :
    (part.map places).getD [] ⊆ ts.map Token.place := by
  cases h with
  | absent => exact List.nil_subset _
  | present _ h => exact List.subset_cons_of_subset _ (hG _ _ h)

namespace Decl

theorem DerivesMore.places_subset {ts : List Token} {es : List Expr} (h : DerivesMore ts es) :
    Expr.placesOf es ⊆ ts.map Token.place := by
  induction h with
  | done | comma => exact List.nil_subset _
  | more _ _ he _ _ ih =>
    intro p hp
    rw [Expr.placesOf, List.mem_append] at hp
    simp only [List.map_append, List.map_cons, List.mem_append, List.mem_cons]
    rcases hp with hp | hp
    · exact .inr (.inr (.inl (he.places_subset hp)))
    · exact .inr (.inr (.inr (.inr (ih hp))))

theorem DerivesSamples.places_subset {ts : List Token} {es : List Expr}
    (h : DerivesSamples ts es) : Expr.placesOf es ⊆ ts.map Token.place := by
  cases h with
  | none => exact List.nil_subset _
  | some _ he _ hrest =>
    intro p hp
    rw [Expr.placesOf, List.mem_append] at hp
    simp only [List.map_append, List.mem_append]
    rcases hp with hp | hp
    · exact .inr (.inl (he.places_subset hp))
    · exact .inr (.inr (.inr (hrest.places_subset hp)))

theorem DerivesValue.places_subset {ts : List Token} {e : Expr} (h : DerivesValue ts e) :
    e.places ⊆ ts.map Token.place := by
  cases h with
  | scalar h => exact h.places_subset
  | list _ h _ =>
    rw [List.map_cons, List.map_append]
    exact List.cons_subset_cons _ (List.Subset.trans h.places_subset (List.subset_append_left _ _))

/-- The positions in a declaration are those of its tokens. -/
theorem Derives.places_subset {ts : List Token} {d : Decl} (h : Derives ts d) :
    d.places ⊆ ts.map Token.place := by
  obtain ⟨-, -, hformat, -, hvalue, htolerance⟩ := h
  have hformat := hformat.places_subset fun _ _ h => h.places_subset
  have htolerance := htolerance.places_subset fun _ _ h => h.places_subset
  have hvalue := hvalue.places_subset
  intro p hp
  simp only [places, Option.toList_some, List.mem_append, List.mem_singleton] at hp
  simp only [List.map_append, List.map_cons, List.mem_append, List.mem_cons]
  rcases hp with rfl | hp | hp | hp
  · exact .inl rfl
  · exact .inr (.inr (.inr (.inr (.inl (hvalue hp)))))
  · exact .inr (.inr (.inl (hformat hp)))
  · exact .inr (.inr (.inr (.inr (.inr (htolerance hp)))))

/-- What is reported of a declaration points to one of its tokens. -/
theorem Derives.exists_token {ts : List Token} {d : Decl} (h : Derives ts d)
    (place : Option Location) (hplace : ∀ p, place = some p → p ∈ d.places) :
    ∃ t ∈ ts, place.or d.place = some t.place := by
  have hsubset := h.places_subset
  cases place with
  | some p =>
    obtain ⟨t, ht, rfl⟩ := List.mem_map.mp (hsubset (hplace p rfl))
    exact ⟨t, ht, rfl⟩
  | none =>
    obtain ⟨⟩ := h
    exact ⟨_, .head _, rfl⟩

end Decl

end BinaryPoint
