import BinaryPoint.Graph.Build
import BinaryPoint.Proofs.Growth
import BinaryPoint.Proofs.Range

/-! # Types that stay in their cache

A cache makes the types of its own values: each of them is under its own format, is marked with
the number of the cache, and stays there. A value is made with a type from the cache, so
whatever a binder returns, and whatever is compiled with it, has the one type that the cache
holds for its format.

* `Binder.caching`: what a cache is like at any time, and how it may change;
* `Binder.caching_typeFor`: a request keeps to that, and returns the type that is then there;
* `Program.caching_compile`: so does a whole compilation.
-/

namespace BinaryPoint

open Growth

namespace Binder

/-- The cache of a number: its entries are types of its own under their formats, and they stay. -/
def caching (origin : ℕ) : Growth (Cache ValueType) where
  Good cache := ∀ e ∈ cache.entries, ∃ t, e.2 = some t ∧ t.format = e.1 ∧ t.origin = origin
  Le cache cache' := ∀ f t, cache.get? f = some t → cache'.get? f = some t
  refl _ _ _ h := h
  trans h h' f t ht := h' f t (h f t ht)

/-- The type of a format is of that format, and belongs to the cache. -/
theorem format_of_get? {origin : ℕ} {cache : Cache ValueType} (h : (caching origin).Good cache)
    {f : Format} {t : ValueType} (ht : cache.get? f = some t) : t.format = f ∧ t.origin = origin := by
  obtain ⟨e, hfind, he⟩ := Option.bind_eq_some_iff.mp ht
  obtain ⟨t', ht', hformat, horigin⟩ := h e (List.mem_of_find?_eq_some hfind)
  cases he.symm.trans ht'
  have hf : e.1 = f := by simpa using List.find?_some hfind
  exact ⟨hformat.trans hf, horigin⟩

/-- The type is the one that the cache holds for its format. -/
def Knows (cache : Cache ValueType) (t : ValueType) : Prop := cache.get? t.format = some t

/-- A value whose type the cache holds. -/
def KnowsValue (cache : Cache ValueType) (v : Fixed) : Prop := Knows cache v.type

theorem stable_knows (origin : ℕ) : (caching origin).Stable Knows :=
  fun _ _ t hle h => hle t.format t h

theorem stable_knowsValue (origin : ℕ) : (caching origin).Stable KnowsValue :=
  fun cache cache' v => stable_knows origin cache cache' v.type

theorem synthesize_origin {b : Binder} {f : Format} {t : ValueType}
    (h : b.synthesize f = .ok t) : t.origin = b.origin := by
  obtain ⟨tooWide, -, h⟩ := bind_eq_ok.mp h
  dsimp only at h
  split at h
  · simp at h
  · split at h
    · obtain ⟨name, -, ht⟩ := bind_eq_ok.mp h
      cases ht
      rfl
    · simp at h

variable {cache : Cache ValueType} (b : Binder)

/-- A request returns the type that the cache holds afterwards. It is the only computation that
changes the cache, and all that it changes is to add a type. -/
theorem caching_typeForFormat (f : Format) :
    (caching b.origin).Yields cache (b.typeForFormat f) Knows := by
  intro hgood
  cases hget : cache.get? f with
  | some t =>
    -- the type is there, and the cache stays as it is
    have hrun : (b.typeForFormat f).run cache = (.ok t, cache) := runOn_typeForFormat_of_some b hget
    rw [hrun]
    refine ⟨hgood, fun _ _ h => h, ?_⟩
    rintro _ ⟨⟩
    rwa [Knows, (format_of_get? hgood hget).1]
  | none =>
    -- the type has to be made; if that fails, nothing is entered
    have hrun : (b.typeForFormat f).run cache = _ := runOn_typeForFormat_of_none b hget
    rw [hrun]
    cases hmake : b.synthesize f with
    | error e =>
      refine ⟨hgood, fun g t ht => ht, ?_⟩
      rintro _ ⟨⟩
    | ok t =>
      have hformat : t.format = f := synthesize_format hmake
      refine ⟨fun e he => ?_, fun g t' ht' => ?_, ?_⟩
      · -- the new entry is a type of this binder
        rcases Cache.mem_putEntry he with rfl | he
        · exact ⟨t, rfl, hformat, synthesize_origin hmake⟩
        · exact hgood e he
      · -- there was no type for the format, so that none is lost
        have hg : f ≠ g := by
          rintro rfl
          rw [hget] at ht'
          cases ht'
        show Cache.get? _ g = some t'
        rwa [Cache.get?_leave, Cache.get?_record_of_ne hg, Cache.get?_enter]
      · rintro _ ⟨⟩
        rw [Knows, hformat, Cache.get?_leave, Cache.get?_record_self]

theorem caching_typeFor (d : Descriptor) :
    (caching b.origin).Yields cache (b.typeFor d) Knows := by
  cases d with
  | format f => exact b.caching_typeForFormat f
  | other v => exact .of fun _ _ h => absurd h (refuse_ne_ok _ _)

/-! ## Values -/

/-- A computation that asks for a type and makes a value with it. -/
theorem caching_make {x : Binding ValueType} (hx : (caching b.origin).Yields cache x Knows)
    {make : ValueType → Except Fault Fixed} (h : ∀ t v, make t = .ok v → v.type = t) :
    (caching b.origin).Yields cache (x >>= fun t => Binding.of (make t)) KnowsValue := by
  apply hx.bind
  intro cache' t _ _ ht
  refine .of fun _ v hv => ?_
  rwa [KnowsValue, h t v hv]

theorem caching_bindNumber (d : Descriptor) (x : Except Fault Binary64) :
    (caching b.origin).Yields cache (b.bindNumber d x) KnowsValue := by
  apply b.caching_make (b.caching_typeFor d)
  intro t v hv
  cases x with
  | error e => cases hv
  | ok x => exact type_of_roundTo hv

theorem caching_bindAll (d : Descriptor) (xs : List Binary64) :
    (caching b.origin).Yields cache (b.bindAll d xs) fun cache' vs =>
      ∀ v ∈ vs, KnowsValue cache' v :=
  .mapM (stable_knowsValue _) fun _ _ x _ => b.caching_bindNumber d (.ok x)

theorem caching_reformat (v : Fixed) (d : Descriptor) :
    (caching b.origin).Yields cache (b.reformat v d) KnowsValue :=
  b.caching_make (b.caching_typeFor d) fun _ _ h => (Fixed.ofRaw_eq_ok_iff.mp h).1

theorem caching_restore (key : String) (raw : ℤ) :
    (caching b.origin).Yields cache (b.restore key raw) KnowsValue := by
  refine Yields.bind (.of fun _ _ _ => trivial) fun cache' f _ _ (_ : True) => ?_
  exact b.caching_make (b.caching_typeForFormat f) fun _ _ h => (Fixed.ofRaw_eq_ok_iff.mp h).1

end Binder

/-! ## Programs -/

open Binder

variable {cache : Cache ValueType}

/-- The cache holds the types of the values of a constant. -/
def Constant.Known (cache : Cache ValueType) (c : Constant) : Prop :=
  ∀ v ∈ c.values, KnowsValue cache v

theorem Constant.stable_known (origin : ℕ) : (caching origin).Stable Constant.Known :=
  fun cache cache' c => (stable_knowsValue origin).all cache cache' c.values

/-- A constant that a graph has under a name is one of its constants. -/
theorem Graph.mem_of_get {g : Graph} {name : String} {c : Constant} (h : g.get name = .ok c) :
    c ∈ g.constants := by
  unfold get at h
  split at h
  · next c' hfind =>
    cases h
    exact List.mem_of_find?_eq_some hfind
  · exact absurd h (refuse_ne_ok _ _)

/-- A computation that leaves the cache alone, with anything as its result. -/
theorem Binder.caching_of {α : Type} (origin : ℕ) (r : Except Fault α) :
    (caching origin).Yields cache (Binding.of r) fun _ _ => True :=
  .of fun _ _ _ => trivial

namespace Decl

theorem caching_bindSamples (b : Binder) (d : Decl) (g : Graph) (samples : List Binary64)
    (f : Format) :
    (caching b.origin).Yields cache (d.bindSamples b g samples f) fun cache' vs =>
      ∀ v ∈ vs, KnowsValue cache' v := by
  unfold bindSamples
  split
  · exact .mapM (stable_knowsValue _) fun _ _ v _ => b.caching_reformat v f
  · exact b.caching_bindAll f samples

theorem caching_build (config : Config) (b : Binder) (d : Decl) (g : Graph) :
    (caching b.origin).Yields cache (d.build config b g) Constant.Known := by
  unfold build
  refine Yields.bind (caching_of _ _) fun _ _ _ _ _ => Yields.bind (caching_of _ _) ?_
  rintro _ ⟨samples, scalar⟩ - - -
  dsimp only
  split
  · exact Yields.bind (Q := fun _ _ => False) (.of fun _ _ h => absurd h (refuse_ne_ok _ _))
      fun _ _ _ _ h => h.elim
  · refine Yields.bind (caching_of _ _) ?_
    rintro _ ⟨f, tolerance⟩ - - -
    exact (caching_bindSamples b d g samples f).bind fun _ _ _ _ h => .pure fun _ => h

end Decl

namespace Program

/-- The cache holds the types of all values in a graph so far. -/
def Built.Known (cache : Cache ValueType) (built : Built) : Prop :=
  ∀ c ∈ built.graph.constants, c.Known cache

theorem Built.stable_known (origin : ℕ) : (caching origin).Stable Built.Known :=
  fun cache cache' built => (Constant.stable_known origin).all cache cache' built.graph.constants

theorem caching_addDecl (config : Config) (b : Binder) {built : Built} (h : built.Known cache)
    (d : Decl) : (caching b.origin).Yields cache (addDecl config b built d) Built.Known := by
  unfold addDecl
  split
  · -- the name is taken, and nothing is built
    exact .pure fun _ => h
  · apply Yields.bind (Decl.caching_build config b d built.graph).lift
    intro cache' r _ hle hr
    -- whether the constant is built or not, the types of the earlier ones are still known
    have hkept := Built.stable_known b.origin cache cache' built hle h
    cases r with
    | ok c =>
      refine .pure fun _ => ?_
      show ∀ c' ∈ built.graph.constants ++ [c], c'.Known cache'
      exact List.forall_mem_append.mpr ⟨hkept, List.forall_mem_singleton.mpr (hr c rfl)⟩
    | error f =>
      dsimp only
      split
      · exact .pure fun _ => hkept
      · exact .throw

theorem caching_build (config : Config) (b : Binder) (p : Program) :
    (caching b.origin).Yields cache (p.build config b) Built.Known :=
  Yields.foldlM (R := Built.Known) (fun _ _ d _ h => caching_addDecl config b h d)
    (List.forall_mem_nil _)

/-- After a compilation the cache holds the types of all values in the graph. -/
theorem caching_compile (config : Config) (b : Binder) (source file : String) :
    (caching b.origin).Yields cache (compile config b source file) Built.Known := by
  unfold compile
  refine Yields.bind (caching_of _ _) ?_
  rintro cache' ⟨p, found⟩ - - -
  exact (caching_build config b p).bind fun _ _ _ _ h => .pure fun _ => h

end Program

end BinaryPoint
