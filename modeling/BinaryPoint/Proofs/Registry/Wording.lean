import BinaryPoint.Proofs.Binary64.Nearest
import BinaryPoint.Proofs.Faults
import BinaryPoint.Proofs.Registry.Presets

/-! # When a registry can be checked

A check words what it finds, and an integer in a wording can have too many digits. It also
sums widths, and an integer can be too large to be added to a double. Neither happens in a
registry whose integers are of moderate size.

* `Datum.Within`: the integers in a value stay below a bound;
* `Rule.Answers`: a rule has an answer for each value that can be shown, which all ways of
  putting rules together preserve;
* `Registry.exists_problems`: a registry with integers of moderate size is checked.
-/

namespace BinaryPoint

open Decimal (Short)

/-! ## The integers in a value -/

namespace Datum

mutual
/-- The integers in a value. -/
def integers : Datum → List Int
  | null | bool _ | real _ | text _ | date .. => []
  | int n => [n]
  | list items => integersOf items
  | map entries => integersOfEntries entries

/-- The integers in the items of a list. -/
def integersOf : List Datum → List Int
  | [] => []
  | v :: vs => integers v ++ integersOf vs

/-- The integers in the entries of a mapping. -/
def integersOfEntries : List (Datum × Datum) → List Int
  | [] => []
  | (k, v) :: es => integers k ++ integers v ++ integersOfEntries es
end

/-- The integers in a value stay below a bound. -/
def Within (bound : Nat) (v : Datum) : Prop := ∀ n ∈ v.integers, n.natAbs < bound

variable {a b : Nat} {v : Datum}

theorem Within.mono (h : v.Within a) (hle : a ≤ b) : v.Within b :=
  fun n hn => (h n hn).trans_le hle

theorem within_null : Datum.null.Within b := List.forall_mem_nil _

theorem within_int {n : Int} : (Datum.int n).Within b ↔ n.natAbs < b := List.forall_mem_singleton

theorem within_map {es : List (Datum × Datum)} :
    (Datum.map es).Within b ↔ ∀ e ∈ es, e.1.Within b ∧ e.2.Within b := by
  unfold Within
  rw [integers]
  induction es with
  | nil => simp [integersOfEntries]
  | cons e es ih =>
    rw [integersOfEntries, List.forall_mem_append, List.forall_mem_append, ih,
      List.forall_mem_cons]

/-- A value that is looked up is in the mapping. -/
theorem Within.of_lookup {key w : Datum} {es : List (Datum × Datum)} (h : (Datum.map es).Within b)
    (hlookup : lookup key es = some w) : w.Within b := by
  obtain ⟨e, he, rfl⟩ := Option.map_eq_some_iff.mp hlookup
  exact (within_map.mp h e (List.mem_of_find?_eq_some he)).2

/-! ### Shown values -/

mutual
/-- A value can be shown just if its integers can be written. -/
theorem exists_shown?_iff : ∀ v : Datum, (∃ s, v.shown? = some s) ↔ ∀ n ∈ v.integers, Short n
  | null | bool _ | real _ | text _ | date .. => by simp [shown?, integers]
  | int n => by simpa [shown?, integers] using Decimal.exists_write?_iff
  | list items => by
    rw [integers, ← exists_shownItems?_iff items, shown?]
    simp [Option.bind_eq_some_iff]
  | map es => by
    rw [integers, ← exists_shownEntries?_iff es, shown?]
    simp [Option.bind_eq_some_iff]

theorem exists_shownItems?_iff :
    ∀ vs : List Datum, (∃ ss, shownItems? vs = some ss) ↔ ∀ n ∈ integersOf vs, Short n
  | [] => by simp [shownItems?, integersOf]
  | v :: vs => by
    rw [integersOf, List.forall_mem_append, ← exists_shown?_iff v, ← exists_shownItems?_iff vs,
      shownItems?]
    simp [Option.bind_eq_some_iff]

theorem exists_shownEntries?_iff :
    ∀ es : List (Datum × Datum),
      (∃ ss, shownEntries? es = some ss) ↔ ∀ n ∈ integersOfEntries es, Short n
  | [] => by simp [shownEntries?, integersOfEntries]
  | (k, v) :: es => by
    rw [integersOfEntries, List.forall_mem_append, List.forall_mem_append, ← exists_shown?_iff k,
      ← exists_shown?_iff v, ← exists_shownEntries?_iff es, shownEntries?]
    simp [Option.bind_eq_some_iff, and_assoc]
end

end Datum

/-! ## Rules -/

/-- A row of checks has an answer if each of them has. -/
theorem exists_flatten_mapM {α β ε : Type} {f : α → Except ε (List β)} {xs : List α}
    (h : ∀ x ∈ xs, ∃ ys, f x = .ok ys) :
    ∃ zs, (xs.mapM f >>= fun found => .ok found.flatten) = .ok zs := by
  obtain ⟨found, hfound⟩ := exists_mapM h
  exact ⟨found.flatten, by rw [hfound, ok_bind]⟩

namespace Rule

open Datum (Within)
open Decimal (writeLimit)

theorem exists_shown {v : Datum} (h : v.Within writeLimit) : ∃ s, shown v = .ok s := by
  obtain ⟨s, hs⟩ := (Datum.exists_shown?_iff v).mpr h
  exact ⟨s, by rw [shown, hs]⟩

theorem exists_plain {v : Datum} (h : v.Within writeLimit) : ∃ s, plain v = .ok s := by
  obtain ⟨s, hs⟩ : ∃ s, v.plain? = some s := by
    cases v with
    | text s => exact ⟨s, rfl⟩
    | date y m d => exact ⟨_, rfl⟩
    | _ => exact (Datum.exists_shown?_iff _).mpr h
  exact ⟨s, by rw [plain, hs]⟩

/-- The rule has an answer for each value that can be shown. -/
def Answers (r : Rule) : Prop := ∀ v, v.Within writeLimit → ∃ found, r v = .ok found

namespace Answers

protected theorem ofType (t : DataType) : Answers (ofType t) := by
  intro v hv
  rw [Rule.ofType]
  split
  · exact ⟨_, rfl⟩
  · obtain ⟨s, hs⟩ := exists_shown hv
    exact ⟨_, by rw [hs]; rfl⟩

protected theorem atLeast (bound : Int) : Answers (atLeast bound) := by
  intro v hv
  rw [Rule.atLeast]
  split
  · obtain ⟨s, hs⟩ := exists_shown hv
    exact ⟨_, by rw [hs]; rfl⟩
  · exact ⟨_, rfl⟩

protected theorem atMost (bound : Int) : Answers (atMost bound) := by
  intro v hv
  rw [Rule.atMost]
  split
  · obtain ⟨s, hs⟩ := exists_shown hv
    exact ⟨_, by rw [hs]; rfl⟩
  · exact ⟨_, rfl⟩

protected theorem matching (p : Pattern) : Answers (matching p) := by
  intro v _
  cases v <;> exact ⟨_, rfl⟩

protected theorem required (keys : List String) : Answers (required keys) := by
  intro v _
  cases v <;> exact ⟨_, rfl⟩

protected theorem only (keys : List String) : Answers (only keys) := by
  intro v hv
  cases v with
  | map es =>
    rw [Rule.only]
    split
    · exact ⟨_, rfl⟩
    · next found _ =>
      -- each entry that is too much is named by its key
      have hentry : ∀ e ∈ extras keys es,
          ∃ names, (do return (← plain e.1, ← shown e.1) : Except Fault (String × String)) =
            .ok names := by
        intro e he
        have hkey := (Datum.within_map.mp hv e (List.mem_of_mem_filter he)).1
        obtain ⟨s, hs⟩ := exists_plain hkey
        obtain ⟨t, ht⟩ := exists_shown hkey
        exact ⟨(s, t), by rw [hs, ht]; rfl⟩
      obtain ⟨names, hnames⟩ := exists_mapM hentry
      exact ⟨_, by rw [hnames]; rfl⟩
  | _ => exact ⟨_, rfl⟩

variable {r : Rule}

protected theorem all {rules : List Rule} (h : ∀ r ∈ rules, Answers r) : Answers (all rules) := by
  intro v hv
  exact exists_flatten_mapM fun r hr => h r hr v hv

protected theorem entry (key : String) (h : Answers r) : Answers (entry key r) := by
  intro v hv
  cases v with
  | map es =>
    rw [Rule.entry]
    split
    · next w hw =>
      obtain ⟨found, hfound⟩ := h w (hv.of_lookup hw)
      exact ⟨_, by rw [hfound]; rfl⟩
    · exact ⟨_, rfl⟩
  | _ => exact ⟨_, rfl⟩

protected theorem keys (h : Answers r) : Answers (keys r) := by
  intro v hv
  cases v with
  | map es => exact exists_flatten_mapM fun e he => h e.1 (Datum.within_map.mp hv e he).1
  | _ => exact ⟨_, rfl⟩

protected theorem values (h : Answers r) : Answers (values r) := by
  intro v hv
  cases v with
  | map es =>
    refine exists_flatten_mapM fun e he => ?_
    obtain ⟨hkey, hvalue⟩ := Datum.within_map.mp hv e he
    obtain ⟨found, hfound⟩ := h e.2 hvalue
    obtain ⟨s, hs⟩ := exists_plain hkey
    rw [hfound, ok_bind, hs]
    cases found with
    | nil => exact ⟨_, rfl⟩
    | cons p ps => exact ⟨_, rfl⟩
  | _ => exact ⟨_, rfl⟩

end Answers

end Rule

/-! ## Sums of widths -/

namespace Datum

/-- The magnitude below which integers are of moderate size: they and sums of a few of them are
in the range of doubles. -/
def moderateLimit : Nat := 2 ^ 1023

/-- The middle between the greatest double and the next step is far beyond moderate size. -/
theorem moderateLimit_lt : (moderateLimit : ℚ) + 2 < 2 ^ (1024 : ℤ) - 2 ^ (970 : ℤ) := by
  obtain ⟨u, -, h970, -, -, h1024⟩ := Binary64.top_powers
  have hone : (1 : ℚ) ≤ u := h970 ▸ one_le_zpow₀ one_le_two (by norm_num)
  have htwice : (2 : ℚ) ^ (1024 : ℤ) = 2 * moderateLimit := by
    rw [show (1024 : ℤ) = (1023 + 1 : ℕ) from rfl, zpow_natCast, pow_succ', moderateLimit,
      Nat.cast_pow, Nat.cast_ofNat]
  rw [htwice] at h1024
  rw [htwice, h970]
  linarith only [hone, h1024]

theorem exists_integerToReal {n : Int} (h : n.natAbs < moderateLimit + 2) :
    ∃ x, integerToReal n = .ok x := by
  have hfinite : (Binary64.ofInt n).isFinite := by
    apply Binary64.isFinite_nearest one_pos
    rw [Nat.cast_one, div_one]
    refine lt_trans ?_ moderateLimit_lt
    rw [← Int.cast_abs, Int.abs_eq_natAbs]
    exact_mod_cast h
  exact ⟨_, if_pos hfinite⟩

theorem sum_le_writeLimit {m k : ℕ} (hm : m = 2 ^ k) (hk : k ≠ 0)
    (hle : k + 2 ≤ Decimal.digitLimit) : 2 + m + m ≤ Decimal.writeLimit := by
  subst hm
  calc 2 + 2 ^ k + 2 ^ k ≤ 2 ^ k + 2 ^ k + 2 ^ k := by
        gcongr
        exact Nat.le_self_pow hk 2
    _ ≤ 2 ^ k * 2 ^ 2 := by omega
    _ = 2 ^ (k + 2) := (pow_add 2 k 2).symm
    _ ≤ 10 ^ (k + 2) := Nat.pow_le_pow_left (by norm_num) _
    _ ≤ 10 ^ Decimal.digitLimit := Nat.pow_le_pow_right (by norm_num) hle

/-- Integers of moderate size and their sums can be written. -/
theorem moderateLimit_le_writeLimit : 2 + moderateLimit + moderateLimit ≤ Decimal.writeLimit :=
  sum_le_writeLimit moderateLimit.eq_1 (by decide) (by decide)

end Datum

namespace Registry

open Datum (Within moderateLimit)

/-- Two widths have a sum, which is again one. -/
theorem exists_add {v w : Datum} {a b : ℕ} (hv : Width v) (hw : Width w) (hva : v.Within a)
    (hwb : w.Within b) (ha : a ≤ moderateLimit + 2) (hb : b ≤ moderateLimit + 2) :
    ∃ u, v.add w = .ok u ∧ Width u ∧ u.Within (a + b) := by
  -- an integer of moderate size can be turned into a double
  have hdouble : ∀ {c : ℕ} {n : ℕ}, (Datum.int n).Within c → c ≤ moderateLimit + 2 →
      ∃ x, Datum.integerToReal n = .ok x := fun hn hc =>
    Datum.exists_integerToReal ((Datum.within_int.mp hn).trans_le hc)
  have hreal : ∀ x, (Datum.real x).Within (a + b) := fun _ => List.forall_mem_nil _
  rcases hv with ⟨n, rfl⟩ | ⟨x, rfl⟩
  · rcases hw with ⟨m, rfl⟩ | ⟨y, rfl⟩
    · -- only the sum of two integers is an integer
      refine ⟨.int (n + m), rfl, .inl ⟨n + m, by push_cast; rfl⟩, Datum.within_int.mpr ?_⟩
      have hn := Datum.within_int.mp hva
      have hm := Datum.within_int.mp hwb
      omega
    · obtain ⟨x, hx⟩ := hdouble hva ha
      refine ⟨.real (x + y), ?_, .inr ⟨_, rfl⟩, hreal _⟩
      show (Datum.integerToReal n >>= _) = _
      rw [hx]
      rfl
  · rcases hw with ⟨m, rfl⟩ | ⟨y, rfl⟩
    · obtain ⟨y, hy⟩ := hdouble hwb hb
      refine ⟨.real (x + y), ?_, .inr ⟨_, rfl⟩, hreal _⟩
      show (Datum.integerToReal m >>= _) = _
      rw [hy]
      rfl
    · exact ⟨.real (x + y), rfl, .inr ⟨_, rfl⟩, hreal _⟩

/-- Widths can be compared. -/
theorem exists_compare (c : Comparison) {v w : Datum} (hv : Width v) (hw : Width w) :
    ∃ b, v.compare c w = .ok b := by
  rcases hv with ⟨n, rfl⟩ | ⟨x, rfl⟩ <;> rcases hw with ⟨m, rfl⟩ | ⟨y, rfl⟩ <;>
    simp only [Datum.compare, Datum.number?, Except.ok.injEq, exists_eq']

theorem within_part {v : Datum} {b : ℕ} (h : v.Within b) (key : String) :
    (part key v).Within b := by
  cases v with
  | map es =>
    rw [part]
    cases hlookup : Datum.lookup (.text key) es with
    | none => exact Datum.within_null
    | some w => exact h.of_lookup hlookup
  | _ => exact Datum.within_null

theorem within_presets {d : Datum} {b : ℕ} (h : d.Within b) :
    ∀ e ∈ presets d, e.1.Within b ∧ e.2.Within b := by
  have hformats := within_part h "formats"
  rw [presets]
  split
  · next es hes => exact Datum.within_map.mp (hes ▸ hformats)
  · exact List.forall_mem_nil _

/-- The sum of a preset's bits, if its integers are of moderate size. -/
theorem exists_presetWidth {e : Datum × Datum} (he : Preset e) (h : e.2.Within moderateLimit) :
    ∃ u, presetWidth e.2 = .ok u ∧ Width u ∧ u.Within Decimal.writeLimit := by
  obtain ⟨b, hb⟩ := he.signed
  have hbit : b.toNat < 2 := Bool.toNat_lt b
  have hsign : (Datum.int b.toNat).Within 2 := Datum.within_int.mpr (by simpa using hbit)
  obtain ⟨s, hs, hswidth, hswithin⟩ := exists_add (.inl ⟨b.toNat, rfl⟩) he.integerBits hsign
    (within_part h _) (by omega) (by omega)
  obtain ⟨u, hu, huwidth, huwithin⟩ := exists_add hswidth he.fractionalBits hswithin
    (within_part h _) (by omega) (by omega)
  refine ⟨u, ?_, huwidth, huwithin.mono Datum.moderateLimit_le_writeLimit⟩
  rw [presetWidth, hb]
  show (Datum.add (.int b.toNat) _ >>= _) = _
  rw [hs, ok_bind, hu]

/-- A preset of the right shape is checked. -/
theorem exists_presetProblems {limit : Datum} {e : Datum × Datum} (he : Preset e)
    (hlimit : Width limit) (hwritten : limit.Within Decimal.writeLimit)
    (hname : e.1.Within Decimal.writeLimit) (h : e.2.Within moderateLimit) :
    ∃ found, presetProblems limit e = .ok found := by
  obtain ⟨name, hname⟩ := Rule.exists_plain hname
  obtain ⟨most, hmost⟩ := Rule.exists_plain hwritten
  obtain ⟨width, hwidth, hnumber, hwidthWritten⟩ := exists_presetWidth he h
  obtain ⟨bits, hbits⟩ := Rule.exists_plain hwidthWritten
  obtain ⟨tooWide, htooWide⟩ := exists_compare .greater hnumber hlimit
  simp only [presetProblems, hname, hwidth, htooWide, hbits, hmost, ok_bind]
  split <;> split <;> exact ⟨_, rfl⟩

/-! ## Checks -/

/-- The shape of any registry that can be shown is checked. -/
theorem answers_shape : Rule.Answers shape := by
  have hcount : ∀ least, Rule.Answers (count least) := fun least =>
    .all (by simp [Rule.Answers.ofType, Rule.Answers.atLeast])
  have hlimit : ∀ key {r}, Rule.Answers r → Rule.Answers (limitRule key r) := fun key r hr =>
    .all (by simp [Rule.Answers.ofType, Rule.Answers.required, Rule.Answers.only, hr.entry])
  have hpreset : Rule.Answers presetRule := .all <| by
    simp [Rule.Answers.ofType, Rule.Answers.required, Rule.Answers.only, Rule.Answers.entry,
      hcount]
  have hformats : Rule.Answers
      (.all [.ofType .object, .keys (.matching .name), .values presetRule]) := .all <| by
    simp [Rule.Answers.ofType, (Rule.Answers.matching .name).keys, hpreset.values]
  have hfractional : Rule.Answers (.all [.ofType .integer, .atLeast 0, .atMost 1074]) := .all <| by
    simp [Rule.Answers.ofType, Rule.Answers.atLeast, Rule.Answers.atMost]
  have hversion : Rule.Answers (.all [.ofType .string, .matching .version]) := .all <| by
    simp [Rule.Answers.ofType, Rule.Answers.matching]
  refine .all ?_
  simp only [List.forall_mem_cons, List.not_mem_nil, false_imp_iff, implies_true, and_true]
  exact ⟨.ofType _, .required _, .only _, hversion.entry _, (hlimit _ hfractional).entry _,
    (hlimit _ (hcount 1)).entry _, hformats.entry _⟩

/-- A registry with integers of moderate size is checked. -/
theorem exists_problems {d : Datum} (h : d.Within moderateLimit) : ∃ found, problems d = .ok found := by
  have hle : moderateLimit ≤ Decimal.writeLimit := by
    have := Datum.moderateLimit_le_writeLimit
    omega
  obtain ⟨found, hfound⟩ := answers_shape d (h.mono hle)
  rw [problems, hfound, ok_bind]
  cases found with
  | cons p ps => exact ⟨_, rfl⟩
  | nil =>
    refine exists_flatten_mapM fun e he => ?_
    obtain ⟨hname, hvalue⟩ := within_presets h e he
    have hlimit : (maxTotalBits d).Within moderateLimit := within_part (within_part h _) _
    exact exists_presetProblems (presets_of_shape hfound e he)
      (width_of_count zero_le_one (limits_pass hfound).2) (hlimit.mono hle) (hname.mono hle) hvalue

end Registry

end BinaryPoint
