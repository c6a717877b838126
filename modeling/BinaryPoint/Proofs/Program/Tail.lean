import BinaryPoint.Proofs.Outcome
import BinaryPoint.Proofs.Program.Simulation
import Mathlib.Data.List.DropRight

/-! # Texts that go on

Two streams are compared that agree up to a line break, behind which one of them goes on with
more declarations. Every line before is read alike, so the declarations behind it are read as
well, unless a mismatch was found at the end of the shorter stream: that is where a list of
samples has led past the line break.

* `Simulation.tails`: such streams correspond;
* `Program.parseLines_goesOn`: what holds of their lines, by induction on the lines;
* `Program.ofStream_goesOn`: what holds of the programs.
-/

namespace BinaryPoint

/-! ## Streams with another tail -/

/-- The tokens behind leading line breaks. -/
def afterBreaks (ts : List Token) : List Token := ts.dropWhile (·.kind = .newline)

/-- What may stand behind the part that two streams have in common: nothing, or line breaks
and then at most one line, which starts with a declaration. -/
structure IsTail (u : List Token) : Prop where
  head_kind : ∀ t ∈ u.head?, t.kind = .newline
  starts : ∀ t ∈ (afterBreaks u).head?, t.kind = .const
  single : ∀ t ∈ afterBreaks u, t.kind ≠ .newline

theorem IsTail.nil : IsTail [] where
  head_kind _ h := absurd h (Option.not_mem_none _)
  starts _ h := absurd h (Option.not_mem_none _)
  single _ h := absurd h List.not_mem_nil

/-- Two streams that have some tokens in common, up to their tails. -/
inductive Apart (common u v : List Token) (e e' : Token) : Bool → Stream → Stream → Prop
  | before {ts : List Token} (h : ts.Sublist common) :
      Apart common u v e e' false ⟨ts ++ u, e⟩ ⟨ts ++ v, e'⟩
  | past : Apart common u v e e' true ⟨afterBreaks u, e⟩ ⟨afterBreaks v, e'⟩

/-- The current tokens of such streams. -/
inductive ApartTokens (common u v : List Token) (e e' : Token) : Bool → Token → Token → Prop
  | before {t : Token} (h : t ∈ common) : ApartTokens common u v e e' false t t
  | tail : ApartTokens common u v e e' false (u.headD e) (v.headD e')
  | past : ApartTokens common u v e e' true ((afterBreaks u).headD e) ((afterBreaks v).headD e')

section Tails

variable {common u v : List Token} {e e' : Token}

theorem IsTail.stops (hu : IsTail u) (he : e.kind = .endOfText) : (u.headD e).kind.Stops := by
  rcases u with _ | ⟨t, u⟩
  · exact .inr (.inl he)
  · exact .inl (hu.head_kind t rfl)

theorem IsTail.stops_afterBreaks (hu : IsTail u) (he : e.kind = .endOfText) :
    ((afterBreaks u).headD e).kind.Stops := by
  have hstarts := hu.starts
  generalize afterBreaks u = w at hstarts
  rcases w with _ | ⟨t, w⟩
  · exact .inr (.inl he)
  · exact .inr (.inr (hstarts t rfl))

/-- Skipping line breaks stays in the common part or leads past it. -/
theorem Apart.skipNewlines {past : Bool} {s s' : Stream} (h : Apart common u v e e' past s s') :
    (past = false ∧ ∃ t ts, (t :: ts).Sublist common ∧ t.kind ≠ .newline ∧
        s.skipNewlines = ⟨t :: (ts ++ u), e⟩ ∧ s'.skipNewlines = ⟨t :: (ts ++ v), e'⟩) ∨
      s.skipNewlines = ⟨afterBreaks u, e⟩ ∧ s'.skipNewlines = ⟨afterBreaks v, e'⟩ := by
  have hcongr : ∀ {w w' : List Token} (e : Token), w = w' → Stream.mk w e = Stream.mk w' e :=
    fun e h => congrArg (Stream.mk · e) h
  rcases h with @⟨ts, hts⟩ | _
  · have hsub := (List.dropWhile_sublist (fun t : Token => t.kind = .newline)).trans hts
    have hhead := List.head?_dropWhile_not (fun t : Token => decide (t.kind = .newline)) ts
    rcases hskip : ts.dropWhile (·.kind = .newline) with _ | ⟨t, ts'⟩
    · -- only line breaks are left of the common part, so those of the tails are skipped too
      have hdrop : ∀ w, (ts ++ w).dropWhile (·.kind = .newline) = afterBreaks w := fun w => by
        rw [List.dropWhile_append, hskip]
        rfl
      exact .inr ⟨hcongr e (hdrop u), hcongr e' (hdrop v)⟩
    · -- another token is left of it, and there both stop
      have hdrop : ∀ w, (ts ++ w).dropWhile (·.kind = .newline) = t :: (ts' ++ w) := fun w => by
        rw [List.dropWhile_append, hskip]
        rfl
      rw [hskip] at hsub hhead
      exact .inl ⟨rfl, t, ts', hsub, by simpa using hhead, hcongr e (hdrop u),
        hcongr e' (hdrop v)⟩
  · -- they are past the line breaks already
    exact .inr ⟨hcongr e (List.dropWhile_idempotent _ _),
      hcongr e' (List.dropWhile_idempotent _ _)⟩

theorem Apart.length_le {past : Bool} {s s' : Stream} (h : Apart common u v e e' past s s') :
    s.pending.length ≤ common.length + u.length ∧
      s'.pending.length ≤ common.length + v.length := by
  cases h with
  | before hts =>
    have hle := hts.length_le
    simp only [List.length_append]
    omega
  | past =>
    have hle : ∀ w, (afterBreaks w).length ≤ w.length :=
      fun w => (List.dropWhile_sublist _).length_le
    exact ⟨Nat.le_add_left_of_le (hle u), Nat.le_add_left_of_le (hle v)⟩

/-- Streams with different tails correspond. -/
def Simulation.tails (common : List Token) (hu : IsTail u) (hv : IsTail v)
    (he : e.kind = .endOfText) (he' : e'.kind = .endOfText) : Simulation id where
  rel := Apart common u v e e'
  tok := ApartTokens common u v e e'
  current := by
    rintro _ _ _ (@⟨_ | ⟨t, ts⟩, hts⟩ | _)
    · exact .tail
    · exact .before (hts.subset (.head _))
    · exact .past
  alike := by
    rintro _ _ _ (_ | _ | _)
    · exact .inl rfl
    · exact .inr ⟨hu.stops he, hv.stops he'⟩
    · exact .inr ⟨hu.stops_afterBreaks he, hv.stops_afterBreaks he'⟩
  ending := by
    rintro _ _ _ (_ | _) <;> exact ⟨he, he'⟩
  advance := by
    rintro _ _ _ (@⟨_ | ⟨t, ts⟩, hts⟩ | _) hstops
    · exact absurd (hu.stops he) hstops
    · exact .before ((List.sublist_cons_self t ts).trans hts)
    · exact absurd (hu.stops_afterBreaks he) hstops
  skip := by
    intro past s s' h
    rcases h.skipNewlines with ⟨rfl, t, ts, hts, -, hs, hs'⟩ | ⟨hs, hs'⟩
    · rw [hs, hs']
      exact .inl (.before hts)
    · rw [hs, hs']
      exact .inr .past
  stops := by
    rintro _ _ (_ | _ | _)
    exact ⟨hu.stops_afterBreaks he, hv.stops_afterBreaks he'⟩
  starts s s' := ∃ t : Token, t.kind = .const ∧
    s = ⟨t :: (common ++ u), e⟩ ∧ s' = ⟨t :: (common ++ v), e'⟩
  first := by
    rintro _ _ ⟨t, ht, rfl, rfl⟩
    exact ⟨ht, ht, rfl, .before (.refl _)⟩

/-- Skipping a line stays in the common part, or at its end. -/
theorem Apart.skipLine (hu : IsTail u) (hv : IsTail v) {s s' : Stream}
    (h : Apart common u v e e' false s s') :
    Apart common u v e e' false s.skipLine s'.skipLine := by
  -- a tail starts with a line break, or is empty
  have hkeep : ∀ {w}, IsTail w → w.dropWhile (·.kind ≠ .newline) = w := by
    rintro (_ | ⟨t, w⟩) hw
    · rfl
    · exact List.dropWhile_cons_of_neg (by simpa using hw.head_kind t rfl)
  obtain ⟨ts, hts, rfl, rfl⟩ : ∃ ts, ts.Sublist common ∧ s = ⟨ts ++ u, e⟩ ∧ s' = ⟨ts ++ v, e'⟩ := by
    cases h with
    | before hts => exact ⟨_, hts, rfl, rfl⟩
  have hdrop : ∀ {w}, IsTail w →
      (ts ++ w).dropWhile (·.kind ≠ .newline) = ts.dropWhile (·.kind ≠ .newline) ++ w := by
    intro w hw
    rw [List.dropWhile_append, hkeep hw]
    split
    · next h => rw [List.isEmpty_iff.mp h, List.nil_append]
    · rfl
  rw [Stream.skipLine, Stream.skipLine, hdrop hu, hdrop hv]
  exact .before ((List.dropWhile_sublist _).trans hts)

/-- Past the common part there is one line at most, which skipping takes. -/
theorem IsTail.skipLine (hu : IsTail u) :
    Stream.skipLine ⟨afterBreaks u, e⟩ = ⟨[], e⟩ := by
  have hall : (afterBreaks u).dropWhile (·.kind ≠ .newline) = [] :=
    List.dropWhile_eq_nil_iff.mpr fun t ht => by simpa using hu.single t ht
  rw [Stream.skipLine, hall]

end Tails

namespace Program

/-! ## Lines -/

section Lines

variable {limit lines : Nat} {s : Stream}

theorem parseLines_end (h : s.skipNewlines.pending = []) : parseLines limit lines s = .ok {} := by
  cases lines with
  | zero => rfl
  | succ lines =>
    rw [parseLines]
    dsimp only
    rw [if_pos (by rw [Stream.atEnd, h]; rfl)]

theorem parseLines_congr {s' : Stream} (h : s.skipNewlines = s'.skipNewlines) :
    parseLines limit lines s = parseLines limit lines s' := by
  cases lines with
  | zero => rfl
  | succ lines => rw [parseLines, parseLines, h]

variable {t : Token} {ts : List Token} {e : Token}

theorem parseLines_junk (h : s.skipNewlines = ⟨t :: ts, e⟩) (ht : t.kind ≠ .const) :
    parseLines limit (lines + 1) s =
      (parseLines limit lines (Stream.skipLine ⟨t :: ts, e⟩)).map (.after ⟨.declaration, t⟩) := by
  rw [parseLines, h]
  exact if_pos ht

/-- Whether a declaration is at the end of its line. -/
def endsHere (s : Stream) : Bool := s.atEnd || s.current.kind = .newline

theorem parseLines_const (h : s.skipNewlines = ⟨t :: ts, e⟩) (ht : t.kind = .const) :
    parseLines limit (lines + 1) s =
      match (Decl.parse limit).run ⟨t :: ts, e⟩ with
      | .ok d s => (parseLines limit lines s.skipLine).map fun o =>
          (if endsHere s then o else o.after ⟨.endOfLine, s.current⟩).afterDecl d
      | .error (.mismatch m) s => (parseLines limit lines s.skipLine).map (.after m)
      | .error f _ => .error f := by
  rw [parseLines, h]
  dsimp only
  rw [if_neg (by simp [Stream.atEnd]), if_neg (by simpa [Stream.current] using ht)]
  cases (Decl.parse limit).run ⟨t :: ts, e⟩ with
  | error f s => cases f <;> rfl
  | ok d s =>
    dsimp only
    rw [endsHere]
    split <;> rfl

end Lines

/-! ## Kept or lost -/

/-- How the statements of a text go on once some more declarations stand behind it. They are
kept, where no mismatch was found at its end, or lost. -/
inductive Continued (seen : Token → Prop) (ending : Token) (more : List Decl)
    (o o' : Statements) : Prop
  | kept (hfound : ∀ m ∈ o.mismatches, seen m.found) (hdecls : o'.decls = o.decls ++ more)
  | lost (hfound : ∃ m ∈ o.mismatches, m.found = ending) (hdecls : o'.decls = o.decls)

/-- If the lines of a text are read, then so are those of the longer text. -/
def GoesOn (seen : Token → Prop) (ending : Token) (more : List Decl)
    (r r' : Except ParseFailure Statements) : Prop :=
  ∀ o, r = .ok o → ∃ o', r' = .ok o' ∧ Continued seen ending more o o'

namespace GoesOn

variable {seen : Token → Prop} {ending : Token} {more : List Decl}
  {r r' : Except ParseFailure Statements}

theorem mono {seen' : Token → Prop} (h : GoesOn seen ending more r r')
    (hseen : ∀ t, seen t → seen' t) : GoesOn seen' ending more r r' := by
  intro o ho
  obtain ⟨o', ho', hcontinued⟩ := h o ho
  refine ⟨o', ho', ?_⟩
  cases hcontinued with
  | kept hfound hdecls => exact .kept (fun m hm => hseen _ (hfound m hm)) hdecls
  | lost hfound hdecls => exact .lost hfound hdecls

/-- Two steps in front that add the same declarations, and mismatches that are no news. -/
theorem map {f f' : Statements → Statements} (h : GoesOn seen ending more r r')
    (hf : ∀ o o', Continued seen ending more o o' → Continued seen ending more (f o) (f' o')) :
    GoesOn seen ending more (r.map f) (r'.map f') := by
  intro o ho
  obtain ⟨o₁, rfl, rfl⟩ := map_eq_ok.mp ho
  obtain ⟨o₁', rfl, hcontinued⟩ := h o₁ rfl
  exact ⟨f' o₁', rfl, hf o₁ o₁' hcontinued⟩

end GoesOn

theorem Continued.after {seen : Token → Prop} {ending : Token} {more : List Decl}
    {o o' : Statements} {m m' : Mismatch} (hm : seen m.found)
    (h : Continued seen ending more o o') :
    Continued seen ending more (o.after m) (o'.after m') := by
  cases h with
  | kept hfound hdecls => exact .kept (List.forall_mem_cons.mpr ⟨hm, hfound⟩) hdecls
  | lost hfound hdecls =>
    obtain ⟨m, hmem, hend⟩ := hfound
    exact .lost ⟨m, .tail _ hmem, hend⟩ hdecls

theorem Continued.afterDecl {seen : Token → Prop} {ending : Token} {more : List Decl}
    {o o' : Statements} (d : Decl) (h : Continued seen ending more o o') :
    Continued seen ending more (o.afterDecl d) (o'.afterDecl d) := by
  cases h with
  | kept hfound hdecls => exact .kept hfound (congrArg (d :: ·) hdecls)
  | lost hfound hdecls => exact .lost hfound (congrArg (d :: ·) hdecls)

section Tails

variable {common u v : List Token} {e e' : Token}

/-- Where streams with different tails are left after a mismatch. Either it was found in the
common part, or at the end, past the line break, and then the rest is skipped. -/
theorem skipLine_of_fails {hu : IsTail u} {hv : IsTail v} {he : e.kind = .endOfText}
    {he' : e'.kind = .endOfText} (hend : afterBreaks u = []) {m : Mismatch} {f' : ParseFailure}
    {s s' : Stream}
    (h : (Simulation.tails common hu hv he he').Fails (.mismatch m) s f' s') :
    ∃ m', f' = .mismatch m' ∧
      ((m.found ∈ common ∨ m.found = u.headD e) ∧
          Apart common u v e e' false s.skipLine s'.skipLine ∨
        m.found = e ∧ s.skipLine = ⟨[], e⟩ ∧ s'.skipLine = ⟨[], e'⟩) := by
  obtain ⟨past, hrel, hfail⟩ := h
  cases hfail with
  | @mismatch wanted t t' htok =>
    refine ⟨_, rfl, ?_⟩
    change Apart common u v e e' past s s' at hrel
    change ApartTokens common u v e e' past t t' at htok
    cases htok with
    | before ht => exact .inl ⟨.inl ht, hrel.skipLine hu hv⟩
    | tail => exact .inl ⟨.inr rfl, hrel.skipLine hu hv⟩
    | past =>
      cases hrel
      exact .inr ⟨by rw [hend]; rfl, hu.skipLine, hv.skipLine⟩

/-- A declaration is at the end of its line for both streams or for neither. -/
theorem endsHere_of_apart (hu : IsTail u) (hv : IsTail v) {s s' : Stream}
    (h : Apart common u v e e' false s s') :
    endsHere s' = endsHere s ∧
      (endsHere s = false → s'.current = s.current ∧ s.current ∈ common) := by
  have hends : ∀ {w : List Token} (e : Token), IsTail w → endsHere ⟨w, e⟩ = true := by
    rintro (_ | ⟨t, w⟩) e hw
    · rfl
    · simp [endsHere, Stream.current, hw.head_kind t rfl]
  cases h with
  | @before ts hts =>
    cases ts with
    | nil =>
      have h := hends e hu
      refine ⟨(hends e' hv).trans h.symm, fun hfalse => ?_⟩
      rw [List.nil_append, h] at hfalse
      cases hfalse
    | cons t ts => exact ⟨rfl, fun _ => ⟨rfl, hts.subset (.head _)⟩⟩

/-- The tokens at which a mismatch leaves what stands behind the common part. -/
def Seen (common u : List Token) (e t : Token) : Prop := t ∈ common ∨ t = u.headD e

/-- One line that is no declaration. -/
theorem junk_goesOn (hu : IsTail u) (hv : IsTail v) {limit limit' lines lines' : Nat}
    {more : List Decl} {s s' : Stream} {t : Token} {ts : List Token}
    (hs : s.skipNewlines = ⟨t :: (ts ++ u), e⟩) (hs' : s'.skipNewlines = ⟨t :: (ts ++ v), e'⟩)
    (hnewline : t.kind ≠ .newline) (hconst : t.kind ≠ .const) (ht : t ∈ common)
    (hnext : ∀ {r r'}, Apart ts u v e e' false r r' → GoesOn (Seen common u e) e more
      (parseLines limit lines r) (parseLines limit' lines' r')) :
    GoesOn (Seen common u e) e more (parseLines limit (lines + 1) s)
      (parseLines limit' (lines' + 1) s') := by
  have hskip : ∀ (w : List Token) (e : Token),
      Stream.skipLine ⟨t :: (ts ++ w), e⟩ = Stream.skipLine ⟨ts ++ w, e⟩ := fun w e =>
    congrArg (Stream.mk · e) (List.dropWhile_cons_of_pos (by simpa using hnewline))
  rw [parseLines_junk hs hconst, parseLines_junk hs' hconst, hskip, hskip]
  exact (hnext (Apart.skipLine hu hv (.before (.refl ts)))).map fun o o' => .after (.inl ht)

/-- One line that starts a declaration. -/
theorem const_goesOn (hu : IsTail u) (hend : afterBreaks u = []) (hv : IsTail v)
    (he : e.kind = .endOfText) (he' : e'.kind = .endOfText) {limit limit' lines lines' : Nat}
    {more : List Decl} {s s' : Stream} {t : Token} {ts : List Token}
    (hs : s.skipNewlines = ⟨t :: (ts ++ u), e⟩) (hs' : s'.skipNewlines = ⟨t :: (ts ++ v), e'⟩)
    (hconst : t.kind = .const) (hsub : ts.Sublist common)
    (hlimit : ts.length + u.length + 1 < limit) (hlimit' : ts.length + v.length + 1 < limit')
    (hnext : ∀ {r r'}, Apart ts u v e e' false r r' → GoesOn (Seen common u e) e more
      (parseLines limit lines r) (parseLines limit' lines' r')) :
    GoesOn (Seen common u e) e more (parseLines limit (lines + 1) s)
      (parseLines limit' (lines' + 1) s') := by
  rw [parseLines_const hs hconst, parseLines_const hs' hconst]
  have hstart : (Simulation.tails ts hu hv he he').Starts limit limit'
      ⟨t :: (ts ++ u), e⟩ ⟨t :: (ts ++ v), e'⟩ :=
    ⟨⟨t, hconst, rfl, rfl⟩, by simpa using hlimit, by simpa using hlimit'⟩
  have hresults := (Simulation.tails ts hu hv he he').parse_decl (Nat.le_refl limit)
    (Nat.le_refl limit') _ _ hstart
  generalize (Decl.parse limit).run _ = r, (Decl.parse limit').run _ = r' at hresults
  cases hresults with
  | @ok d d' r r' hd hrest =>
    obtain rfl : d' = d := hd.trans d.moved_id
    have hrest : Apart ts u v e e' false r r' := hrest.1
    obtain ⟨hends, hcurrent⟩ := endsHere_of_apart hu hv hrest
    dsimp only
    rw [hends]
    -- the declaration is kept, and so is a mismatch in the common part behind it
    refine (hnext (hrest.skipLine hu hv)).map fun o o' h => Continued.afterDecl d' ?_
    split
    · exact h
    · next hhere =>
      exact h.after (.inl (hsub.subset (hcurrent (Bool.eq_false_iff.mpr hhere)).2))
  | @error f f' r r' hfails =>
    cases f with
    | unreadable lexeme => exact nofun
    | mismatch m =>
      obtain ⟨m', rfl, ⟨hseen, hrest⟩ | ⟨hfound, hr, hr'⟩⟩ := skipLine_of_fails hend hfails
      · exact (hnext hrest).map fun o o' => .after (hseen.imp_left (hsub.subset ·))
      · -- the mismatch is at the end, past the line break: what stands behind it is lost
        dsimp only
        rw [hr, hr', parseLines_end rfl, parseLines_end rfl]
        rintro _ ⟨⟩
        exact ⟨_, rfl, .lost ⟨m, .head _, hfound⟩ rfl⟩

/-- What stands behind some lines is read after them, or lost. -/
theorem parseLines_goesOn (hu : IsTail u) (hend : afterBreaks u = []) (hv : IsTail v)
    (he : e.kind = .endOfText) (he' : e'.kind = .endOfText) {limit limit' : Nat}
    {more : Statements} (hmore : ∀ n, parseLines limit' (n + 1) ⟨v, e'⟩ = .ok more) :
    ∀ (lines lines' : Nat) {common : List Token} {past : Bool} {s s' : Stream},
      common.length + u.length < limit → common.length + v.length < limit' →
      Apart common u v e e' past s s' → s.pending.length < lines → s'.pending.length < lines' →
      GoesOn (Seen common u e) e more.decls (parseLines limit lines s)
        (parseLines limit' lines' s') := by
  intro lines
  induction lines with
  | zero => exact fun _ _ _ _ _ _ _ _ hlt => absurd hlt (Nat.not_lt_zero _)
  | succ lines ih =>
    rintro (_ | lines') common past s s' hlimit hlimit' happart hlt hlt'
    · exact absurd hlt' (Nat.not_lt_zero _)
    rcases happart.skipNewlines with ⟨rfl, t, ts, hts, ht, hs, hs'⟩ | ⟨hs, hs'⟩
    · have hle : ∀ s : Stream, s.skipNewlines.pending.length ≤ s.pending.length :=
        fun s => (List.dropWhile_sublist _).length_le
      have hlen := hle s
      have hlen' := hle s'
      have htslen := hts.length_le
      rw [hs] at hlen
      rw [hs'] at hlen'
      simp only [List.length_append, List.length_cons] at hlen hlen' htslen
      have hsub : ts.Sublist common := (List.sublist_cons_self t ts).trans hts
      -- each line takes its first token at least, so the later ones go on by induction
      have hnext : ∀ {r r' : Stream}, Apart ts u v e e' false r r' →
          GoesOn (Seen common u e) e more.decls (parseLines limit lines r)
            (parseLines limit' lines' r') := fun hr => by
        have hbounds := hr.length_le
        exact (ih lines' (by omega) (by omega) hr (by omega) (by omega)).mono
          fun t ht => ht.imp_left (hsub.subset ·)
      by_cases hconst : t.kind = .const
      · exact const_goesOn hu hend hv he he' hs hs' hconst hsub (by omega) (by omega) hnext
      · exact junk_goesOn hu hv hs hs' ht hconst (hts.subset (.head _)) hnext
    · -- all lines of the first stream are read
      intro o ho
      rw [parseLines_end (by rw [hs]; exact hend)] at ho
      obtain rfl := Except.ok.inj ho
      refine ⟨more, ?_, .kept (fun _ h => absurd h List.not_mem_nil) rfl⟩
      rw [← hmore lines']
      exact parseLines_congr hs'

/-! ## Programs -/

/-- A header is read as before, whatever stands behind the text. -/
theorem parseName_goesOn (hu : IsTail u) (hend : afterBreaks u = []) (hv : IsTail v)
    (he : e.kind = .endOfText) (he' : e'.kind = .endOfText) {s s' : Stream}
    (h : Apart common u v e e' false s s') {name : Option String} {found : List Mismatch}
    {rest : Stream} (hname : parseName s = .ok (name, found, rest)) :
    ∃ found' rest', parseName s' = .ok (name, found', rest') ∧
      ((∀ m ∈ found, Seen common u e m.found) ∧
          (∃ past, Apart common u v e e' past rest rest') ∨
        (∃ m ∈ found, m.found = e) ∧ rest = ⟨[], e⟩ ∧ rest' = ⟨[], e'⟩) := by
  have hnone : ∀ m ∈ ([] : List Mismatch), Seen common u e m.found :=
    fun _ hm => absurd hm List.not_mem_nil
  rw [parseName] at hname ⊢
  rcases h.skipNewlines with ⟨-, t, ts, hts, ht, hs, hs'⟩ | ⟨hs, hs'⟩
  · -- the first line is in the common part, so both texts start with the same token
    have hcurrent : ∀ (w : List Token) (e : Token),
        (Stream.mk (t :: (ts ++ w)) e).current = t := fun _ _ => rfl
    rw [hs, hcurrent] at hname
    rw [hs', hcurrent]
    by_cases hheader : t.kind = .program
    · -- it starts a header, which is read in step
      rw [if_pos hheader] at hname ⊢
      have hlt : ∀ s : Stream, s.pending.length < s.limit := fun s => Nat.lt_succ_self _
      have hresults := (Simulation.tails common hu hv he he').header_step
        ⟨t :: (ts ++ u), e⟩ ⟨t :: (ts ++ v), e'⟩ ⟨.before hts, hlt _, hlt _⟩
      generalize parseHeader.run ⟨t :: (ts ++ u), e⟩ = r,
        parseHeader.run ⟨t :: (ts ++ v), e'⟩ = r' at hresults hname ⊢
      cases hresults with
      | ok hvalue hrest =>
        -- the header is in order: one name, and nothing to report
        subst hvalue
        cases hname
        exact ⟨_, _, rfl, .inl ⟨hnone, false, hrest.1⟩⟩
      | @error f f' r r' hfails =>
        cases f with
        | unreadable lexeme => cases hname
        | mismatch m =>
          cases hname
          obtain ⟨m', rfl, ⟨hseen, hrest⟩ | ⟨hfound, hr, hr'⟩⟩ := skipLine_of_fails hend hfails
          · -- the header breaks off within its line, and both texts skip the rest of that line
            refine ⟨_, _, rfl, .inl ⟨?_, false, hrest⟩⟩
            exact fun m hm => List.mem_singleton.mp hm ▸ hseen
          · -- or past the line break at the end, and then the longer text loses its last line
            exact ⟨_, _, rfl, .inr ⟨⟨m, .head _, hfound⟩, hr, hr'⟩⟩
    · -- it starts no header: there is no name, and nothing is taken
      rw [if_neg hheader] at hname ⊢
      cases hname
      exact ⟨_, _, rfl, .inl ⟨hnone, false, .before hts⟩⟩
  · -- the common part has line breaks only, and what stands behind it starts no header
    have hstop : ∀ {w e}, IsTail w → e.kind = .endOfText →
        (Stream.mk (afterBreaks w) e).current.kind ≠ .program := by
      intro w e hw he hprogram
      have hstops := hw.stops_afterBreaks he
      rw [show ((afterBreaks w).headD e).kind = .program from hprogram] at hstops
      exact absurd hstops (by decide)
    rw [hs, if_neg (hstop hu he)] at hname
    rw [hs', if_neg (hstop hv he')]
    cases hname
    exact ⟨_, _, rfl, .inl ⟨hnone, true, .past⟩⟩

/-- What stands behind a program is read as well, or lost. -/
theorem ofStream_goesOn (hu : IsTail u) (hend : afterBreaks u = []) (hv : IsTail v)
    (he : e.kind = .endOfText) (he' : e'.kind = .endOfText) (more : Statements)
    (hmore : ∀ n, parseLines (common.length + v.length + 1) (n + 1) ⟨v, e'⟩ = .ok more)
    {program : Program} {found : List Mismatch}
    (h : ofStream ⟨common ++ u, e⟩ = .ok (program, found)) :
    ∃ program' found', ofStream ⟨common ++ v, e'⟩ = .ok (program', found') ∧
      program'.name = program.name ∧ Continued (Seen common u e) e more.decls
        ⟨program.statements, found⟩ ⟨program'.statements, found'⟩ := by
  have hlimit : ∀ (w : List Token) (e : Token),
      (Stream.mk (common ++ w) e).limit = common.length + w.length + 1 := fun w e => by
    rw [Stream.limit, List.length_append]
  rw [ofStream, hlimit] at h
  rw [ofStream, hlimit]
  obtain ⟨⟨name, found₁, rest⟩, hname, h⟩ := bind_eq_ok.mp h
  obtain ⟨o, ho, h⟩ := bind_eq_ok.mp h
  cases h
  obtain ⟨found₁', rest', hname', hcases⟩ :=
    parseName_goesOn hu hend hv he he' (.before (.refl common)) hname
  rw [hname', ok_bind]
  dsimp only at ho ⊢
  rcases hcases with ⟨hseen, past, hrest⟩ | ⟨hfound, hr, hr'⟩
  · -- the header ends in the common part, and the lines go on from there
    have hbounds := hrest.length_le
    obtain ⟨o', ho', hcontinued⟩ := parseLines_goesOn hu hend hv he he' hmore
      (common.length + u.length + 1) (common.length + v.length + 1) (by omega) (by omega) hrest
      (by omega) (by omega) o ho
    rw [ho']
    refine ⟨_, _, rfl, rfl, ?_⟩
    cases hcontinued with
    | kept hfound hdecls =>
      exact .kept (fun m hm => (List.mem_append.mp hm).elim (hseen m) (hfound m)) hdecls
    | lost hfound hdecls =>
      obtain ⟨m, hm, hend⟩ := hfound
      exact .lost ⟨m, List.mem_append_right _ hm, hend⟩ hdecls
  · -- the header runs into the end, and what stands behind the line break is lost with it
    rw [hr, parseLines_end rfl] at ho
    cases ho
    rw [hr', parseLines_end rfl]
    obtain ⟨m, hm, hend⟩ := hfound
    exact ⟨_, _, rfl, rfl, .lost ⟨m, List.mem_append_left _ hm, hend⟩ rfl⟩

end Tails

end Program

end BinaryPoint
