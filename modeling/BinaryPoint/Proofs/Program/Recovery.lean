import BinaryPoint.Proofs.Program.Lines
import BinaryPoint.Proofs.Program.Tail
import BinaryPoint.Proofs.Program.Totality

/-! # Recovery at the next line

A text is compared with the same text and one more line behind it, which holds a declaration.
Whatever is wrong with the text, the declaration is read as well, unless a list of samples is
open where the text ends: the line break then counts as one inside of the list.

* `Program.parse_append_line`: the declaration is the last one of the whole text if and only
  if no mismatch is found at the end of the text before it;
* `Program.not_forall_parse_append_line`: an open list swallows it.
-/

namespace BinaryPoint

/-! ## A line that holds a declaration -/

/-- A stream corresponds to the same stream at other positions. -/
def Simulation.moving (move : Location → Location) : Simulation move where
  rel past s s' := past = false ∧ s' = s.moved move ∧ s.ending.kind = .endOfText
  tok past t t' := past = false ∧ t' = t.moved move
  current := by
    rintro _ ⟨_ | ⟨t, ts⟩, e⟩ _ ⟨hpast, rfl, -⟩ <;> exact ⟨hpast, rfl⟩
  alike := fun ⟨_, h⟩ => .inl h
  ending := fun ⟨_, h, hend⟩ => ⟨hend, h ▸ hend⟩
  advance := by
    rintro _ ⟨ts, e⟩ _ ⟨hpast, rfl, hend⟩ -
    exact ⟨hpast, congrArg (Stream.mk · _) List.map_tail.symm, hend⟩
  skip := by
    rintro _ ⟨ts, e⟩ _ ⟨hpast, rfl, hend⟩
    exact .inl ⟨hpast, congrArg (Stream.mk · _) List.dropWhile_map, hend⟩
  stops := fun ⟨h, _⟩ => Bool.noConfusion h
  starts s s' := s' = s.moved move ∧ s.ending.kind = .endOfText ∧ s.current.kind = .const
  first := by
    rintro ⟨_ | ⟨t, ts⟩, e⟩ _ ⟨rfl, hend, hconst⟩
    · cases hend.symm.trans hconst
    · exact ⟨hconst, hconst, rfl, rfl, rfl, hend⟩

namespace Program

/-- The tokens of a line that holds just a declaration. -/
structure IsDeclarationLine (limit : Nat) (ts : List Token) (ending : Token) (d : Decl) : Prop where
  ends : ending.kind = .endOfText
  single : ∀ t ∈ ts, t.kind ≠ .newline
  starts : ∃ t ts', ts = t :: ts' ∧ t.kind = .const
  long : ts.length < limit
  run : ∃ e, (Decl.parse limit).run ⟨ts, ending⟩ = .ok d ⟨[], e⟩

/-- No token of a line is a line break, so nothing is skipped. -/
theorem skipNewlines_of_single {ts : List Token} (ending : Token)
    (h : ∀ t ∈ ts, t.kind ≠ .newline) : Stream.skipNewlines ⟨ts, ending⟩ = ⟨ts, ending⟩ := by
  rcases ts with _ | ⟨t, ts⟩
  · rfl
  · exact congrArg (Stream.mk · ending)
      (List.dropWhile_cons_of_neg (by simpa using h t (.head _)))

/-- A line of which just one declaration is read, without any mismatch, holds that
declaration. -/
theorem isDeclarationLine_of_parseLines {limit lines : Nat} {ts : List Token} {ending : Token}
    {d : Decl} (hend : ending.kind = .endOfText) (hsingle : ∀ t ∈ ts, t.kind ≠ .newline)
    (hlimit : ts.length < limit)
    (h : parseLines limit (lines + 1) ⟨ts, ending⟩ = .ok ⟨[d], []⟩) :
    IsDeclarationLine limit ts ending d := by
  have hskip := skipNewlines_of_single ending hsingle
  rcases ts with _ | ⟨t, ts⟩
  · rw [parseLines_end rfl] at h
    cases h
  by_cases hconst : t.kind = .const
  · have hstart : (Simulation.diagonal (t :: ts) hend).Starts limit limit ⟨t :: ts, ending⟩
        ⟨t :: ts, ending⟩ := ⟨⟨rfl, hconst, rfl, .refl _⟩, hlimit, hlimit⟩
    have hparse := (Simulation.diagonal (t :: ts) hend).parse_decl (Nat.le_refl limit)
      (Nat.le_refl limit)
    rw [parseLines_const hskip hconst] at h
    rcases run_cases hend hparse hstart with
      ⟨d', s, hrun, hs⟩ | ⟨found, s, hrun, -⟩ | ⟨t', -, -, -, s, hrun⟩
    · rw [hrun] at h
      obtain ⟨o, ho, hdecls⟩ := map_eq_ok.mp h
      have hends : endsHere s = true := by
        by_contra hends
        rw [if_neg hends] at hdecls
        cases congrArg Statements.mismatches hdecls
      -- without a line break in the line, its end is the end of the text
      have hatEnd : s.pending = [] := by
        rcases s with ⟨_ | ⟨r, rs⟩, e⟩
        · rfl
        · have hr := hsingle r (hs.2.subset (.head _))
          exact absurd hends (by simp [endsHere, Stream.atEnd, Stream.current, hr])
      rw [if_pos hends] at hdecls
      obtain rfl : d' = d := (List.cons.inj (congrArg Statements.decls hdecls)).1
      refine ⟨hend, hsingle, ⟨t, ts, rfl, hconst⟩, hlimit, s.ending, ?_⟩
      rw [hrun, ← hatEnd]
    · rw [hrun] at h
      obtain ⟨o, -, ho⟩ := map_eq_ok.mp h
      cases congrArg Statements.mismatches ho
    · rw [hrun] at h
      cases h
  · rw [parseLines_junk hskip hconst] at h
    obtain ⟨o, -, ho⟩ := map_eq_ok.mp h
    cases congrArg Statements.mismatches ho

/-- A text of one line with just one declaration has no header. -/
theorem isDeclarationLine_of_ofStream {ts : List Token} {ending : Token} {d : Decl}
    {place : Option Location} (hend : ending.kind = .endOfText)
    (hsingle : ∀ t ∈ ts, t.kind ≠ .newline)
    (h : ofStream ⟨ts, ending⟩ = .ok (⟨none, [d], place⟩, [])) :
    IsDeclarationLine (ts.length + 1) ts ending d := by
  obtain ⟨⟨name, found, rest⟩, hname, h⟩ := bind_eq_ok.mp h
  obtain ⟨o, ho, h⟩ := bind_eq_ok.mp h
  obtain ⟨hprogram, hfound⟩ := Prod.mk.inj (Except.ok.inj h)
  obtain ⟨rfl, hdecls, -⟩ := Program.mk.inj hprogram
  obtain ⟨rfl, hmismatches⟩ := List.append_eq_nil_iff.mp hfound
  rw [parseName, skipNewlines_of_single _ hsingle] at hname
  split at hname
  · generalize parseHeader.run _ = r at hname
    rcases r with ⟨name, s⟩ | ⟨_ | _, s⟩ <;> cases hname
  · cases hname
    refine isDeclarationLine_of_parseLines hend hsingle (Nat.lt_succ_self _) (ho.trans ?_)
    rw [← hmismatches, ← hdecls]

/-- Such a line holds the same declaration in another place. -/
theorem IsDeclarationLine.parseLines {limit limit' : Nat} {ts : List Token} {ending : Token}
    {d : Decl} (h : IsDeclarationLine limit ts ending d) (move : Location → Location)
    (hlimit : ts.length < limit') {s : Stream}
    (hs : s.skipNewlines = Stream.moved move ⟨ts, ending⟩) (lines : Nat) :
    Program.parseLines limit' (lines + 1) s = .ok ⟨[d.moved move], []⟩ := by
  obtain ⟨t, ts, rfl, hconst⟩ := h.starts
  obtain ⟨e, hrun⟩ := h.run
  have hstart : (Simulation.moving move).Starts limit limit' ⟨t :: ts, ending⟩
      (Stream.moved move ⟨t :: ts, ending⟩) :=
    ⟨⟨rfl, h.ends, hconst⟩, h.long, by simpa [Stream.moved] using hlimit⟩
  -- the declaration takes the same course at the other positions
  have hresults := (Simulation.moving move).parse_decl (Nat.le_refl limit) (Nat.le_refl limit')
    _ _ hstart
  rw [Stream.moved, List.map_cons] at hs hresults
  rw [parseLines_const hs hconst]
  rw [hrun] at hresults
  generalize (Decl.parse limit').run _ = r at hresults
  cases hresults with
  | @ok _ d' _ s' hd hrest =>
    obtain ⟨⟨-, rfl, -⟩, -⟩ := hrest
    rw [hd]
    dsimp only
    rw [parseLines_end rfl]
    rfl

/-! ## Texts -/

/-- A text of one line that holds just a declaration, in order. -/
structure IsDeclaration (q file : String) (d : Decl) : Prop where
  single : '\n' ∉ q.toList
  parses : ∃ place, parse q file = .ok (⟨none, [d], place⟩, [])

/-- A text that is found, with its last line ended, to want something at its end: a list of
samples is open there. -/
def OpenAtEnd (p file : String) : Prop :=
  ∃ program found, ofStream (.ofLexed (Lexed.ofText (p ++ "\n") file)) = .ok (program, found) ∧
    ∃ m ∈ found, m.found.kind = .endOfText

theorem openAtEnd_iff {p file : String} {ended : Program} {found : List Mismatch}
    (h : ofStream (.ofLexed (Lexed.ofText (p ++ "\n") file)) = .ok (ended, found)) :
    OpenAtEnd p file ↔ ∃ m ∈ found, m.found.kind = .endOfText := by
  refine ⟨?_, fun hm => ⟨ended, found, h, hm⟩⟩
  rintro ⟨ended', found', hrun, hm⟩
  obtain ⟨rfl, rfl⟩ := Prod.mk.inj (Except.ok.inj (h.symm.trans hrun))
  exact hm

/-- The tokens of a text that is a declaration. -/
theorem IsDeclaration.isDeclarationLine {q file : String} {d : Decl} (h : IsDeclaration q file d) :
    IsDeclarationLine ((Lexed.ofText q file).tokens.length + 1) (Lexed.ofText q file).tokens
      (Lexed.ofText q file).endToken d := by
  obtain ⟨place, hparse⟩ := h.parses
  obtain ⟨mismatches, hstream, hfound⟩ := parse_eq_ok.mp hparse
  obtain ⟨-, hmismatches⟩ := List.append_eq_nil_iff.mp hfound.symm
  rw [List.map_eq_nil_iff.mp hmismatches] at hstream
  exact isDeclarationLine_of_ofStream rfl (fun t => Lexed.kind_ne_newline h.single) hstream

/-- Nothing, or just a line break, is a tail behind which nothing stands. -/
theorem isTail_of_newline {t : Token} (ht : t.kind = .newline) {u : List Token}
    (hu : u = [] ∨ u = [t]) : IsTail u ∧ afterBreaks u = [] := by
  rcases hu with rfl | rfl
  · exact ⟨.nil, rfl⟩
  · have hafter : afterBreaks [t] = [] := List.dropWhile_cons_of_pos (by simpa using ht)
    refine ⟨⟨?_, ?_, ?_⟩, hafter⟩
    · rintro _ ⟨⟩
      exact ht
    · rw [hafter]
      exact fun _ h => absurd h (Option.not_mem_none _)
    · rw [hafter]
      exact fun _ h => absurd h List.not_mem_nil

section Line

variable {limit : Nat} {ts : List Token} {ending t : Token} {d : Decl}
  {move : Location → Location}

/-- Behind a line break stands the line. -/
theorem IsDeclarationLine.afterBreaks (h : IsDeclarationLine limit ts ending d)
    (ht : t.kind = .newline) : afterBreaks (t :: ts.map (Token.moved move)) =
      ts.map (Token.moved move) := by
  obtain ⟨first, rest, rfl, -⟩ := h.starts
  have hfirst := h.single first (.head _)
  rw [BinaryPoint.afterBreaks, List.dropWhile_cons_of_pos (by simpa using ht), List.map_cons]
  exact List.dropWhile_cons_of_neg (by simp [Token.moved, hfirst])

/-- A line break and a line with a declaration are a tail. -/
theorem IsDeclarationLine.isTail (h : IsDeclarationLine limit ts ending d)
    (ht : t.kind = .newline) : IsTail (t :: ts.map (Token.moved move)) := by
  refine ⟨?_, ?_, ?_⟩
  · rintro _ ⟨⟩
    exact ht
  · rw [h.afterBreaks ht]
    obtain ⟨first, rest, rfl, hconst⟩ := h.starts
    rintro _ ⟨⟩
    exact hconst
  · rw [h.afterBreaks ht]
    intro r hr
    obtain ⟨r, hmem, rfl⟩ := List.mem_map.mp hr
    exact h.single r hmem

/-- A line with a declaration behind the tokens of a text: the declaration is the last one of
the program, unless a mismatch was found at the end of the text. -/
theorem IsDeclarationLine.ofStream_append (h : IsDeclarationLine limit ts ending d)
    (move : Location → Location) (ht : t.kind = .newline) {common u : List Token}
    (hu : u = [] ∨ u = [t]) (hcommon : ∀ r ∈ common, r.kind ≠ .endOfText) {e e' : Token}
    (he : e.kind = .endOfText) (he' : e'.kind = .endOfText) {program : Program} {found : List Mismatch}
    (hprogram : ofStream ⟨common ++ u, e⟩ = .ok (program, found)) :
    ∃ ended found₁ whole found₂, ofStream ⟨common ++ [t], e'⟩ = .ok (ended, found₁) ∧
      ofStream ⟨common ++ t :: ts.map (Token.moved move), ending.moved move⟩ =
        .ok (whole, found₂) ∧ whole.name = program.name ∧
      ((∀ m ∈ found₁, m.found.kind ≠ .endOfText) ∧
          whole.statements = program.statements ++ [d.moved move] ∨
        (∃ m ∈ found₁, m.found.kind = .endOfText) ∧
          whole.statements = program.statements) := by
  obtain ⟨hutail, huafter⟩ := isTail_of_newline ht hu
  obtain ⟨hbreak, hbreakAfter⟩ := isTail_of_newline ht (.inr rfl)
  -- the line break alone adds nothing
  obtain ⟨ended, found₁, hended, hname, hcontinued⟩ :=
    ofStream_goesOn hutail huafter hbreak he he' {}
      (fun n => parseLines_end hbreakAfter) hprogram
  have hstatements : ended.statements = program.statements := by
    cases hcontinued with
    | kept _ hdecls => exact hdecls.trans (List.append_nil _)
    | lost _ hdecls => exact hdecls
  -- the line behind it adds the declaration
  have hlong : ts.length < common.length + (t :: ts.map (Token.moved move)).length + 1 := by
    simp only [List.length_cons, List.length_map]
    omega
  obtain ⟨whole, found₂, hwhole, hname', hcontinued'⟩ :=
    ofStream_goesOn hbreak hbreakAfter (h.isTail ht) he'
      (show (ending.moved move).kind = .endOfText from h.ends) ⟨[d.moved move], []⟩
      (h.parseLines move hlong (congrArg (Stream.mk · _) (h.afterBreaks ht))) hended
  refine ⟨ended, found₁, whole, found₂, hended, hwhole, hname'.trans hname, ?_⟩
  rw [← hstatements]
  cases hcontinued' with
  | kept hfound hdecls =>
    refine .inl ⟨fun m hm => ?_, hdecls⟩
    rcases hfound m hm with hmem | hmem
    · exact hcommon _ hmem
    · rw [hmem]
      exact ht ▸ nofun
  | lost hfound hdecls =>
    obtain ⟨m, hm, hend⟩ := hfound
    exact .inr ⟨⟨m, hm, hend ▸ he'⟩, hdecls⟩

theorem IsDeclarationLine.skipNewlines (h : IsDeclarationLine limit ts ending d)
    (move : Location → Location) :
    (Stream.moved move ⟨ts, ending⟩).skipNewlines = Stream.moved move ⟨ts, ending⟩ := by
  refine skipNewlines_of_single _ fun r hr => ?_
  obtain ⟨r, hmem, rfl⟩ := List.mem_map.mp hr
  exact h.single r hmem

/-- A program of just such a line. -/
theorem IsDeclarationLine.ofStream (h : IsDeclarationLine limit ts ending d)
    (move : Location → Location) :
    ∃ program, Program.ofStream (Stream.moved move ⟨ts, ending⟩) = .ok (program, []) ∧
      program.name = none ∧ program.statements = [d.moved move] := by
  have hskip := h.skipNewlines move
  -- a line that starts with a declaration has no header
  have hname : parseName (Stream.moved move ⟨ts, ending⟩) =
      .ok (none, [], Stream.moved move ⟨ts, ending⟩) := by
    obtain ⟨first, rest, rfl, hconst⟩ := h.starts
    rw [parseName, hskip]
    refine if_neg ?_
    simp [Stream.moved, Stream.current, Token.moved, hconst]
  have hlong : ts.length < (Stream.moved move ⟨ts, ending⟩).limit := by
    simp [Stream.limit, Stream.moved]
  have hlines := h.parseLines move hlong hskip (Stream.moved move ⟨ts, ending⟩).pending.length
  rw [Program.ofStream, hname, ok_bind]
  dsimp only
  rw [Stream.limit] at hlines ⊢
  rw [hlines]
  exact ⟨_, rfl, rfl, rfl⟩

end Line

/-- A text without any token is an empty program. -/
theorem ofStream_nil {e : Token} (he : e.kind = .endOfText) :
    ofStream ⟨[], e⟩ = .ok (⟨none, [], some e.place⟩, []) := by
  have hname : parseName ⟨[], e⟩ = .ok (none, [], ⟨[], e⟩) := if_neg (he ▸ nofun)
  rw [ofStream, hname, ok_bind]
  dsimp only
  rw [parseLines_end rfl]
  rfl

/-- **Parsing recovers at the next line.** A declaration on the line behind a text is the last
one of both together, with the positions that it has there, unless a list of samples is open
at the end of the text; then the declaration is lost. -/
theorem parse_append_line {p q file : String} {program : Program} {found : List Diagnostic}
    {d : Decl} (hp : parse p file = .ok (program, found)) (hq : IsDeclaration q file d) :
    ∃ program' found', parse (p ++ "\n" ++ q) file = .ok (program', found') ∧
      program'.name = program.name ∧
      (¬ OpenAtEnd p file →
        program'.statements = program.statements ++ [d.moved (Lexed.lineBelow p)]) ∧
      (OpenAtEnd p file → program'.statements = program.statements) := by
  obtain ⟨mismatches, hstream, -⟩ := parse_eq_ok.mp hp
  have hline := hq.isDeclarationLine
  have hbreak := Lexed.tokens_line_break p file
  have hwhole := Lexed.tokens_append_line p q file
  rw [← List.append_assoc] at hwhole
  rcases Lexed.tokens_line p file with ⟨hnone, hend⟩ | ⟨ts, t, u, ht, hu, hts, hended⟩
  · -- there is no token before the declaration
    rw [hnone, hend] at hbreak hwhole
    have hprogram : program.name = none ∧ program.statements = [] := by
      rw [Stream.ofLexed, hnone, ofStream_nil rfl] at hstream
      cases hstream
      exact ⟨rfl, rfl⟩
    have hclosed : ¬ OpenAtEnd p file := by
      have hrun := ofStream_nil (e := (Lexed.ofText (p ++ "\n") file).endToken) rfl
      rw [← List.append_nil [], ← hbreak] at hrun
      rw [openAtEnd_iff hrun]
      rintro ⟨m, hm, -⟩
      exact absurd hm List.not_mem_nil
    obtain ⟨whole, hrun, hname, hstatements⟩ := hline.ofStream (Lexed.lineBelow p)
    refine ⟨whole, _, parse_eq_ok.mpr ⟨[], ?_, rfl⟩, hname.trans hprogram.1.symm,
      fun _ => ?_, fun hopen => absurd hopen hclosed⟩
    · rw [Stream.ofLexed, hwhole, Lexed.endToken_append_line]
      exact hrun
    · rw [hprogram.2]
      exact hstatements
  · rw [hended] at hbreak hwhole
    rw [Stream.ofLexed, hts] at hstream
    -- the tokens before the line break are read alike with the declaration and without it
    have hcommon : ∀ r ∈ ts, r.kind ≠ .endOfText := fun r hr =>
      (Lexed.of_mem_tokens (hts ▸ List.mem_append_left u hr)).1
    obtain ⟨ended, found₁, whole, found₂, hrun₁, hrun₂, hname, hcases⟩ :=
      hline.ofStream_append (Lexed.lineBelow p) ht hu hcommon rfl
        (show (Lexed.ofText (p ++ "\n") file).endToken.kind = .endOfText from rfl) hstream
    rw [← hbreak] at hrun₁
    refine ⟨whole, _, parse_eq_ok.mpr ⟨found₂, ?_, rfl⟩, hname, ?_⟩
    · rw [Stream.ofLexed, hwhole, Lexed.endToken_append_line, List.append_assoc]
      exact hrun₂
    · rw [openAtEnd_iff hrun₁]
      -- the list is open just if a mismatch was found at the end
      rcases hcases with ⟨hnot, hstatements⟩ | ⟨hm, hstatements⟩
      · refine ⟨fun _ => hstatements, ?_⟩
        rintro ⟨m, hm, hend⟩
        exact absurd hend (hnot m hm)
      · exact ⟨fun hnot => absurd hm hnot, fun _ => hstatements⟩

/-- The declaration of a text is known from what is counted in it. -/
theorem exists_isDeclaration (q file : String) (hsingle : '\n' ∉ q.toList)
    (h : (parse q file).toOption.map (fun r => (r.1.name, r.1.statements.length, r.2.length)) =
      some (none, 1, 0)) : ∃ d, IsDeclaration q file d := by
  obtain ⟨⟨⟨name, statements, place⟩, found⟩, hparse, hcounts⟩ := Option.map_eq_some_iff.mp h
  simp only [Prod.mk.injEq] at hcounts
  obtain ⟨rfl, hlength, hfound⟩ := hcounts
  obtain ⟨d, rfl⟩ := List.length_eq_one_iff.mp hlength
  rw [List.length_eq_zero_iff.mp hfound] at hparse
  exact ⟨d, hsingle, place, eq_ok_of_toOption hparse⟩

/-- A line that breaks off costs nothing but itself. -/
theorem parse_append_line_unfinished :
    let p := "const A"
    let q := "const B = 1 within 0.5"
    ∃ program found d, parse p "<string>" = .ok (program, found) ∧ IsDeclaration q "<string>" d ∧
      ¬ OpenAtEnd p "<string>" ∧ ∃ program' found',
        parse (p ++ "\n" ++ q) "<string>" = .ok (program', found') ∧
        program'.statements = program.statements ++ [d.moved (Lexed.lineBelow p)] := by
  intro p q
  have hparses : (parse p "<string>").toOption.isSome = true := by decide +kernel
  obtain ⟨⟨program, found⟩, hp⟩ := Option.isSome_iff_exists.mp hparses
  obtain ⟨d, hq⟩ := exists_isDeclaration q "<string>" (by decide +kernel) (by decide +kernel)
  have hclosed : ¬ OpenAtEnd p "<string>" := by
    -- its mismatch is at the line break
    have hends : (ofStream (.ofLexed (Lexed.ofText (p ++ "\n") "<string>"))).toOption.map
        (fun r => r.2.all (·.found.kind ≠ .endOfText)) = some true := by decide +kernel
    rintro ⟨ended, mismatches, hrun, m, hm, hend⟩
    rw [hrun] at hends
    have hall := List.all_eq_true.mp (Option.some.inj hends) m hm
    exact absurd hend (by simpa using hall)
  obtain ⟨program', found', hwhole, -, hkept, -⟩ :=
    parse_append_line (eq_ok_of_toOption hp) hq
  exact ⟨program, found, d, eq_ok_of_toOption hp, hq, hclosed, program', found', hwhole,
    hkept hclosed⟩

/-- A declaration need not survive what stands on the line before it: behind an open list of
samples the line break does not count. -/
theorem not_forall_parse_append_line :
    ¬ ∀ p q file program found d, parse p file = .ok (program, found) → IsDeclaration q file d →
      ∃ program' found', parse (p ++ "\n" ++ q) file = .ok (program', found') ∧
        program'.statements.getLast? = some (d.moved (Lexed.lineBelow p)) := by
  intro hall
  have hparses : (parse "const A = [1," "<string>").toOption.isSome = true := by decide +kernel
  obtain ⟨⟨program, found⟩, hp⟩ := Option.isSome_iff_exists.mp hparses
  obtain ⟨d, hq⟩ := exists_isDeclaration "const B = 1 within 0.5" "<string>" (by decide +kernel)
    (by decide +kernel)
  obtain ⟨program', found', hwhole, hlast⟩ := hall _ _ _ _ _ d (eq_ok_of_toOption hp) hq
  have hnone : (parse ("const A = [1," ++ "\n" ++ "const B = 1 within 0.5") "<string>").toOption.map
      (fun r => r.1.statements.length) = some 0 := by decide +kernel
  rw [hwhole] at hnone
  rw [List.length_eq_zero_iff.mp (Option.some.inj hnone)] at hlast
  cases hlast

end Program

end BinaryPoint
