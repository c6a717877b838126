import BinaryPoint.Proofs.Program.Recovery

/-! # Positions are carried along

A parser looks at kinds and lexemes and at nothing else, so it goes the same way on tokens at
other positions, and what it gives has those positions.

* `Program.ofStream_moved`: a stream at other positions is read to the same program and the same
  mismatches at other positions;
* `Program.parseAt_congr`: texts with the same row of kinds and lexemes are parsed alike.
-/

namespace BinaryPoint

section Moved

variable (move : Location → Location)

/-- A mismatch at another position. -/
def Mismatch.moved (m : Mismatch) : Mismatch := ⟨m.wanted, m.found.moved move⟩

/-- A failure at another position. -/
def ParseFailure.moved : ParseFailure → ParseFailure
  | mismatch m => mismatch (m.moved move)
  | unreadable lexeme => unreadable lexeme

/-- A diagnostic at another position. -/
def Diagnostic.moved (d : Diagnostic) : Diagnostic := { d with place := d.place.map move }

/-- Statements whose parts are at other positions. -/
def Program.Statements.moved (s : Statements) : Statements :=
  ⟨s.decls.map (Decl.moved move), s.mismatches.map (Mismatch.moved move)⟩

/-- A program whose parts are at other positions. -/
def Program.moved (p : Program) : Program :=
  ⟨p.name, p.statements.map (Decl.moved move), p.place.map move⟩

namespace Stream

variable (s : Stream)

theorem length_moved : (s.moved move).pending.length = s.pending.length := List.length_map _

theorem limit_moved : (s.moved move).limit = s.limit := congrArg (· + 1) (length_moved move s)

theorem current_moved : (s.moved move).current = s.current.moved move := by
  rcases s with ⟨_ | ⟨t, ts⟩, e⟩ <;> rfl

theorem atEnd_moved : (s.moved move).atEnd = s.atEnd := by
  simp [atEnd, moved]

theorem skipNewlines_moved : (s.moved move).skipNewlines = s.skipNewlines.moved move :=
  congrArg (Stream.mk · _) List.dropWhile_map

theorem skipLine_moved : (s.moved move).skipLine = s.skipLine.moved move :=
  congrArg (Stream.mk · _) List.dropWhile_map

end Stream

/-- Failures that correspond are the same at other positions. -/
theorem Simulation.eq_moved_of_fails {f f' : ParseFailure} {s s' : Stream}
    (h : (Simulation.moving move).Fails f s f' s') : f' = f.moved move ∧ s' = s.moved move := by
  obtain ⟨past, ⟨-, rfl, -⟩, hfail⟩ := h
  refine ⟨?_, rfl⟩
  cases hfail with
  | mismatch htok =>
    obtain ⟨-, rfl⟩ := htok
    rfl
  | unreadable => rfl

end Moved

namespace Program

variable {move : Location → Location} {tokens : List Token} {ending : Token} {limit : Nat}
  {s : Stream}

/-- How a part of a program is parsed at both positions: with success, with a mismatch, or up to
a real literal that cannot be read. -/
theorem run_moved_cases {α : Type} {P P' : Stream → Stream → Prop} {x : Parser α}
    {Q Q' : α → α → Prop} {m m' n n' : Nat} (hend : ending.kind = .endOfText)
    (h : InStep P x x Q ((Simulation.diagonal tokens hend).Within false m m')
      (Simulation.diagonal tokens hend).Fails)
    (h' : InStep P' x x Q' ((Simulation.moving move).Within false n n')
      (Simulation.moving move).Fails)
    (hs : P s s) (hs' : P' s (s.moved move)) :
    (∃ a a' r, x.run s = .ok a r ∧ x.run (s.moved move) = .ok a' (r.moved move) ∧ Q' a a' ∧
        r.Of tokens ending) ∨
      (∃ found r, x.run s = .error (.mismatch found) r ∧
        x.run (s.moved move) = .error (.mismatch (found.moved move)) (r.moved move) ∧
        r.Of tokens ending) ∨
      ∃ lexeme r r', x.run s = .error (.unreadable lexeme) r ∧
        x.run (s.moved move) = .error (.unreadable lexeme) r' := by
  have hresults := h' _ _ hs'
  rcases run_cases hend h hs with
    ⟨a, r, hrun, hr⟩ | ⟨found, r, hrun, hr⟩ | ⟨t, -, -, -, r, hrun⟩
  -- what the run comes to here, it comes to at the other positions
  all_goals
    rw [hrun] at hresults
    generalize x.run (s.moved move) = result at hresults ⊢
  · cases hresults with
    | ok hvalue hrest =>
      obtain ⟨⟨-, rfl, -⟩, -⟩ := hrest
      exact .inl ⟨a, _, r, hrun, rfl, hvalue, hr⟩
  · cases hresults with
    | error hfails =>
      obtain ⟨rfl, rfl⟩ := Simulation.eq_moved_of_fails move hfails
      exact .inr (.inl ⟨found, r, hrun, rfl, hr⟩)
  · cases hresults with
    | error hfails =>
      obtain ⟨rfl, rfl⟩ := Simulation.eq_moved_of_fails move hfails
      exact .inr (.inr ⟨_, r, _, hrun, rfl⟩)

theorem endsHere_moved : endsHere (s.moved move) = endsHere s := by
  rw [endsHere, endsHere, Stream.atEnd_moved, Stream.current_moved]
  rfl

/-- Lines at other positions are read to the same statements there. -/
theorem parseLines_moved (hend : ending.kind = .endOfText) (hlimit : tokens.length < limit)
    (lines : Nat) (hs : s.Of tokens ending) :
    parseLines limit lines (s.moved move) =
      (parseLines limit lines s).map (Statements.moved move) := by
  induction lines generalizing s with
  | zero => rfl
  | succ lines ih =>
    -- what is read of the lines behind a stream that is left over
    have hlater : ∀ {r : Stream} {f f' : Statements → Statements}, r.Of tokens ending →
        (∀ o, f' (o.moved move) = (f o).moved move) →
        (parseLines limit lines (r.moved move).skipLine).map f' =
          ((parseLines limit lines r.skipLine).map f).map (Statements.moved move) := by
      intro r f f' hr hf
      rw [Stream.skipLine_moved, ih hr.skipLine]
      cases parseLines limit lines r.skipLine with
      | error e => rfl
      | ok o => exact congrArg Except.ok (hf o)
    have hmoved := Stream.skipNewlines_moved move s
    have hskip := hs.skipNewlines
    rcases hnext : s.skipNewlines with ⟨_ | ⟨t, ts⟩, e⟩
    · have hnone : (s.moved move).skipNewlines.pending = [] := by rw [hmoved, hnext]; rfl
      rw [parseLines_end hnone, parseLines_end (by rw [hnext])]
      rfl
    rw [hnext] at hmoved hskip
    by_cases hconst : t.kind = .const
    · rw [parseLines_const hnext hconst, parseLines_const hmoved hconst]
      have hlt := hskip.length_lt hlimit
      have hlt' := (Stream.length_moved move ⟨t :: ts, e⟩).trans_lt hlt
      have hstart : (Simulation.diagonal tokens hend).Starts limit limit ⟨t :: ts, e⟩ ⟨t :: ts, e⟩ :=
        ⟨⟨rfl, hconst, hskip⟩, hlt, hlt⟩
      have hdecl := run_moved_cases hend
        ((Simulation.diagonal tokens hend).parse_decl (Nat.le_refl limit) (Nat.le_refl limit))
        ((Simulation.moving move).parse_decl (Nat.le_refl limit) (Nat.le_refl limit))
        hstart ⟨⟨rfl, hskip.1 ▸ hend, hconst⟩, hlt, hlt'⟩
      rw [Stream.moved, List.map_cons] at hdecl
      rcases hdecl with ⟨d, _, r, hrun, hrun', rfl, hr⟩ | ⟨found, r, hrun, hrun', hr⟩ |
        ⟨lexeme, r, r', hrun, hrun'⟩
      all_goals rw [hrun, hrun']
      · refine hlater hr fun o => ?_
        rw [endsHere_moved, Stream.current_moved]
        split <;> rfl
      · exact hlater hr fun _ => rfl
      · rfl
    · rw [parseLines_junk hnext hconst, parseLines_junk hmoved hconst]
      exact hlater hskip fun _ => rfl

/-- A header at another position is read to the same name, and leaves the rest where it is. -/
theorem parseName_moved (hend : ending.kind = .endOfText) (hs : s.Of tokens ending) :
    parseName (s.moved move) =
      (parseName s).map fun (name, found, rest) =>
        (name, found.map (Mismatch.moved move), rest.moved move) := by
  have hskip := hs.skipNewlines
  rw [parseName, parseName, Stream.skipNewlines_moved]
  generalize s.skipNewlines = s at hskip
  dsimp only
  rw [Stream.current_moved]
  by_cases hheader : s.current.kind = .program
  · -- the header takes the same course at both positions
    have hlt := Nat.lt_succ_self s.pending.length
    rw [if_pos hheader, if_pos (show (s.current.moved move).kind = .program from hheader)]
    have hlt' := (Stream.length_moved move s).trans_lt hlt
    rcases run_moved_cases hend
        (Simulation.diagonal tokens hend).header_step (Simulation.moving move).header_step
        ⟨⟨rfl, rfl, hskip⟩, hlt, hlt⟩
        ⟨⟨rfl, rfl, hskip.1 ▸ hend⟩, hlt, hlt'⟩ with
      ⟨name, _, r, hrun, hrun', rfl, -⟩ | ⟨found, r, hrun, hrun', -⟩ | ⟨lexeme, r, r', hrun, hrun'⟩
    all_goals rw [hrun, hrun']
    · rfl
    · dsimp only
      rw [Stream.skipLine_moved]
      rfl
    · rfl
  · rw [if_neg hheader, if_neg (show ¬ (s.current.moved move).kind = .program from hheader)]
    rfl

/-- **Positions are carried along.** -/
theorem ofStream_moved (move : Location → Location) (hend : s.ending.kind = .endOfText) :
    ofStream (s.moved move) =
      (ofStream s).map (Prod.map (Program.moved move) (List.map (Mismatch.moved move))) := by
  have hs : s.Of s.pending s.ending := ⟨rfl, .refl _⟩
  rw [ofStream, ofStream, parseName_moved hend hs, Stream.limit_moved, Stream.current_moved]
  rcases hname : parseName s with f | ⟨name, found, rest⟩
  · rfl
  have hrest := (parseName_recovers hend hs).2 name found rest hname
  -- both parsers may go equally deep, so that only the lines are left to compare
  have hlines : parseLines s.limit s.limit (rest.moved move) =
      (parseLines s.limit s.limit rest).map (Statements.moved move) :=
    parseLines_moved hend (Nat.lt_succ_self _) s.limit hrest
  show (parseLines s.limit s.limit (rest.moved move) >>= fun lines => _) = _
  rw [hlines]
  show _ = ((parseLines s.limit s.limit rest >>= fun lines => _) : Except ParseFailure _).map _
  cases parseLines s.limit s.limit rest with
  | error f => rfl
  | ok lines =>
    simp only [Except.map, ok_bind, Statements.moved, Prod.map, Program.moved, List.map_append]
    rfl

/-- What a text is parsed to, with one position in place of all. -/
def parseAt (place : Location) (source file : String) : Except Fault (Program × List Diagnostic) :=
  (parse source file).map
    (Prod.map (moved fun _ => place) (List.map (Diagnostic.moved fun _ => place)))

/-- It is read from the tokens at that position. -/
theorem parseAt_eq (place : Location) (source file : String) :
    parseAt place source file =
      match ofStream ((Stream.ofLexed (Lexed.ofText source file)).moved fun _ => place) with
      | .ok (program, mismatches) =>
        .ok (program, (Lexed.ofText source file).diagnostics.map (Diagnostic.moved fun _ => place) ++
          mismatches.map Mismatch.diagnostic)
      | .error f => refuse f.fault := by
  rw [parseAt, parse, ofStream_moved _ rfl]
  rcases ofStream (.ofLexed (Lexed.ofText source file)) with f | ⟨program, mismatches⟩
  · rfl
  · -- the message of a mismatch does not name its position
    simp only [Except.map, Prod.map, List.map_append, List.map_map]
    rfl

/-- At one position, the tokens of a text are known from their kinds and lexemes. -/
theorem moved_ofLexed (place : Location) (l : Lexed) :
    ((Stream.ofLexed l).moved fun _ => place) =
      ⟨(l.tokens.map Token.spelling).map fun spelling => ⟨spelling.1, spelling.2, place⟩,
        ⟨.endOfText, "", place⟩⟩ := by
  rw [List.map_map]
  rfl

/-- Texts that have the same kinds and lexemes, and nothing wrong with their characters, are
parsed alike but for positions. -/
theorem parseAt_congr (place : Location) {p q file file' : String}
    (hp : (Lexed.ofText p file).diagnostics = []) (hq : (Lexed.ofText q file').diagnostics = [])
    (h : (Lexed.ofText p file).tokens.map Token.spelling =
      (Lexed.ofText q file').tokens.map Token.spelling) :
    parseAt place p file = parseAt place q file' := by
  rw [parseAt_eq, parseAt_eq, moved_ofLexed, moved_ofLexed, hp, hq, h]

end Program

end BinaryPoint
