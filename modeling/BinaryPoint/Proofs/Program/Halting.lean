import BinaryPoint.Proofs.Program.Parts
import BinaryPoint.Proofs.Program.Tail

/-! # A descent ends at the end of the text

Whatever the tokens of a text are, a descent through them has an outcome and stops at the end.
It never looks past the end, each round of the loop over the statements takes a token unless it is
the last one, and the rest of a line is given up once for each mismatch that is reported.

* `Part`: the parts of a program in which a syntax error may be raised;
* `Follows.reports_once`: what is raised in one of them was reported once, at the same place;
* `ReadsLine`: what the parser makes of a line;
* `round_step`: one round does the same, or stops at the end;
* `statements_agree`: by induction, all the rounds;
* `program_halts`: the whole descent.
-/

namespace BinaryPoint.Descent

open Program (parseLines parseName)

variable {α : Type} {row : List Token} {ending : Token} {i depth limit : ℕ} {s : State}

/-! ## Parts -/

/-- The parts of a program in which a syntax error may be raised. -/
inductive Part
  | expect (kind : TokenKind) (wanted : Wanted)
  | integerValue (t : Token)
  | expression
  | product
  | unary
  | primary
  | value
  | sampleList
  | width (wanted : Wanted)
  | format
  | declaration
  | endOfStatement
  | header

/-- The descent through a part, whatever its value is. -/
def Part.descend (depth : ℕ) : Part → Descent Unit
  | expect kind wanted => do let _ ← Descent.expect kind wanted
  | integerValue t => do let _ ← Descent.integerValue t
  | expression => do let _ ← Descent.expression depth
  | product => do let _ ← Descent.product depth
  | unary => do let _ ← Descent.unary depth
  | primary => do let _ ← Descent.primary depth
  | value => do let _ ← Descent.value depth
  | sampleList => do let _ ← Descent.sampleList depth
  | width wanted => do let _ ← Descent.width wanted
  | format => do let _ ← Descent.format
  | declaration => do let _ ← Descent.declaration depth
  | endOfStatement => Descent.endOfStatement
  | header => do let _ ← Descent.header

theorem Follows.forget {x : Descent α} {p : Parser α} (hx : Follows row ending i x p) :
    ∃ p', Follows row ending i (x >>= fun _ => pure ()) p' :=
  ⟨_, hx.bind fun _ _ _ hj => .pure hj ()⟩

theorem Part.exists_follows (h : Readable row ending) (hi : i ≤ row.length)
    (hdepth : 4 * (row.length - i) + 3 < depth) (part : Part) :
    ∃ p, Follows row ending i (part.descend depth) p := by
  -- there is room for as many tokens as there are
  have hlimit : ∀ j, row.length - j < row.length + 1 := fun j => by omega
  have hprimary : ∀ j d, i ≤ j → j ≤ row.length → 4 * (row.length - j) < d →
      Follows row ending j (Descent.primary d) (Expr.primary (Expr.parse (row.length + 1))) :=
    fun j d _ hj hd => follows_primary h hj hd fun d' hlt hd' =>
      follows_expression h (j + 1) d' hlt (hlimit _) hd'
  have hunary : ∀ j d, i ≤ j → j ≤ row.length → 4 * (row.length - j) + 1 < d →
      Follows row ending j (Descent.unary d)
        (Expr.signed (Expr.primary (Expr.parse (row.length + 1))) (row.length + 1)) :=
    fun j d hij hj hd => follows_unary h hprimary j d hij hj (hlimit j) hd
  cases part with
  | expect kind wanted => exact (Follows.expect hi h kind wanted).forget
  | integerValue t => exact (Follows.integerValue hi t).forget
  | expression => exact (follows_expression h i depth hi (hlimit i) hdepth).forget
  | product =>
    exact (follows_product h hunary i depth le_rfl hi (hlimit i) (by omega)).forget
  | unary => exact (hunary i depth le_rfl hi (by omega)).forget
  | primary => exact (hprimary i depth le_rfl hi (by omega)).forget
  | value => exact (follows_value h hi (hlimit i) hdepth).forget
  | sampleList => exact (follows_sampleList h hi (hlimit i) hdepth).forget
  | width wanted => exact (follows_width h hi wanted).forget
  | format => exact (follows_format h hi).forget
  | declaration => exact (follows_declaration h hi (hlimit i) hdepth).forget
  | endOfStatement => exact ⟨_, follows_endOfStatement hi⟩
  | header => exact (follows_header h hi).forget

/-- A descent that follows a parser stops inside of the list. If it raises a syntax error, that
was reported once and at the same place, and otherwise nothing was. -/
theorem Follows.reports_once {x : Descent Unit} {p : Parser Unit}
    (hx : Follows row ending s.position x p) :
    ∃ s', s.position ≤ s'.position ∧ s'.position ≤ row.length ∧
      s'.statements = s.statements ∧ s'.recoveries = s.recoveries ∧
      (x.outcome (row ++ [ending]) s = some (.ok (), s') ∧ s'.reported = s.reported ∨
        ∃ wanted place message,
          x.outcome (row ++ [ending]) s = some (.error (.syntaxError wanted place), s') ∧
          s'.reported = s.reported ++ [.errorAt message place]) := by
  have hagrees := hx s rfl
  generalize x.outcome (row ++ [ending]) s = r, p.run (streamFrom row ending s.position) = q
    at hagrees
  cases hagrees with
  | ok _ hij hj => exact ⟨s.moveTo _, hij, hj, rfl, rfl, .inl ⟨rfl, rfl⟩⟩
  | mismatch m hij hj =>
    exact ⟨(s.moveTo _).report m, hij, hj, rfl, rfl,
      .inr ⟨m.wanted, m.found.place, m.message, rfl, rfl⟩⟩

/-! ## Recoveries -/

/-- The state further on, with more declarations and more mismatches, each of which was recovered
from. -/
def State.after (s : State) (j : ℕ) (decls : List Decl) (found : List Mismatch) : State :=
  { position := j
    reported := s.reported ++ found.map Mismatch.diagnostic
    statements := s.statements ++ decls
    recoveries := s.recoveries + found.length }

@[simp] theorem State.position_after (s : State) (j : ℕ) (decls : List Decl)
    (found : List Mismatch) : (s.after j decls found).position = j := rfl

theorem State.after_nil (s : State) (j : ℕ) : s.after j [] [] = s.moveTo j := by
  simp [after, moveTo]

theorem State.after_after (s : State) (j k : ℕ) (decls decls' : List Decl)
    (found found' : List Mismatch) :
    (s.after j decls found).after k decls' found' =
      s.after k (decls ++ decls') (found ++ found') := by
  simp [after, Nat.add_assoc]

/-- The rest of a line is given up. -/
theorem exists_recover (h : Readable row ending) (hs : s.position ≤ row.length)
    (hdepth : row.length - s.position < depth) :
    ∃ j, s.position ≤ j ∧ j ≤ row.length ∧
      (recover depth).outcome (row ++ [ending]) s =
        some (.ok (), { s.moveTo j with recoveries := s.recoveries + 1 }) ∧
      (streamFrom row ending s.position).skipLine = streamFrom row ending j := by
  obtain ⟨j, hij, hj, hrun, hstream⟩ :=
    exists_skipToNewline (s := { s with recoveries := s.recoveries + 1 }) h hs hdepth
  exact ⟨j, hij, hj, hrun, hstream⟩

theorem outcome_recovering_ok {x : Descent α} {a : α} {s' : State}
    (hx : x.outcome (row ++ [ending]) s = some (.ok a, s')) :
    (recovering depth x).outcome (row ++ [ending]) s = some (.ok (some a), s') := by
  rw [recovering, outcome_tryCatch, map_eq_pure_bind, outcome_bind, hx]
  rfl

/-- A syntax error, which was reported, costs the rest of its line. -/
theorem exists_recovering (h : Readable row ending) {x : Descent α} {m : Mismatch} {t : State}
    (hx : x.outcome (row ++ [ending]) s =
      some (.error (.syntaxError m.wanted m.found.place), t.report m))
    (hs : t.position ≤ row.length) (hdepth : row.length - t.position < depth) :
    ∃ j, t.position ≤ j ∧ j ≤ row.length ∧
      (recovering depth x).outcome (row ++ [ending]) s = some (.ok none, t.after j [] [m]) ∧
      (streamFrom row ending t.position).skipLine = streamFrom row ending j := by
  obtain ⟨j, hij, hj, hrun, hstream⟩ := exists_recover (s := t.report m) h hs hdepth
  refine ⟨j, hij, hj, ?_, hstream⟩
  rw [recovering, outcome_tryCatch, map_eq_pure_bind, outcome_bind, hx]
  show (recover depth >>= fun _ => pure none).outcome (row ++ [ending]) (t.report m) = _
  rw [outcome_bind, hrun]
  simp [State.after, State.report, State.moveTo]
  rfl

/-! ## Rounds -/

theorem endsHere_iff (h : Readable row ending) (hi : i ≤ row.length) :
    Program.endsHere (streamFrom row ending i) ↔
      (tokenAt row ending i).kind = .newline ∨ (tokenAt row ending i).kind = .endOfText := by
  have hatEnd : (streamFrom row ending i).atEnd ↔ i = row.length := by
    simp only [streamFrom, Stream.atEnd, List.isEmpty_iff, List.drop_eq_nil_iff]
    omega
  rw [Program.endsHere, Bool.or_eq_true, decide_eq_true_iff, hatEnd, current_streamFrom,
    kind_tokenAt_iff h hi, or_comm]

/-- Nothing is left of a line that ends. -/
theorem skipLine_of_ends (h : Readable row ending) (hi : i ≤ row.length)
    (hends : (tokenAt row ending i).kind = .newline ∨ (tokenAt row ending i).kind = .endOfText) :
    (streamFrom row ending i).skipLine = streamFrom row ending i := by
  rcases hi.lt_or_eq with hlt | rfl
  · have hnewline := hends.resolve_right (mt (kind_tokenAt_iff h hi).mp hlt.ne)
    rw [streamFrom, Stream.skipLine, dropWhile_of_lt _ hlt, if_neg (by simpa using hnewline)]
  · rw [streamFrom_length]
    rfl

/-- Of a line that goes on, something is left. -/
theorem lt_of_skipLine (hi : i < row.length) {j : ℕ} (hj : j ≤ row.length)
    (hkind : (tokenAt row ending i).kind ≠ .newline)
    (hskip : (streamFrom row ending i).skipLine = streamFrom row ending j) : i < j := by
  have hdrop : (row.drop (i + 1)).dropWhile (·.kind ≠ .newline) = row.drop j := by
    have hpending := congrArg Stream.pending hskip
    rw [streamFrom, Stream.skipLine, dropWhile_of_lt _ hi, if_pos (by simpa using hkind)]
      at hpending
    exact hpending
  have hle := (List.dropWhile_sublist (l := row.drop (i + 1)) (·.kind ≠ .newline)).length_le
  rw [hdrop, List.length_drop, List.length_drop] at hle
  omega

/-- The parser reads a line that starts at one position and goes on with the next line at another
one. -/
structure ReadsLine (limit : ℕ) (row : List Token) (ending : Token) (i j : ℕ) (decls : List Decl)
    (found : List Mismatch) : Prop where
  moves : i < j
  within : j ≤ row.length
  reads : ∀ lines s₀, Stream.skipNewlines s₀ = streamFrom row ending i →
    parseLines limit (lines + 1) s₀ =
      (parseLines limit lines (streamFrom row ending j)).map fun o =>
        ⟨decls ++ o.decls, found ++ o.mismatches⟩

namespace ReadsLine

variable {j k : ℕ} {d : Decl} {m : Mismatch}

/-- A line that does not start with a declaration. -/
theorem junk (hi : i < row.length) (hconst : (tokenAt row ending i).kind ≠ .const)
    (hskip : (streamFrom row ending i).skipLine = streamFrom row ending j) (hij : i < j)
    (hj : j ≤ row.length) :
    ReadsLine limit row ending i j [] [⟨.declaration, tokenAt row ending i⟩] := by
  refine ⟨hij, hj, fun lines s₀ hs₀ => ?_⟩
  rw [Program.parseLines_junk (hs₀.trans (streamFrom_of_lt hi)) (tokenAt_of_lt hi ▸ hconst),
    ← streamFrom_of_lt hi, ← tokenAt_of_lt hi, hskip]
  rfl

variable (hi : i < row.length) (hconst : (tokenAt row ending i).kind = .const)

include hi hconst

/-- A declaration up to the end of its line. -/
theorem declared (h : Readable row ending)
    (hrun : (Decl.parse limit).run (streamFrom row ending i) = .ok d (streamFrom row ending j))
    (hij : i < j) (hj : j ≤ row.length)
    (hends : (tokenAt row ending j).kind = .newline ∨ (tokenAt row ending j).kind = .endOfText) :
    ReadsLine limit row ending i j [d] [] := by
  refine ⟨hij, hj, fun lines s₀ hs₀ => ?_⟩
  rw [Program.parseLines_const (hs₀.trans (streamFrom_of_lt hi)) (tokenAt_of_lt hi ▸ hconst),
    ← streamFrom_of_lt hi, hrun]
  simp only [skipLine_of_ends h hj hends, if_pos ((endsHere_iff h hj).mpr hends)]
  rfl

/-- A declaration that something stands behind. -/
theorem unfinished (h : Readable row ending)
    (hrun : (Decl.parse limit).run (streamFrom row ending i) = .ok d (streamFrom row ending j))
    (hj : j ≤ row.length)
    (hends : ¬((tokenAt row ending j).kind = .newline ∨
      (tokenAt row ending j).kind = .endOfText))
    (hskip : (streamFrom row ending j).skipLine = streamFrom row ending k) (hik : i < k)
    (hk : k ≤ row.length) :
    ReadsLine limit row ending i k [d] [⟨.endOfLine, tokenAt row ending j⟩] := by
  refine ⟨hik, hk, fun lines s₀ hs₀ => ?_⟩
  rw [Program.parseLines_const (hs₀.trans (streamFrom_of_lt hi)) (tokenAt_of_lt hi ▸ hconst),
    ← streamFrom_of_lt hi, hrun]
  simp only [hskip, if_neg (mt (endsHere_iff h hj).mp hends)]
  rfl

/-- A declaration that is not in order. -/
theorem failed
    (hrun : (Decl.parse limit).run (streamFrom row ending i) =
      .error (.mismatch m) (streamFrom row ending j))
    (hskip : (streamFrom row ending j).skipLine = streamFrom row ending k) (hik : i < k)
    (hk : k ≤ row.length) : ReadsLine limit row ending i k [] [m] := by
  refine ⟨hik, hk, fun lines s₀ hs₀ => ?_⟩
  rw [Program.parseLines_const (hs₀.trans (streamFrom_of_lt hi)) (tokenAt_of_lt hi ▸ hconst),
    ← streamFrom_of_lt hi, hrun]
  dsimp only
  rw [hskip]
  rfl

end ReadsLine

/-- A declaration and the end of its line. -/
theorem statement_step (h : Readable row ending) (hs : s.position < row.length)
    (hconst : (tokenAt row ending s.position).kind = .const)
    (hlimit : row.length - s.position < limit)
    (hdepth : 4 * (row.length - s.position) + 3 < depth) :
    ∃ r j decls found, ReadsLine limit row ending s.position j decls found ∧
      (recovering depth (statement depth)).outcome (row ++ [ending]) s =
        some (.ok r, s.after j decls found) := by
  have hagrees := agrees_declaration h hs.le hconst hlimit hdepth
  generalize hdecl : (declaration depth).outcome (row ++ [ending]) s = r,
    hparse : (Decl.parse limit).run (streamFrom row ending s.position) = q at hagrees
  cases hagrees with
  | @ok d j hij hj =>
    have hsj : s.position < j := hij
    have hroom : row.length - j < depth := by omega
    have hrun : (statement depth).outcome (row ++ [ending]) s =
        endOfStatement.outcome (row ++ [ending]) (s.after j [d] []) := by
      rw [statement, outcome_bind, hdecl, State.after, List.map_nil, List.append_nil]
      rfl
    rw [outcome_endOfStatement (show (s.after j [d] []).position ≤ row.length from hj),
      State.position_after] at hrun
    dsimp only at hrun
    split at hrun
    · next hends =>
      -- a declaration that is all of its line
      exact ⟨_, j, [d], [], .declared hs hconst h hparse hsj hj hends, outcome_recovering_ok hrun⟩
    · next hends =>
      -- a declaration with something behind it on the line, which is skipped
      obtain ⟨k, hjk, hk, hrecovering, hskip⟩ := exists_recovering
        (m := ⟨.endOfLine, tokenAt row ending j⟩) (t := s.after j [d] []) h hrun hj hroom
      rw [State.after_after] at hrecovering
      exact ⟨_, k, _, _,
        .unfinished hs hconst h hparse hj hends hskip (hsj.trans_le hjk) hk, hrecovering⟩
  | @mismatch m j hij hj =>
    -- a declaration that breaks off
    have hsj : s.position < j := hij
    have hroom : row.length - j < depth := by omega
    have hrun : (statement depth).outcome (row ++ [ending]) s =
        some (.error (.syntaxError m.wanted m.found.place), (s.moveTo j).report m) := by
      rw [statement, outcome_bind, hdecl]
      rfl
    obtain ⟨k, hjk, hk, hrecovering, hskip⟩ :=
      exists_recovering (t := s.moveTo j) h hrun hj hroom
    exact ⟨_, k, _, _, .failed hs hconst hparse hskip (hsj.trans_le hjk) hk, hrecovering⟩

/-- A line that does not start with a declaration. -/
theorem junk_step (limit : ℕ) (h : Readable row ending) (hs : s.position < row.length)
    (hconst : (tokenAt row ending s.position).kind ≠ .const)
    (hnewline : (tokenAt row ending s.position).kind ≠ .newline)
    (hdepth : row.length - s.position < depth) :
    let m : Mismatch := ⟨.declaration, tokenAt row ending s.position⟩
    ∃ j, ReadsLine limit row ending s.position j [] [m] ∧
      (report m >>= fun _ => recover depth).outcome (row ++ [ending]) s =
        some (.ok (), s.after j [] [m]) := by
  intro m
  obtain ⟨j, -, hj, hrun, hskip⟩ := exists_recover (s := s.report m) h hs.le hdepth
  have hline : ReadsLine limit row ending s.position j [] [m] :=
    .junk hs hconst hskip (lt_of_skipLine hs hj hnewline hskip) hj
  refine ⟨j, hline, ?_⟩
  show (recover depth).outcome (row ++ [ending]) (s.report m) = _
  rw [hrun, State.after, List.append_nil]
  rfl

/-- One round either is the last one and stops at the end, or reads a line. Then it goes back to
the line break as often as something is reported. -/
theorem round_step (h : Readable row ending) (hs : s.position ≤ row.length)
    (hlimit : row.length - s.position < limit)
    (hdepth : 4 * (row.length - s.position) + 3 < depth) :
    ((round depth).outcome (row ++ [ending]) s = some (.ok false, s.moveTo row.length) ∧
      (streamFrom row ending s.position).skipNewlines.pending = []) ∨
    ∃ i j decls found, s.position ≤ i ∧ ReadsLine limit row ending i j decls found ∧
      (streamFrom row ending s.position).skipNewlines = streamFrom row ending i ∧
      (round depth).outcome (row ++ [ending]) s = some (.ok true, s.after j decls found) := by
  have hroom : row.length - s.position < depth := by omega
  obtain ⟨i, hsi, hi, hskip, hstream, hnewline⟩ := exists_skipNewlines h hs hroom
  have hmoved : (s.moveTo i).position ≤ row.length := hi
  rw [round, outcome_bind, hskip, Option.bind_some]
  dsimp only
  rw [outcome_atEnd_bind hmoved, State.position_moveTo]
  rcases hi.lt_or_eq with hlt | rfl
  · right
    have hend := mt (kind_tokenAt_iff h hi).mp hlt.ne
    rw [if_neg (by simpa using hend), outcome_sees_bind hmoved, State.position_moveTo]
    -- a token is left, and it starts a declaration or a line to be skipped
    by_cases hconst : (tokenAt row ending i).kind = .const
    · have hlimit' : row.length - i < limit := by omega
      have hdepth' : 4 * (row.length - i) + 3 < depth := by omega
      obtain ⟨r, j, decls, found, hline, hrun⟩ :=
        statement_step (s := s.moveTo i) h hlt hconst hlimit' hdepth'
      refine ⟨i, j, decls, found, hsi, hline, hstream, ?_⟩
      rw [if_pos (by simpa using hconst), outcome_bind, hrun]
      rfl
    · have hroom' : row.length - i < depth := by omega
      obtain ⟨j, hline, hrun⟩ :=
        junk_step limit (s := s.moveTo i) h hlt hconst hnewline hroom'
      refine ⟨i, j, _, _, hsi, hline, hstream, ?_⟩
      rw [if_neg (by simpa using hconst), outcome_peek_bind hmoved, ← bind_assoc, outcome_bind, hrun]
      rfl
  · left
    -- no token is left behind the line breaks
    have hend := (kind_tokenAt_iff h hi).mpr rfl
    refine ⟨?_, by rw [hstream, streamFrom_length]⟩
    rw [if_pos (by simpa using hend)]
    rfl

/-- All the rounds, by induction on the tokens that are left: they end at the end of the text, and
add what the parser makes of the lines. -/
theorem statements_agree (h : Readable row ending) {lines : ℕ} :
    ∀ (s : State) (depth : ℕ), s.position ≤ row.length → row.length - s.position < lines →
      row.length - s.position < limit → 4 * (row.length - s.position) + 4 < depth →
      ∃ o, parseLines limit lines (streamFrom row ending s.position) = .ok o ∧
        (statements depth).outcome (row ++ [ending]) s =
          some (.ok (), s.after row.length o.decls o.mismatches) := by
  induction lines with
  | zero => omega
  | succ lines ih =>
    intro s depth hs hlines hlimit hdepth
    obtain ⟨depth, rfl⟩ := Nat.exists_eq_add_one_of_ne_zero (Nat.ne_zero_of_lt hdepth)
    have hroom : 4 * (row.length - s.position) + 3 < depth := by omega
    rw [statements, outcome_bind]
    rcases round_step h hs hlimit hroom with
      ⟨hrun, hpending⟩ | ⟨i, j, decls, found, hsi, hline, hstream, hrun⟩
    · -- the last round finds nothing
      refine ⟨{}, Program.parseLines_end hpending, ?_⟩
      rw [hrun, State.after_nil]
      rfl
    · -- one line takes a token at least, so the others are left to the induction
      have hsj : s.position < j := hsi.trans_lt hline.moves
      have hj : j ≤ row.length := hline.within
      obtain ⟨o, ho, hothers⟩ := ih (s.after j decls found) depth hj
        (by rw [State.position_after]; omega) (by rw [State.position_after]; omega)
        (by rw [State.position_after]; omega)
      rw [State.position_after] at ho
      refine ⟨⟨decls ++ o.decls, found ++ o.mismatches⟩, ?_, ?_⟩
      · rw [hline.reads lines _ hstream, ho]
        rfl
      · rw [hrun, Option.bind_some]
        dsimp only
        rw [if_pos rfl, hothers, State.after_after]

/-! ## Programs -/

theorem agrees_header (h : Readable row ending) (hs : s.position ≤ row.length)
    (hkind : (tokenAt row ending s.position).kind = .program) :
    Agrees row ending s (header.outcome (row ++ [ending]) s)
      (Program.parseHeader.run (streamFrom row ending s.position)) := by
  refine (follows_header h hs).right ?_ s rfl
  rw [Program.parseHeader, Parser.run_bind, Parser.run_expect, current_streamFrom, if_pos hkind,
    Parser.run_bind, Parser.run_next]

/-- The header, if there is one. -/
theorem name_agrees (h : Readable row ending) (hs : s.position ≤ row.length)
    (hdepth : row.length - s.position < depth) :
    ∃ name found j, s.position ≤ j ∧ j ≤ row.length ∧
      parseName (streamFrom row ending s.position) = .ok (name, found, streamFrom row ending j) ∧
      (name? depth).outcome (row ++ [ending]) s = some (.ok name, s.after j [] found) := by
  obtain ⟨i, hsi, hi, hskip, hstream, -⟩ := exists_skipNewlines h hs hdepth
  have hmoved : (s.moveTo i).position ≤ row.length := hi
  rw [name?, outcome_bind, hskip, Option.bind_some, parseName, hstream]
  dsimp only
  rw [outcome_sees_bind hmoved, State.position_moveTo, current_streamFrom]
  by_cases hkind : (tokenAt row ending i).kind = .program
  · rw [if_pos hkind, if_pos (by simpa using hkind)]
    have hagrees := agrees_header (s := s.moveTo i) h hi hkind
    rw [State.position_moveTo] at hagrees
    generalize hrun : header.outcome (row ++ [ending]) (s.moveTo i) = r,
      Program.parseHeader.run (streamFrom row ending i) = q at hagrees
    cases hagrees with
    -- a header in order
    | @ok name j hij hj =>
      refine ⟨some name, [], j, hsi.trans hij, hj, rfl, ?_⟩
      rw [outcome_recovering_ok hrun, State.after_nil]
      rfl
    -- one that breaks off: the rest of its line is skipped
    | @mismatch m j hij hj =>
      have hroom : row.length - j < depth := by
        have hij' : i ≤ j := hij
        omega
      obtain ⟨k, hjk, hk, hrecovering, hline⟩ :=
        exists_recovering (t := s.moveTo j) h hrun hj hroom
      rw [State.position_moveTo] at hline
      exact ⟨none, [m], k, (hsi.trans hij).trans hjk, hk,
        congrArg (fun rest => Except.ok (none, [m], rest)) hline, hrecovering⟩
  · rw [if_neg hkind, if_neg (by simpa using hkind)]
    -- none at all
    refine ⟨none, [], i, hsi, hi, rfl, ?_⟩
    rw [State.after_nil]
    rfl

/-- The whole descent, and what the parser makes of the text. -/
theorem program_agrees (h : Readable row ending) (hdepth : 4 * row.length + 4 < depth)
    (before : List Diagnostic) :
    ∃ p found, Program.ofStream ⟨row, ending⟩ = .ok (p, found) ∧
      (program depth).outcome (row ++ [ending]) { reported := before } =
        some (.ok p, State.after { reported := before } row.length p.statements found) := by
  let start : State := { reported := before }
  have hstart : start.position ≤ row.length := Nat.zero_le _
  have hroom : row.length - start.position < depth := by omega
  obtain ⟨name, found, i, -, hi, hparse, hname⟩ := name_agrees h hstart hroom
  have hlimit : row.length - i < row.length + 1 := by omega
  have hrest : 4 * (row.length - i) + 4 < depth := by omega
  obtain ⟨o, ho, hstatements⟩ :=
    statements_agree h (start.after i [] found) depth hi hlimit hlimit hrest
  rw [State.after_after] at hstatements
  refine ⟨⟨name, o.decls, some (tokenAt row ending 0).place⟩, found ++ o.mismatches, ?_, ?_⟩
  · -- the parser has as many rounds as there are tokens, which is enough for what the header leaves
    have hofStream : Program.ofStream ⟨row, ending⟩ =
        (parseName (streamFrom row ending 0)).bind fun x =>
          (parseLines (row.length + 1) (row.length + 1) x.2.2).bind fun o =>
            .ok (⟨x.1, o.decls, some (tokenAt row ending 0).place⟩, x.2.1 ++ o.mismatches) := rfl
    rw [State.position_after] at ho
    rw [hofStream, hparse]
    show (parseLines _ _ (streamFrom row ending i)).bind _ = _
    rw [ho]
    rfl
  · rw [program, outcome_peek_bind hstart, outcome_bind, hname, Option.bind_some]
    dsimp only
    rw [outcome_bind, hstatements]
    rfl

/-! ## Halting -/

/-- A descent through the tokens of a text, if its calls may go deep enough, gives the program
that the parser gives, stops at the end of the text, and adds a diagnostic for each time that it
gives up the rest of a line. Every round that is not the last one takes a token. No part looks
past the end, and every syntax error that is raised in one was reported once, at its place. -/
theorem program_halts (h : Readable row ending) (hdepth : 4 * row.length + 4 < depth) :
    (∀ before, ∃ p found s', Program.ofStream ⟨row, ending⟩ = .ok (p, found) ∧
      (program depth).outcome (row ++ [ending]) { reported := before } = some (.ok p, s') ∧
      s'.position = row.length ∧
      s'.reported = before ++ found.map Mismatch.diagnostic ∧ s'.recoveries = found.length) ∧
    (∀ s : State, s.position ≤ row.length →
      ∃ (goesOn : Bool) (s' : State) (found : List Mismatch),
        (round depth).outcome (row ++ [ending]) s = some (.ok goesOn, s') ∧
        (if goesOn then s.position < s'.position ∧ s'.position ≤ row.length
          else s'.position = row.length) ∧
        s'.reported = s.reported ++ found.map Mismatch.diagnostic ∧
        s'.recoveries = s.recoveries + found.length) ∧
    ∀ (part : Part) (s : State), s.position ≤ row.length →
      ∃ s', s.position ≤ s'.position ∧ s'.position ≤ row.length ∧
        s'.statements = s.statements ∧ s'.recoveries = s.recoveries ∧
        ((part.descend depth).outcome (row ++ [ending]) s = some (.ok (), s') ∧
            s'.reported = s.reported ∨
          ∃ wanted place message,
            (part.descend depth).outcome (row ++ [ending]) s =
              some (.error (.syntaxError wanted place), s') ∧
            s'.reported = s.reported ++ [.errorAt message place]) := by
  refine ⟨fun before => ?_, fun s hs => ?_, fun part s hs => ?_⟩
  · obtain ⟨p, found, hparse, hrun⟩ := program_agrees h hdepth before
    exact ⟨p, found, _, hparse, hrun, rfl, rfl, Nat.zero_add _⟩
  · have hroom : 4 * (row.length - s.position) + 3 < depth := by omega
    have hlimit : row.length - s.position < row.length + 1 := by omega
    rcases round_step h hs hlimit hroom with
      ⟨hrun, -⟩ | ⟨i, j, decls, found, hsi, hline, -, hrun⟩
    · exact ⟨false, _, [], hrun, rfl, (List.append_nil _).symm, rfl⟩
    · exact ⟨true, _, found, hrun, ⟨hsi.trans_lt hline.moves, hline.within⟩, rfl, rfl⟩
  · have hroom : 4 * (row.length - s.position) + 3 < depth := by omega
    obtain ⟨p, hp⟩ := part.exists_follows h hs hroom
    exact hp.reports_once

/-- A text with a header, a declaration, a line and the end of a line that are not in order, and
with one declaration that is. -/
theorem program_halts_malformed :
    let text := "program 1:\nconst A = 1 +\nB = 2\nconst C = [1,\n 2.5] 7\nconst D = -(3)"
    let row := (Lexed.ofText text "<string>").tokens
    let ending := (Lexed.ofText text "<string>").endToken
    row.length = 32 ∧ Readable row ending ∧
      ∃ p found s', Program.ofStream ⟨row, ending⟩ = .ok (p, found) ∧
        (program 133).outcome (row ++ [ending]) {} = some (.ok p, s') ∧
        p.statements.map (·.name) = ["C", "D"] ∧ s'.position = 32 ∧
        s'.reported.length = 4 ∧ s'.recoveries = 4 := by
  intro text row ending
  have hlength : row.length = 32 := by decide +kernel
  have hreadable : Readable row ending :=
    ⟨rfl, by decide +kernel, by decide +kernel⟩
  have hdepth : 4 * row.length + 4 < 133 := by omega
  have hparse : (Program.ofStream ⟨row, ending⟩).toOption.map
      (fun x => (x.1.statements.map (·.name), x.2.length)) = some (["C", "D"], 4) := by
    decide +kernel
  obtain ⟨p, found, s', hrun, houtcome, hposition, hreported, hrecoveries⟩ :=
    (program_halts hreadable hdepth).1 []
  rw [hrun] at hparse
  obtain ⟨hnames, hfound⟩ := Prod.mk.inj (Option.some.inj hparse)
  refine ⟨hlength, hreadable, p, found, s', hrun, houtcome, hnames, hposition.trans hlength, ?_,
    hrecoveries.trans hfound⟩
  rw [hreported, List.nil_append, List.length_map]
  exact hfound

end BinaryPoint.Descent
