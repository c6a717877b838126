import BinaryPoint.Proofs.Program.Following

/-! # The parts of a program

Every part of a program is descended as it is parsed, from any position on. Each call goes one
deeper, and between two tokens that are taken there are at most four calls, so that a depth of
four calls for each token that is left, and four more, is enough for an expression.

* `follows_expression`: expressions;
* `follows_sampleList`, `follows_format`, `follows_declaration`: values, formats, declarations;
* `follows_header`, `follows_endOfStatement`: what stands around declarations.
-/

namespace BinaryPoint.Descent

variable {row : List Token} {ending : Token} {i : ℕ} {s : State}

/-! ## Expressions -/

section Expressions

variable (h : Readable row ending)

include h

/-- A real number can be read. -/
theorem follows_realValue (hi : i < row.length) (hkind : (tokenAt row ending i).kind = .real) :
    Follows row ending (i + 1) (realValue (tokenAt row ending i))
      (Parser.realValue (tokenAt row ending i)) := by
  have hmem : tokenAt row ending i ∈ row := by
    rw [tokenAt_of_lt hi]
    exact List.getElem_mem hi
  obtain ⟨x, hx⟩ := Option.isSome_iff_exists.mp (h.converts _ hmem hkind)
  rw [realValue, Parser.realValue, hx]
  exact .pure hi x

theorem follows_primary {depth : ℕ} {inner : Parser Expr} (hi : i ≤ row.length)
    (hdepth : 4 * (row.length - i) < depth)
    (hinner : ∀ d, i < row.length → 4 * (row.length - (i + 1)) + 3 < d →
      Follows row ending (i + 1) (expression d) inner) :
    Follows row ending i (primary depth) (Expr.primary inner) := by
  obtain ⟨depth, rfl⟩ := Nat.exists_eq_add_one_of_ne_zero (Nat.ne_zero_of_lt hdepth)
  rw [primary, Expr.primary]
  refine Follows.peek_bind hi ?_
  cases hkind : (tokenAt row ending i).kind with
  | integer =>
    refine Follows.advance_bind hi h (by rw [hkind]; decide) fun hlt => ?_
    exact (Follows.integerValue hlt _).bind fun n j _ hj => .pure hj _
  | real =>
    refine Follows.advance_bind hi h (by rw [hkind]; decide) fun hlt => ?_
    exact (follows_realValue h hlt hkind).bind fun x j _ hj => .pure hj _
  | name =>
    refine Follows.advance_bind hi h (by rw [hkind]; decide) fun hlt => ?_
    exact .pure hlt _
  -- inside the parentheses there is a token less, and so room for the call
  | leftParen =>
    refine Follows.advance_bind hi h (by rw [hkind]; decide) fun hlt => ?_
    refine (hinner depth hlt (by omega)).bind fun e j _ hj => ?_
    exact (Follows.expect hj h .rightParen .closeParen).bind fun _ k _ hk => .pure hk _
  | _ => exact .mismatch hi .expression _

theorem follows_unary {operand : Parser Expr} {first : ℕ}
    (hoperand : ∀ j d, first ≤ j → j ≤ row.length → 4 * (row.length - j) < d →
      Follows row ending j (primary d) operand) {limit : ℕ} :
    ∀ i depth, first ≤ i → i ≤ row.length → row.length - i < limit →
      4 * (row.length - i) + 1 < depth →
      Follows row ending i (unary depth) (Expr.signed operand limit) := by
  induction limit with
  | zero => omega
  | succ limit ih =>
    intro i depth hfirst hi hlimit hdepth
    obtain ⟨depth, rfl⟩ := Nat.exists_eq_add_one_of_ne_zero (Nat.ne_zero_of_lt hdepth)
    rw [unary, Expr.signed]
    refine Follows.accept_left hi (fun hmem => ?_) (fun hmem => ?_)
    · -- a minus sign takes a token, and the rest is one call further down
      have hkind : (tokenAt row ending i).kind = .minus := List.mem_singleton.mp hmem
      refine Follows.peek_right ?_
      rw [if_pos hkind]
      refine Follows.advance_bind hi h (by rw [hkind]; decide) fun hlt => ?_
      exact (ih (i + 1) depth (Nat.le_succ_of_le hfirst) hlt (by omega) (by omega)).bind
        fun e j _ hj => .pure hj _
    · have hkind : ¬ (tokenAt row ending i).kind = .minus := mt List.mem_singleton.mpr hmem
      refine Follows.peek_right ?_
      rw [if_neg hkind]
      exact hoperand i depth hfirst hi (by omega)

/-- A loop over operators and operands. -/
theorem follows_chainFrom {more : ℕ → Expr → Descent Expr} {operand : ℕ → Descent Expr}
    {operator? : TokenKind → Option Operator} (hend : operator? .endOfText = none)
    (hmore : ∀ depth left, more (depth + 1) left = do
      match operator? (← peek).kind with
      | none => return left
      | some op =>
        let t ← advance
        let right ← operand depth
        more depth (.binary op left right (some t.place)))
    {operand' : Parser Expr} {first : ℕ}
    (hoperand : ∀ j d, first ≤ j → j ≤ row.length → 4 * (row.length - j) + 2 < d →
      Follows row ending j (operand d) operand') {limit : ℕ} :
    ∀ i depth left, first ≤ i → i ≤ row.length → row.length - i < limit →
      4 * (row.length - i) < depth →
      Follows row ending i (more depth left) (Expr.chainFrom operand' operator? limit left) := by
  induction limit with
  | zero => omega
  | succ limit ih =>
    intro i depth left hfirst hi hlimit hdepth
    obtain ⟨depth, rfl⟩ := Nat.exists_eq_add_one_of_ne_zero (Nat.ne_zero_of_lt hdepth)
    rw [hmore, Expr.chainFrom]
    refine Follows.peek_bind hi ?_
    cases hop : operator? (tokenAt row ending i).kind with
    | none => exact .pure hi left
    | some op =>
      -- an operator is never the token at the end, so there is a token to take
      have hkind : (tokenAt row ending i).kind ≠ .endOfText := by
        intro hkind
        rw [hkind, hend] at hop
        cases hop
      refine Follows.advance_bind hi h hkind fun hlt => ?_
      refine (hoperand (i + 1) depth (Nat.le_succ_of_le hfirst) hlt (by omega)).bind
        fun right j hj hj' => ?_
      exact ih j depth _ (by omega) hj' (by omega) (by omega)

theorem follows_product {operand : Parser Expr} {limit first : ℕ}
    (hoperand : ∀ j d, first ≤ j → j ≤ row.length → 4 * (row.length - j) + 1 < d →
      Follows row ending j (unary d) operand) :
    ∀ i depth, first ≤ i → i ≤ row.length → row.length - i < limit →
      4 * (row.length - i) + 2 < depth →
      Follows row ending i (product depth)
        (Expr.chain operand Expr.productOperator? limit) := by
  intro i depth hfirst hi hlimit hdepth
  obtain ⟨depth, rfl⟩ := Nat.exists_eq_add_one_of_ne_zero (Nat.ne_zero_of_lt hdepth)
  rw [product, Expr.chain]
  refine (hoperand i depth hfirst hi (by omega)).bind fun left j hj hj' => ?_
  exact follows_chainFrom h rfl (fun depth left => moreFactors.eq_2 left depth)
    (fun j d hfirst hj hd => hoperand j d hfirst hj (by omega)) j depth left
    (hfirst.trans hj) hj' (by omega) (by omega)

/-- Expressions, if there is room for all the tokens that are left. -/
theorem follows_expression {limit : ℕ} :
    ∀ i depth, i ≤ row.length → row.length - i < limit → 4 * (row.length - i) + 3 < depth →
      Follows row ending i (expression depth) (Expr.parse limit) := by
  induction limit with
  | zero => omega
  | succ limit ih =>
    intro i depth hi hlimit hdepth
    obtain ⟨depth, rfl⟩ := Nat.exists_eq_add_one_of_ne_zero (Nat.ne_zero_of_lt hdepth)
    -- the levels from the inside out, each with one more call of room
    have hprimary : ∀ j d, i ≤ j → j ≤ row.length → 4 * (row.length - j) < d →
        Follows row ending j (primary d) (Expr.primary (Expr.parse limit)) :=
      fun j d hij hj hd => follows_primary h hj hd fun d' hlt hd' =>
        ih (j + 1) d' hlt (by omega) hd'
    have hunary : ∀ j d, i ≤ j → j ≤ row.length → 4 * (row.length - j) + 1 < d →
        Follows row ending j (unary d)
          (Expr.signed (Expr.primary (Expr.parse limit)) (limit + 1)) :=
      fun j d hij hj hd => follows_unary h hprimary j d hij hj (by omega) hd
    have hproduct : ∀ j d, i ≤ j → j ≤ row.length → 4 * (row.length - j) + 2 < d →
        Follows row ending j (product d) (Expr.chain
          (Expr.signed (Expr.primary (Expr.parse limit)) (limit + 1)) Expr.productOperator?
          (limit + 1)) :=
      fun j d hij hj hd => follows_product h hunary j d hij hj (by omega) hd
    rw [expression, Expr.parse, Expr.chain]
    refine (hproduct i depth le_rfl hi (by omega)).bind fun left j hij hj => ?_
    exact follows_chainFrom h rfl (fun depth left => moreTerms.eq_2 left depth) hproduct j depth
      left hij hj (by omega) (by omega)

end Expressions

/-! ## Declarations -/

section Declarations

variable {depth limit : ℕ} (h : Readable row ending)

include h

theorem follows_moreSamples {rounds : ℕ} :
    ∀ i depth samples, i ≤ row.length → row.length - i < rounds → row.length - i < limit →
      4 * (row.length - i) < depth →
      Follows row ending i (moreSamples depth samples)
        (Decl.parseMoreSamples limit rounds >>= fun others => pure (samples ++ others)) := by
  induction rounds with
  | zero => omega
  | succ rounds ih =>
    intro i depth samples hi hrounds hlimit hdepth
    obtain ⟨depth, rfl⟩ := Nat.exists_eq_add_one_of_ne_zero (Nat.ne_zero_of_lt hdepth)
    rw [moreSamples, Decl.parseMoreSamples, bind_assoc]
    refine Follows.accept_bind hi h (by decide) (fun hlt => ?_) ?_
    · dsimp only
      rw [if_pos rfl, bind_assoc]
      refine (Follows.skipNewlines h hlt (by omega)).bind fun _ j hj hj' => ?_
      rw [bind_assoc]
      -- behind a comma the list may be closed at once
      refine Follows.sees_bind hj' (fun _ => ?_) fun _ => ?_
      · rw [if_pos rfl, if_pos rfl, pure_bind, List.append_nil]
        exact .pure hj' samples
      · rw [if_neg Bool.false_ne_true, if_neg Bool.false_ne_true, bind_assoc]
        refine (follows_expression h j depth hj' (by omega) (by omega)).bind fun e k hk hk' => ?_
        rw [bind_assoc]
        refine (Follows.skipNewlines h hk' (by omega)).bind fun _ l hl hl' => ?_
        have hmore := ih l depth (samples ++ [e]) hl' (by omega) (by omega) (by omega)
        simpa using hmore
    · rw [if_neg Bool.false_ne_true, pure_bind, List.append_nil]
      exact .pure hi samples

theorem follows_samples (hi : i ≤ row.length) (hlimit : row.length - i < limit)
    (hdepth : 4 * (row.length - i) + 3 < depth) :
    Follows row ending i (samples depth) (Decl.parseSamples limit) := by
  rw [samples, Decl.parseSamples]
  refine (Follows.skipNewlines h hi (by omega)).bind fun _ j hj hj' => ?_
  refine Follows.sees_bind hj' (fun _ => .pure hj' []) fun _ => ?_
  refine (follows_expression h j depth hj' (by omega) (by omega)).bind fun e k hk hk' => ?_
  refine (Follows.skipNewlines h hk' (by omega)).bind fun _ l hl hl' => ?_
  exact follows_moreSamples h l depth [e] hl' (by omega) (by omega) (by omega)

theorem follows_sampleList (hi : i ≤ row.length) (hlimit : row.length - i < limit)
    (hdepth : 4 * (row.length - i) + 3 < depth) :
    Follows row ending i (sampleList depth) (do
      let t ← Parser.expect .leftBracket .openBracket
      let es ← Decl.parseSamples limit
      let _ ← Parser.expect .rightBracket .closeBracket
      return .list es (some t.place)) := by
  rw [sampleList]
  refine (Follows.expect hi h _ _).bind fun t j hj hj' => ?_
  refine (follows_samples h hj' (by omega) (by omega)).bind fun es k hk hk' => ?_
  exact (Follows.expect hk' h _ _).bind fun _ l _ hl => .pure hl _

theorem follows_value (hi : i ≤ row.length) (hlimit : row.length - i < limit)
    (hdepth : 4 * (row.length - i) + 3 < depth) :
    Follows row ending i (value depth) (Decl.parseValue limit) := by
  rw [value, Decl.parseValue]
  refine Follows.sees_bind hi (fun hkind => ?_) fun _ => ?_
  · refine (follows_sampleList h hi hlimit hdepth).right ?_
    rw [if_pos rfl, Parser.run_bind, Parser.run_bind, Parser.run_expect, current_streamFrom,
      if_pos hkind, Parser.run_next, current_streamFrom]
  · exact follows_expression h i depth hi hlimit hdepth

theorem follows_width (hi : i ≤ row.length) (wanted : Wanted) :
    Follows row ending i (width wanted) (FormatNote.parseWidth wanted) :=
  (Follows.expect hi h .integer wanted).bind fun t _ _ hj => Follows.integerValue hj t

theorem follows_widths (hi : i ≤ row.length) (sign : Token) :
    Follows row ending i (widths sign)
      (FormatNote.parseWidths (sign.kind = .sfix) sign.place) := by
  rw [widths, FormatNote.parseWidths]
  refine (Follows.expect hi h _ _).bind fun _ j _ hj => ?_
  refine (follows_width h hj _).bind fun integerBits j _ hj => ?_
  refine (Follows.expect hj h _ _).bind fun _ j _ hj => ?_
  refine (follows_width h hj _).bind fun fractionalBits j _ hj => ?_
  exact (Follows.expect hj h _ _).bind fun _ j _ hj => .pure hj _

theorem follows_format (hi : i ≤ row.length) : Follows row ending i format FormatNote.parse := by
  rw [format, FormatNote.parse]
  refine Follows.peek_bind hi ?_
  cases hkind : (tokenAt row ending i).kind with
  -- the name of a preset
  | name =>
    rw [if_pos rfl]
    refine Follows.advance_bind hi h (by rw [hkind]; decide) fun hlt => ?_
    exact .pure hlt _
  -- a format that is written out, with a sign or without one
  | sfix =>
    refine Follows.accept_left hi (fun _ => ?_) fun hno => absurd (by simp [hkind]) hno
    refine Follows.advance_bind hi h (by rw [hkind]; decide) fun hlt => ?_
    simpa [hkind] using follows_widths h hlt (tokenAt row ending i)
  | ufix =>
    refine Follows.accept_left hi (fun _ => ?_) fun hno => absurd (by simp [hkind]) hno
    refine Follows.advance_bind hi h (by rw [hkind]; decide) fun hlt => ?_
    simpa [hkind] using follows_widths h hlt (tokenAt row ending i)
  | _ =>
    refine Follows.accept_left hi (fun hyes => ?_) fun _ => .mismatch hi .format _
    simp [hkind] at hyes

theorem follows_format? (hi : i ≤ row.length) : Follows row ending i format? Decl.parseFormat? := by
  rw [format?, Decl.parseFormat?]
  refine Follows.accept_bind hi h (by decide) (fun hlt => ?_) (Follows.pure hi none)
  exact (follows_format h hlt).bind fun note j _ hj => .pure hj (some note)

theorem follows_tolerance? (hi : i ≤ row.length) (hlimit : row.length - i < limit)
    (hdepth : 4 * (row.length - i) + 3 < depth) :
    Follows row ending i (tolerance? depth) (Decl.parseTolerance? limit) := by
  rw [tolerance?, Decl.parseTolerance?]
  refine Follows.accept_bind hi h (by decide) (fun hlt => ?_) (Follows.pure hi none)
  exact (follows_expression h (i + 1) depth hlt (by omega) (by omega)).bind
    fun e j _ hj => .pure hj (some e)

/-- What stands behind the first word of a declaration. -/
theorem exists_behindConst (depth limit : ℕ) :
    ∃ (rest : Token → Descent Decl) (rest' : Token → Parser Decl),
      declaration depth = expect .const .const >>= rest ∧
      Decl.parse limit = Parser.expect .const .const >>= rest' ∧
      ∀ first i, i ≤ row.length → row.length - i < limit → 4 * (row.length - i) + 3 < depth →
        Follows row ending i (rest first) (rest' first) := by
  refine ⟨_, _, rfl, rfl, fun first i hi hlimit hdepth => ?_⟩
  refine (Follows.expect hi h _ _).bind fun name j hj hj' => ?_
  refine (follows_format? h hj').bind fun note k hk hk' => ?_
  refine (Follows.expect hk' h _ _).bind fun _ l hl hl' => ?_
  refine (follows_value h hl' (by omega) (by omega)).bind fun v m hm hm' => ?_
  exact (follows_tolerance? h hm' (by omega) (by omega)).bind fun tolerance _ _ hn => .pure hn _

theorem follows_declaration (hi : i ≤ row.length) (hlimit : row.length - i < limit)
    (hdepth : 4 * (row.length - i) + 3 < depth) :
    Follows row ending i (declaration depth) (Decl.parse limit) := by
  obtain ⟨rest, rest', hdeclaration, hparse, hrest⟩ := exists_behindConst h depth limit
  rw [hdeclaration, hparse]
  exact (Follows.expect hi h _ _).bind fun first j hj hj' =>
    hrest first j hj' (by omega) (by omega)

/-- A declaration has moved on as soon as its first word is there. -/
theorem agrees_declaration (hs : s.position ≤ row.length)
    (hkind : (tokenAt row ending s.position).kind = .const)
    (hlimit : row.length - s.position < limit)
    (hdepth : 4 * (row.length - s.position) + 3 < depth) :
    Agrees row ending (s.moveTo (s.position + 1))
      ((declaration depth).outcome (row ++ [ending]) s)
      ((Decl.parse limit).run (streamFrom row ending s.position)) := by
  have hend : (tokenAt row ending s.position).kind ≠ .endOfText := by
    rw [hkind]
    decide
  have hlt := lt_of_le_of_ne hs (mt (kind_tokenAt_iff h hs).mpr hend)
  obtain ⟨rest, rest', hdeclaration, hparse, hrest⟩ := exists_behindConst h depth limit
  -- on both sides the first word is taken, and from there on they follow each other
  have hrun : (declaration depth).outcome (row ++ [ending]) s =
      (rest (tokenAt row ending s.position)).outcome (row ++ [ending])
        (s.moveTo (s.position + 1)) := by
    rw [hdeclaration, expect, bind_assoc, outcome_peek_bind hs, if_pos hkind,
      outcome_advance_bind hs hend]
  have hrun' : (Decl.parse limit).run (streamFrom row ending s.position) =
      (rest' (tokenAt row ending s.position)).run (streamFrom row ending (s.position + 1)) := by
    rw [hparse, Parser.run_bind, Parser.run_expect, current_streamFrom, if_pos hkind,
      advance_streamFrom]
  rw [hrun, hrun']
  exact hrest _ _ hlt (by omega) (by omega) _ rfl

/-- A header, whatever stands in the place of its first word. -/
theorem follows_header (hi : i ≤ row.length) :
    Follows row ending i header (do
      let _ ← Parser.next
      let name ← Parser.expect .name .programName
      let _ ← Parser.expect .colon .colonAfterProgram
      return name.lexeme) := by
  rw [header]
  refine Follows.next_bind hi h fun j _ hj => ?_
  refine (Follows.expect hj h _ _).bind fun name k _ hk => ?_
  exact (Follows.expect hk h _ _).bind fun _ l _ hl => .pure hl name.lexeme

end Declarations

/-- The end of a line, or of the text, is behind a declaration, or that is reported. -/
theorem outcome_endOfStatement (hs : s.position ≤ row.length) :
    endOfStatement.outcome (row ++ [ending]) s =
      let t := tokenAt row ending s.position
      if t.kind = .newline ∨ t.kind = .endOfText then some (.ok (), s)
      else some (.error (.syntaxError .endOfLine t.place), s.report ⟨.endOfLine, t⟩) := by
  rw [endOfStatement, outcome_sees_bind hs]
  by_cases hnewline : (tokenAt row ending s.position).kind = .newline
  · simp only [hnewline, decide_true, if_true, true_or]
    rfl
  · rw [if_neg (by simpa using hnewline), outcome_atEnd_bind hs]
    by_cases hend : (tokenAt row ending s.position).kind = .endOfText
    · simp only [hend, decide_true, if_true, or_true]
      rfl
    · rw [if_neg (by simpa using hend), outcome_peek_bind hs]
      simp only [hnewline, hend, or_self, if_false]
      rfl

theorem follows_endOfStatement (hi : i ≤ row.length) :
    Follows row ending i endOfStatement (do
      let t ← Parser.peek
      if t.kind = .newline ∨ t.kind = .endOfText then return ()
      Parser.mismatch .endOfLine t) := by
  refine Follows.peek_right ?_
  rintro s rfl
  rw [outcome_endOfStatement hi]
  dsimp only
  split
  · exact .ok () le_rfl hi
  · exact .mismatch ⟨.endOfLine, tokenAt row ending s.position⟩ le_rfl hi

end BinaryPoint.Descent
