import BinaryPoint.Proofs.Program.InStep
import BinaryPoint.Proofs.Program.Moved
import BinaryPoint.Program.Parser

/-! # Corresponding streams

Two streams correspond if a parser goes the same way on both: their current tokens agree up
to their positions, or are both of a kind at which every part of a declaration ends. Nor
does it matter how deep the two parsers may go, provided that both may go deeper than there
are tokens left.

* `Simulation`: what has to hold between two streams;
* `Simulation.parse_expr`, `Simulation.parse_decl`: expressions and declarations are then
  parsed in step.
-/

namespace BinaryPoint

/-- The kinds at which every part of a declaration ends. -/
def TokenKind.Stops (k : TokenKind) : Prop := k = .newline ∨ k = .endOfText ∨ k = .const

instance (k : TokenKind) : Decidable k.Stops :=
  inferInstanceAs (Decidable (k = .newline ∨ k = .endOfText ∨ k = .const))

/-- Two tokens between which a declaration makes no difference: they are the same but for
their positions, or both end it. -/
def Token.Alike (move : Location → Location) (t t' : Token) : Prop :=
  t' = t.moved move ∨ (t.kind.Stops ∧ t'.kind.Stops)

/-- What has to hold between two streams for declarations to be parsed in step. The streams
are in one of two modes: before the end of the part that they have in common, or where
skipping line breaks has led past it. -/
structure Simulation (move : Location → Location) where
  /-- Two streams correspond. -/
  rel (past : Bool) : Stream → Stream → Prop
  /-- Two tokens are the current ones of streams that correspond. -/
  tok (past : Bool) : Token → Token → Prop
  current {past : Bool} {s s' : Stream} : rel past s s' → tok past s.current s'.current
  alike {past : Bool} {t t' : Token} : tok past t t' → t.Alike move t'
  ending {past : Bool} {s s' : Stream} :
    rel past s s' → s.ending.kind = .endOfText ∧ s'.ending.kind = .endOfText
  advance {past : Bool} {s s' : Stream} :
    rel past s s' → ¬ s.current.kind.Stops → rel past s.advance s'.advance
  skip {past : Bool} {s s' : Stream} : rel past s s' →
    rel past s.skipNewlines s'.skipNewlines ∨ rel true s.skipNewlines s'.skipNewlines
  stops {t t' : Token} : tok true t t' → t.kind.Stops ∧ t'.kind.Stops
  /-- Two streams correspond where a declaration starts. -/
  starts : Stream → Stream → Prop
  first {s s' : Stream} : starts s s' → s.current.kind = .const ∧ s'.current.kind = .const ∧
    s'.current.place = move s.current.place ∧ rel false s.advance s'.advance

/-- Failures that correspond: a mismatch at tokens that correspond, or the same real literal
that cannot be read. -/
inductive FailAlike (tok : Token → Token → Prop) : ParseFailure → ParseFailure → Prop
  | mismatch {wanted : Wanted} {t t' : Token} (h : tok t t') :
      FailAlike tok (.mismatch ⟨wanted, t⟩) (.mismatch ⟨wanted, t'⟩)
  | unreadable {t t' : Token} (h : tok t t') (hkind : t.kind = .real)
      (hnone : Binary64.ofText? t.lexeme = none) :
      FailAlike tok (.unreadable t.lexeme) (.unreadable t.lexeme)

namespace Simulation

variable {move : Location → Location} (S : Simulation move)

/-- Streams that correspond, with fewer tokens left than the bounds. -/
def Within (past : Bool) (m m' : Nat) (s s' : Stream) : Prop :=
  S.rel past s s' ∧ s.pending.length < m ∧ s'.pending.length < m'

/-- Streams that correspond in one of the modes. -/
def Either (m m' : Nat) (s s' : Stream) : Prop := ∃ past, S.Within past m m' s s'

/-- Streams that correspond and whose current tokens are known. -/
def At (past : Bool) (m m' : Nat) (t t' : Token) (s s' : Stream) : Prop :=
  S.Within past m m' s s' ∧ s.current = t ∧ s'.current = t'

/-- Failures that correspond, where the streams do. -/
def Fails (f : ParseFailure) (s : Stream) (f' : ParseFailure) (s' : Stream) : Prop :=
  ∃ past, S.rel past s s' ∧ FailAlike (S.tok past) f f'

variable {S} {past : Bool} {m m' : Nat} {s s' : Stream} {t t' : Token}

theorem Within.mono {n n' : Nat} (h : S.Within past m m' s s') (hn : m ≤ n) (hn' : m' ≤ n') :
    S.Within past n n' s s' :=
  ⟨h.1, Nat.lt_of_lt_of_le h.2.1 hn, Nat.lt_of_lt_of_le h.2.2 hn'⟩

/-- A token at which nothing ends corresponds to itself only. -/
theorem moved_of_tok (h : S.tok past t t') (ht : ¬ t.kind.Stops) : t' = t.moved move :=
  (S.alike h).resolve_right fun hstops => ht hstops.1

/-- Of two tokens that correspond, both end a declaration or neither does. -/
theorem stops_iff (h : S.tok past t t') : t.kind.Stops ↔ t'.kind.Stops := by
  rcases S.alike h with rfl | ⟨ht, ht'⟩
  · rfl
  · exact ⟨fun _ => ht', fun _ => ht⟩

/-- A kind at which nothing ends is seen on both sides or on neither. -/
theorem kind_eq_iff (h : S.tok past t t') {kind : TokenKind} (hkind : ¬ kind.Stops) :
    t.kind = kind ↔ t'.kind = kind := by
  rcases S.alike h with rfl | ⟨ht, ht'⟩
  · rfl
  · exact ⟨fun e => absurd (e ▸ ht) hkind, fun e => absurd (e ▸ ht') hkind⟩

/-- A current token that does not end the text is one of those still to be read. -/
theorem length_tail_lt {s : Stream} {n : Nat} (hend : s.ending.kind = .endOfText)
    (hs : s.current.kind ≠ .endOfText) (hn : s.pending.length < n) :
    s.advance.pending.length < n - 1 := by
  rcases s with ⟨pending, ending⟩
  cases pending with
  | nil => exact absurd hend hs
  | cons t ts =>
    simp only [Stream.advance, List.tail_cons, List.length_cons] at hn ⊢
    omega

theorem Within.advance (h : S.Within past m m' s s') (hs : ¬ s.current.kind.Stops) :
    S.Within past (m - 1) (m' - 1) s.advance s'.advance := by
  obtain ⟨hrel, hm, hm'⟩ := h
  obtain ⟨hend, hend'⟩ := S.ending hrel
  have hs' : ¬ s'.current.kind.Stops := mt (stops_iff (S.current hrel)).mpr hs
  refine ⟨S.advance hrel hs, length_tail_lt hend ?_ hm, length_tail_lt hend' ?_ hm'⟩
  · exact fun e => hs (.inr (.inl e))
  · exact fun e => hs' (.inr (.inl e))

theorem Either.skipNewlines (h : S.Either m m' s s') :
    S.Either m m' s.skipNewlines s'.skipNewlines := by
  obtain ⟨past, hrel, hm, hm'⟩ := h
  have hle : ∀ s : Stream, s.skipNewlines.pending.length ≤ s.pending.length :=
    fun s => (List.dropWhile_sublist _).length_le
  have hlt := Nat.lt_of_le_of_lt (hle s) hm
  have hlt' := Nat.lt_of_le_of_lt (hle s') hm'
  rcases S.skip hrel with h | h
  · exact ⟨past, h, hlt, hlt'⟩
  · exact ⟨true, h, hlt, hlt'⟩

/-! ## Rules for single steps -/

section Steps

variable {α β γ δ : Type} {Q : α → β → Prop} {R : Stream → Stream → Prop}

theorem pure_step {a : α} {b : β} {n n' : Nat} (h : Q a b) (hn : n ≤ m) (hn' : n' ≤ m') :
    InStep (S.Within past n n') (pure a) (pure b) Q (S.Within past m m') S.Fails :=
  fun _ _ hs => .ok h (hs.mono hn hn')

theorem fail_mismatch {wanted : Wanted} {P : Stream → Stream → Prop}
    (hP : ∀ s s', P s s' → S.rel past s s') (h : S.tok past t t') :
    InStep P (Parser.mismatch wanted t) (Parser.mismatch wanted t') Q R S.Fails :=
  fun s s' hs => .error ⟨past, hP s s' hs, .mismatch h⟩

theorem peek_bind {f : Token → Parser α} {g : Token → Parser β}
    (h : ∀ t t', S.tok past t t' → InStep (S.At past m m' t t') (f t) (g t') Q R S.Fails) :
    InStep (S.Within past m m') (Parser.peek >>= f) (Parser.peek >>= g) Q R S.Fails := by
  intro s s' hs
  rw [Parser.run_bind, Parser.run_bind, Parser.run_peek, Parser.run_peek]
  exact h _ _ (S.current hs.1) s s' ⟨hs, rfl, rfl⟩

theorem next_bind {f : Token → Parser α} {g : Token → Parser β} (ht : ¬ t.kind.Stops)
    (h : InStep (S.Within past (m - 1) (m' - 1)) (f t) (g t') Q R S.Fails) :
    InStep (S.At past m m' t t') (Parser.next >>= f) (Parser.next >>= g) Q R S.Fails := by
  rintro s s' ⟨hs, rfl, rfl⟩
  rw [Parser.run_bind, Parser.run_bind, Parser.run_next, Parser.run_next]
  exact h _ _ (hs.advance ht)

theorem expect_step {kind : TokenKind} {wanted : Wanted} (hkind : ¬ kind.Stops) :
    InStep (S.Within past m m') (Parser.expect kind wanted) (Parser.expect kind wanted)
      (fun t t' => t.kind = kind ∧ S.tok past t t') (S.Within past (m - 1) (m' - 1)) S.Fails := by
  intro s s' hs
  have htok := S.current hs.1
  have hiff := kind_eq_iff htok hkind
  rw [Parser.run_expect, Parser.run_expect]
  by_cases h : s.current.kind = kind
  · rw [if_pos h, if_pos (hiff.mp h)]
    exact .ok ⟨h, htok⟩ (hs.advance (h ▸ hkind))
  · rw [if_neg h, if_neg (mt hiff.mpr h)]
    exact .error ⟨past, hs.1, .mismatch htok⟩

theorem sees_bind {kind : TokenKind} {f : Bool → Parser α} {g : Bool → Parser β}
    (hkind : ¬ kind.Stops)
    (hyes : ∀ t t', S.tok past t t' → t.kind = kind →
      InStep (S.At past m m' t t') (f true) (g true) Q R S.Fails)
    (hno : InStep (S.Within past m m') (f false) (g false) Q R S.Fails) :
    InStep (S.Within past m m') (Parser.sees kind >>= f) (Parser.sees kind >>= g)
      Q R S.Fails := by
  intro s s' hs
  have htok := S.current hs.1
  have hiff := kind_eq_iff htok hkind
  rw [Parser.run_bind, Parser.run_bind, Parser.run_sees, Parser.run_sees]
  by_cases h : s.current.kind = kind
  · simp only [h, hiff.mp h, decide_true]
    exact hyes _ _ htok h s s' ⟨hs, rfl, rfl⟩
  · simp only [h, mt hiff.mpr h, decide_false]
    exact hno s s' hs

theorem accept_bind {kind : TokenKind} {f : Bool → Parser α} {g : Bool → Parser β}
    (hkind : ¬ kind.Stops)
    (hyes : InStep (S.Within past (m - 1) (m' - 1)) (f true) (g true) Q R S.Fails)
    (hno : InStep (S.Within past m m') (f false) (g false) Q R S.Fails) :
    InStep (S.Within past m m') (Parser.accept kind >>= f) (Parser.accept kind >>= g)
      Q R S.Fails := by
  intro s s' hs
  have hiff := kind_eq_iff (S.current hs.1) hkind
  rw [Parser.run_bind, Parser.run_bind, Parser.run_accept, Parser.run_accept]
  by_cases h : s.current.kind = kind
  · rw [if_pos h, if_pos (hiff.mp h)]
    exact hyes _ _ (hs.advance (h ▸ hkind))
  · rw [if_neg h, if_neg (mt hiff.mpr h)]
    exact hno s s' hs

theorem of_within {x : Parser α} {y : Parser β}
    (h : InStep (S.Within past m m') x y Q R S.Fails) :
    InStep (S.At past m m' t t') x y Q R S.Fails :=
  fun s s' hs => h s s' hs.1

theorem lower {P : Stream → Stream → Prop} {x : Parser α} {y : Parser β} {n n' : Nat}
    (h : InStep P x y Q (S.Within past n n') S.Fails) (hn : n ≤ m) (hn' : n' ≤ m') :
    InStep P x y Q (S.Within past m m') S.Fails :=
  h.weaken (fun _ _ hs => hs) (fun _ _ hs => hs.mono hn hn') (fun _ _ hQ => hQ)

theorem skipNewlines_step :
    InStep (S.Either m m') Parser.skipNewlines Parser.skipNewlines (fun _ _ => True)
      (S.Either m m') S.Fails :=
  fun s s' hs => by
    rw [Parser.run_skipNewlines, Parser.run_skipNewlines]
    exact .ok trivial hs.skipNewlines

end Steps

/-! ## Numbers -/

theorem integerValue_step (ht : t' = t.moved move) (htok : S.tok past t t') :
    InStep (S.Within past m m') (Parser.integerValue t) (Parser.integerValue t')
      (fun n n' => n = n') (S.Within past m m') S.Fails := by
  subst ht
  unfold Parser.integerValue
  rw [show (t.moved move).lexeme = t.lexeme from rfl]
  split
  · exact .pure rfl
  · exact fail_mismatch (fun _ _ hs => hs.1) htok

theorem realValue_step (ht : t' = t.moved move) (htok : S.tok past t t') (hkind : t.kind = .real) :
    InStep (S.Within past m m') (Parser.realValue t) (Parser.realValue t')
      (fun x x' => x = x') (S.Within past m m') S.Fails := by
  subst ht
  unfold Parser.realValue
  rw [show (t.moved move).lexeme = t.lexeme from rfl]
  split
  · exact .pure rfl
  · next hnone =>
    intro s s' hs
    exact .error ⟨past, hs.1, .unreadable htok hkind hnone⟩

/-! ## Expressions -/

/-- Two parsers of expressions go in step on streams with fewer tokens left than the bounds,
and take no token too many. -/
def ExprStep (S : Simulation move) (n n' : Nat) (x y : Parser Expr) : Prop :=
  ∀ past m m', m ≤ n → m' ≤ n' →
    InStep (S.Within past m m') x y (fun e e' => e' = e.moved move) (S.Within past m m') S.Fails

/-- Without any bound left there is no stream to start from. -/
theorem ExprStep.of_zero {x y : Parser Expr} {n n' : Nat} (h : n = 0 ∨ n' = 0) :
    S.ExprStep n n' x y := by
  intro past m m' hm hm'
  refine .of_false fun s s' hs => ?_
  obtain ⟨-, hlt, hlt'⟩ := hs
  omega

/-- Inside parentheses one token less is left. -/
theorem primary_step {d d' : Nat} {inner inner' : Parser Expr}
    (hinner : S.ExprStep d d' inner inner') :
    S.ExprStep (d + 1) (d' + 1) (Expr.primary inner) (Expr.primary inner') := by
  intro past m m' hm hm'
  refine peek_bind fun t t' htok => ?_
  by_cases hstops : t.kind.Stops
  · -- at none of these kinds an operand starts
    have hstops' := (stops_iff htok).mp hstops
    have hfail : InStep (S.At past m m' t t') (Parser.mismatch .expression t)
        (Parser.mismatch .expression t') (fun e e' => e' = Expr.moved move e)
        (S.Within past m m') S.Fails := fail_mismatch (fun _ _ hs => hs.1.1) htok
    rcases hstops with h | h | h <;> rcases hstops' with h' | h' | h' <;>
      simpa only [h, h'] using hfail
  · have hmoved := moved_of_tok htok hstops
    have hkind : t'.kind = t.kind := by rw [hmoved]; rfl
    have hle : ∀ n, n - 1 ≤ n := fun n => Nat.sub_le n 1
    rw [hkind]
    split
    · -- a number, a name or an expression in parentheses takes its first token
      refine next_bind hstops (InStep.bind (integerValue_step hmoved htok) fun n n' hn => ?_)
      subst hn hmoved
      exact pure_step rfl (hle m) (hle m')
    · next h =>
      refine next_bind hstops (InStep.bind (realValue_step hmoved htok h) fun x x' hx => ?_)
      subst hx hmoved
      exact pure_step rfl (hle m) (hle m')
    · subst hmoved
      exact next_bind hstops (pure_step rfl (hle m) (hle m'))
    · refine next_bind hstops (InStep.bind
        (hinner past (m - 1) (m' - 1) (by omega) (by omega)) fun e e' he => ?_)
      refine InStep.bind (expect_step (by decide)) fun _ _ _ => ?_
      subst he hmoved
      exact pure_step rfl (by omega) (by omega)
    · exact fail_mismatch (fun _ _ hs => hs.1.1) htok

/-- Minus signs take a token each, so they end before the bounds do. -/
theorem signed_step {n n' : Nat} {operand operand' : Parser Expr}
    (hoperand : S.ExprStep n n' operand operand') :
    ∀ (limit limit' : Nat), limit ≤ n → limit' ≤ n' →
      S.ExprStep limit limit' (Expr.signed operand limit) (Expr.signed operand' limit') := by
  intro limit
  induction limit with
  | zero => exact fun _ _ _ => .of_zero (.inl rfl)
  | succ limit ih =>
    rintro (_ | limit') hn hn' past m m' hm hm'
    · exact ExprStep.of_zero (.inr rfl) past m m' hm hm'
    · refine peek_bind fun t t' htok => ?_
      -- a minus sign stands on both sides or on neither
      have hiff : t.kind = .minus ↔ t'.kind = .minus := kind_eq_iff htok (by decide)
      by_cases h : t.kind = .minus
      · have hstops : ¬ t.kind.Stops := h ▸ by decide
        have hmoved := moved_of_tok htok hstops
        rw [if_pos h, if_pos (hiff.mp h)]
        refine next_bind hstops (InStep.bind (ih limit' (by omega) (by omega) past (m - 1)
          (m' - 1) (by omega) (by omega)) fun e e' he => ?_)
        subst he hmoved
        exact pure_step rfl (Nat.sub_le m 1) (Nat.sub_le m' 1)
      · rw [if_neg h, if_neg (mt hiff.mpr h)]
        exact of_within (hoperand past m m' (by omega) (by omega))

/-- Each operator takes a token, so a row of them ends before the bounds do. -/
theorem chainFrom_step {n n' : Nat} {operand operand' : Parser Expr}
    {operator? : TokenKind → Option Operator} (hoperator : ∀ k, k.Stops → operator? k = none)
    (hoperand : S.ExprStep n n' operand operand') :
    ∀ (limit limit' : Nat) (e : Expr), limit ≤ n → limit' ≤ n' →
      S.ExprStep limit limit' (Expr.chainFrom operand operator? limit e)
        (Expr.chainFrom operand' operator? limit' (e.moved move)) := by
  intro limit
  induction limit with
  | zero => exact fun _ _ _ _ => .of_zero (.inl rfl)
  | succ limit ih =>
    rintro (_ | limit') e hn hn' past m m' hm hm'
    · exact ExprStep.of_zero (.inr rfl) past m m' hm hm'
    · refine peek_bind fun t t' htok => ?_
      by_cases hstops : t.kind.Stops
      · -- no operator stops a stream
        simp only [hoperator _ hstops, hoperator _ ((stops_iff htok).mp hstops)]
        exact of_within (pure_step rfl (Nat.le_refl _) (Nat.le_refl _))
      · have hmoved := moved_of_tok htok hstops
        rw [show t'.kind = t.kind by rw [hmoved]; rfl]
        cases operator? t.kind with
        | none => exact of_within (pure_step rfl (Nat.le_refl _) (Nat.le_refl _))
        | some op =>
          refine next_bind hstops (InStep.bind
            (hoperand past (m - 1) (m' - 1) (by omega) (by omega)) fun right right' hright => ?_)
          subst hright hmoved
          exact lower (ih limit' (.binary op e right (some t.place)) (by omega) (by omega) past
            (m - 1) (m' - 1) (by omega) (by omega)) (Nat.sub_le m 1) (Nat.sub_le m' 1)

theorem chain_step {n n' : Nat} {operand operand' : Parser Expr}
    {operator? : TokenKind → Option Operator} (hoperator : ∀ k, k.Stops → operator? k = none)
    (hoperand : S.ExprStep n n' operand operand') :
    S.ExprStep n n' (Expr.chain operand operator? n) (Expr.chain operand' operator? n') := by
  intro past m m' hm hm'
  refine InStep.bind (hoperand past m m' hm hm') fun e e' he => ?_
  subst he
  exact chainFrom_step hoperator hoperand n n' e (Nat.le_refl _) (Nat.le_refl _) past m m' hm hm'

/-- Expressions are parsed in step, however deep they may be. -/
theorem parse_expr : ∀ d d', S.ExprStep d d' (Expr.parse d) (Expr.parse d') := by
  intro d
  induction d with
  | zero => exact fun _ => .of_zero (.inl rfl)
  | succ d ih =>
    rintro (_ | d')
    · exact .of_zero (.inr rfl)
    · have hproduct : ∀ k : TokenKind, k.Stops → Expr.productOperator? k = none := by
        rintro k (rfl | rfl | rfl) <;> rfl
      have hsum : ∀ k : TokenKind, k.Stops → Expr.sumOperator? k = none := by
        rintro k (rfl | rfl | rfl) <;> rfl
      have hoperand := signed_step (primary_step (ih d')) (d + 1) (d' + 1) (Nat.le_refl _)
        (Nat.le_refl _)
      exact chain_step hsum (chain_step hproduct hoperand)

/-! ## Lists of samples

Only here line breaks are skipped, so only here the streams may change their mode. -/

section Either

variable {α β : Type} {Q : α → β → Prop} {R : Stream → Stream → Prop} {x : Parser α} {y : Parser β}

theorem Either.mono {n n' : Nat} (h : S.Either m m' s s') (hn : m ≤ n) (hn' : m' ≤ n') :
    S.Either n n' s s' := by
  obtain ⟨past, hs⟩ := h
  exact ⟨past, hs.mono hn hn'⟩

theorem in_either (h : ∀ past, InStep (S.Within past m m') x y Q R S.Fails) :
    InStep (S.Either m m') x y Q R S.Fails :=
  fun s s' ⟨past, hs⟩ => h past s s' hs

theorem of_either (h : InStep (S.Either m m') x y Q R S.Fails) :
    InStep (S.Within past m m') x y Q R S.Fails :=
  fun s s' hs => h s s' ⟨past, hs⟩

theorem pure_either {a : α} {b : β} {n n' : Nat} (h : Q a b) (hn : n ≤ m) (hn' : n' ≤ m') :
    InStep (S.Either n n') (pure a) (pure b) Q (S.Either m m') S.Fails :=
  fun _ _ hs => .ok h (hs.mono hn hn')

end Either

theorem expr_either {d d' : Nat} (hm : m ≤ d) (hm' : m' ≤ d') :
    InStep (S.Either m m') (Expr.parse d) (Expr.parse d') (fun e e' => e' = e.moved move)
      (S.Either m m') S.Fails :=
  in_either fun past =>
    (parse_expr d d' past m m' hm hm').weaken (fun _ _ hs => hs) (fun _ _ hs => ⟨past, hs⟩)
      (fun _ _ h => h)

/-- Rows of samples that correspond. -/
def SamplesAlike (move : Location → Location) (es es' : List Expr) : Prop :=
  es' = Expr.movedAll move es

/-- Each further sample takes a comma, so a row of them ends before the bounds do. -/
theorem moreSamples_step {d d' : Nat} :
    ∀ (limit limit' : Nat), limit ≤ d → limit' ≤ d' → ∀ {m m'}, m ≤ limit → m' ≤ limit' →
      InStep (S.Either m m') (Decl.parseMoreSamples d limit) (Decl.parseMoreSamples d' limit')
        (SamplesAlike move) (S.Either m m') S.Fails := by
  intro limit
  induction limit with
  | zero =>
    rintro limit' - - m m' hm -
    exact .of_false fun s s' ⟨_, _, hlt, _⟩ => by omega
  | succ limit ih =>
    rintro (_ | limit') hd hd' m m' hm hm'
    · exact .of_false fun s s' ⟨_, _, _, hlt⟩ => by omega
    · have hle : ∀ n, n - 1 ≤ n := fun n => Nat.sub_le n 1
      refine in_either fun past => accept_bind (by decide) (of_either ?_)
        (of_either (pure_either rfl (Nat.le_refl _) (Nat.le_refl _)))
      refine InStep.bind skipNewlines_step fun _ _ _ => in_either fun past => ?_
      -- behind a comma the list may be closed at once
      refine sees_bind (by decide)
        (fun _ _ _ _ => of_within (of_either (pure_either rfl (hle m) (hle m')))) (of_either ?_)
      refine InStep.bind (expr_either (by omega) (by omega)) fun e e' he => ?_
      refine InStep.bind skipNewlines_step fun _ _ _ => ?_
      refine InStep.bind (ih limit' (by omega) (by omega) (by omega) (by omega))
        fun es es' hes => ?_
      subst he hes
      exact pure_either rfl (hle m) (hle m')

theorem samples_step {limit limit' : Nat} (hm : m ≤ limit) (hm' : m' ≤ limit') :
    InStep (S.Either m m') (Decl.parseSamples limit) (Decl.parseSamples limit')
      (SamplesAlike move) (S.Either m m') S.Fails := by
  refine InStep.bind skipNewlines_step fun _ _ _ => in_either fun past => ?_
  refine sees_bind (by decide)
    (fun _ _ _ _ => of_within (of_either (pure_either rfl (Nat.le_refl _) (Nat.le_refl _))))
    (of_either ?_)
  refine InStep.bind (expr_either hm hm') fun e e' he => ?_
  refine InStep.bind skipNewlines_step fun _ _ _ => ?_
  refine InStep.bind (moreSamples_step limit limit' (Nat.le_refl _) (Nat.le_refl _) hm hm')
    fun es es' hes => ?_
  subst he hes
  exact pure_either rfl (Nat.le_refl _) (Nat.le_refl _)

/-- A closing bracket is not found once the common part is over. -/
theorem closeBracket_step {wanted : Wanted} :
    InStep (S.Either m m') (Parser.expect .rightBracket wanted)
      (Parser.expect .rightBracket wanted) (fun _ _ => True) (S.Within false m m') S.Fails := by
  rintro s s' ⟨past, hs⟩
  have hbracket : ¬ TokenKind.rightBracket.Stops := by decide
  have hresults : Results _ _ _ ((Parser.expect .rightBracket wanted).run s)
    ((Parser.expect .rightBracket wanted).run s') := expect_step hbracket s s' hs
  generalize (Parser.expect .rightBracket wanted).run s = r,
    (Parser.expect .rightBracket wanted).run s' = r' at hresults ⊢
  cases hresults with
  | error h => exact .error h
  | ok hvalue hrest =>
    cases past with
    | false => exact .ok trivial (hrest.mono (Nat.sub_le _ _) (Nat.sub_le _ _))
    | true => exact absurd (S.stops hvalue.2).1 (hvalue.1 ▸ by decide)

/-! ## Declarations -/

/-- Two values, or formats, or the like that may be absent, up to positions. -/
theorem value_step {limit limit' : Nat} (hm : m ≤ limit) (hm' : m' ≤ limit') :
    InStep (S.Within false m m') (Decl.parseValue limit) (Decl.parseValue limit')
      (fun e e' => e' = e.moved move) (S.Within false m m') S.Fails := by
  refine sees_bind (by decide) (fun t t' htok hkind => ?_)
    (parse_expr limit limit' false m m' hm hm')
  have hstops : ¬ t.kind.Stops := hkind ▸ by decide
  have hmoved := moved_of_tok htok hstops
  refine next_bind hstops (of_either ?_)
  refine InStep.bind (samples_step (by omega) (by omega)) fun es es' hes => ?_
  refine InStep.bind closeBracket_step fun _ _ _ => ?_
  subst hes hmoved
  exact pure_step rfl (Nat.sub_le m 1) (Nat.sub_le m' 1)

theorem width_step {wanted : Wanted} :
    InStep (S.Within past m m') (FormatNote.parseWidth wanted) (FormatNote.parseWidth wanted)
      (fun n n' => n = n') (S.Within past m m') S.Fails := by
  refine InStep.bind (expect_step (by decide)) fun t t' ⟨hkind, htok⟩ => ?_
  exact lower (integerValue_step (moved_of_tok htok (hkind ▸ by decide)) htok)
    (Nat.sub_le m 1) (Nat.sub_le m' 1)

theorem widths_step {isSigned : Bool} {place : Location} :
    InStep (S.Within past m m') (FormatNote.parseWidths isSigned place)
      (FormatNote.parseWidths isSigned (move place)) (fun f f' => f' = f.moved move)
      (S.Within past m m') S.Fails := by
  refine InStep.bind (expect_step (by decide)) fun _ _ _ => ?_
  refine InStep.bind width_step fun i i' hi => ?_
  refine InStep.bind (expect_step (by decide)) fun _ _ _ => ?_
  refine InStep.bind width_step fun f f' hf => ?_
  refine InStep.bind (expect_step (by decide)) fun _ _ _ => ?_
  subst hi hf
  exact pure_step rfl (by omega) (by omega)

theorem format_step :
    InStep (S.Within past m m') FormatNote.parse FormatNote.parse (fun f f' => f' = f.moved move)
      (S.Within past m m') S.Fails := by
  refine peek_bind fun t t' htok => ?_
  by_cases hstops : t.kind.Stops
  · -- at none of these kinds a format starts
    have hstops' := (stops_iff htok).mp hstops
    have hfail : InStep (S.At past m m' t t') (Parser.mismatch .format t)
        (Parser.mismatch .format t') (fun f f' => f' = FormatNote.moved move f)
        (S.Within past m m') S.Fails := fail_mismatch (fun _ _ hs => hs.1.1) htok
    rcases hstops with h | h | h <;> rcases hstops' with h' | h' | h' <;>
      simpa only [h, h'] using hfail
  · have hmoved := moved_of_tok htok hstops
    subst hmoved
    rw [show (t.moved move).kind = t.kind from rfl]
    split
    · exact next_bind hstops (pure_step rfl (Nat.sub_le m 1) (Nat.sub_le m' 1))
    · exact next_bind hstops (lower widths_step (Nat.sub_le m 1) (Nat.sub_le m' 1))
    · exact next_bind hstops (lower widths_step (Nat.sub_le m 1) (Nat.sub_le m' 1))
    · exact fail_mismatch (fun _ _ hs => hs.1.1) htok

theorem format?_step :
    InStep (S.Within past m m') Decl.parseFormat? Decl.parseFormat?
      (fun f f' => f' = f.map (FormatNote.moved move)) (S.Within past m m') S.Fails := by
  refine accept_bind (by decide) (InStep.bind format_step fun f f' hf => ?_)
    (pure_step rfl (Nat.le_refl _) (Nat.le_refl _))
  subst hf
  exact pure_step rfl (Nat.sub_le m 1) (Nat.sub_le m' 1)

theorem tolerance?_step {limit limit' : Nat} (hm : m ≤ limit) (hm' : m' ≤ limit') :
    InStep (S.Within past m m') (Decl.parseTolerance? limit) (Decl.parseTolerance? limit')
      (fun e e' => e' = e.map (Expr.moved move)) (S.Within past m m') S.Fails := by
  refine accept_bind (by decide) (InStep.bind (parse_expr limit limit' past (m - 1) (m' - 1)
    (by omega) (by omega)) fun e e' he => ?_) (pure_step rfl (Nat.le_refl _) (Nat.le_refl _))
  subst he
  exact pure_step rfl (Nat.sub_le m 1) (Nat.sub_le m' 1)

/-- Streams that correspond where a declaration starts, with fewer tokens left than the
bounds. -/
def Starts (S : Simulation move) (m m' : Nat) (s s' : Stream) : Prop :=
  S.starts s s' ∧ s.pending.length < m ∧ s'.pending.length < m'

/-- The word that a declaration starts with is taken on both sides. -/
theorem const_step {wanted : Wanted} :
    InStep (S.Starts m m') (Parser.expect .const wanted) (Parser.expect .const wanted)
      (fun t t' => t'.place = move t.place) (S.Within false (m - 1) (m' - 1)) S.Fails := by
  rintro s s' ⟨hs, hm, hm'⟩
  obtain ⟨hconst, hconst', hplace, hrel⟩ := S.first hs
  obtain ⟨hend, hend'⟩ := S.ending hrel
  rw [Parser.run_expect, Parser.run_expect, if_pos hconst, if_pos hconst']
  exact .ok hplace ⟨hrel, length_tail_lt hend (hconst ▸ nofun) hm,
    length_tail_lt hend' (hconst' ▸ nofun) hm'⟩

/-- Declarations are parsed in step, and each one takes a token at least. -/
theorem parse_decl {limit limit' : Nat} (hm : m ≤ limit) (hm' : m' ≤ limit') :
    InStep (S.Starts m m') (Decl.parse limit) (Decl.parse limit') (fun d d' => d' = d.moved move)
      (S.Within false (m - 1) (m' - 1)) S.Fails := by
  refine InStep.bind const_step fun first first' hfirst => ?_
  refine InStep.bind (expect_step (by decide)) fun name name' ⟨hkind, htok⟩ => ?_
  have hname := moved_of_tok htok (hkind ▸ by decide)
  refine InStep.bind format?_step fun f f' hf => ?_
  refine InStep.bind (expect_step (by decide)) fun _ _ _ => ?_
  refine InStep.bind (value_step (by omega) (by omega)) fun e e' he => ?_
  refine InStep.bind (tolerance?_step (by omega) (by omega)) fun t t' ht => ?_
  subst hname hf he ht
  refine pure_step ?_ (by omega) (by omega)
  rw [hfirst]
  rfl

/-- Headers are parsed in step. -/
theorem header_step :
    InStep (S.Within past m m') Program.parseHeader Program.parseHeader (fun n n' => n = n')
      (S.Within past m m') S.Fails := by
  refine InStep.bind (expect_step (by decide)) fun _ _ _ => ?_
  refine InStep.bind (expect_step (by decide)) fun name name' ⟨hkind, htok⟩ => ?_
  have hname := moved_of_tok htok (hkind ▸ by decide)
  refine InStep.bind (expect_step (by decide)) fun _ _ _ => ?_
  subst hname
  exact pure_step rfl (by omega) (by omega)

end Simulation

end BinaryPoint
