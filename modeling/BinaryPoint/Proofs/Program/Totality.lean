import BinaryPoint.Proofs.Outcome
import BinaryPoint.Proofs.Program.Lexing
import BinaryPoint.Proofs.Program.Simulation

/-! # Every text is parsed

Mismatches are recovered from, so the only way for a parse to end without a program is a
real literal with a digit that is none to the reader of numbers.

* `Program.parse_returns_or`: a text has a program, or such a literal;
* `Program.not_forall_parse_returns`: there are texts with such a literal.
-/

namespace BinaryPoint

/-- A computation gives a value, or ends at one of the tokens, a real literal that cannot be
read. -/
def Recovers {α : Type} (tokens : List Token) (r : Except ParseFailure α) : Prop :=
  (∃ a, r = .ok a) ∨ ∃ t ∈ tokens, t.kind = .real ∧ Binary64.ofText? t.lexeme = none ∧
    r = .error (.unreadable t.lexeme)

section

variable {α β : Type} {tokens : List Token} {r : Except ParseFailure α}

theorem Recovers.map (h : Recovers tokens r) (f : α → β) : Recovers tokens (r.map f) := by
  rcases h with ⟨a, rfl⟩ | ⟨t, ht, hkind, hnone, rfl⟩
  · exact .inl ⟨f a, rfl⟩
  · exact .inr ⟨t, ht, hkind, hnone, rfl⟩

theorem Recovers.bind {f : α → Except ParseFailure β} (h : Recovers tokens r)
    (hf : ∀ a, r = .ok a → Recovers tokens (f a)) : Recovers tokens (r >>= f) := by
  rcases h with ⟨a, rfl⟩ | ⟨t, ht, hkind, hnone, rfl⟩
  · exact hf a rfl
  · exact .inr ⟨t, ht, hkind, hnone, rfl⟩

end

/-- A stream of some of the tokens, in their order, and the end. -/
def Stream.Of (tokens : List Token) (ending : Token) (s : Stream) : Prop :=
  s.ending = ending ∧ s.pending.Sublist tokens

namespace Stream.Of

variable {tokens : List Token} {ending : Token} {s : Stream}

theorem advance (h : s.Of tokens ending) : s.advance.Of tokens ending :=
  ⟨h.1, (List.tail_sublist _).trans h.2⟩

theorem skipNewlines (h : s.Of tokens ending) : s.skipNewlines.Of tokens ending :=
  ⟨h.1, (List.dropWhile_sublist _).trans h.2⟩

theorem skipLine (h : s.Of tokens ending) : s.skipLine.Of tokens ending :=
  ⟨h.1, (List.dropWhile_sublist _).trans h.2⟩

theorem current_mem (h : s.Of tokens ending) : s.current ∈ ending :: tokens := by
  rcases s with ⟨_ | ⟨t, ts⟩, e⟩
  · exact List.mem_cons.mpr (.inl h.1)
  · exact .tail _ (h.2.subset (.head _))

theorem length_lt (h : s.Of tokens ending) {limit : Nat} (hlimit : tokens.length < limit) :
    s.pending.length < limit :=
  Nat.lt_of_le_of_lt h.2.length_le hlimit

end Stream.Of

/-- A stream corresponds to itself. -/
def Simulation.diagonal (tokens : List Token) {ending : Token}
    (hend : ending.kind = .endOfText) : Simulation id where
  rel past s s' := past = false ∧ s' = s ∧ s.Of tokens ending
  tok past t t' := past = false ∧ t' = t ∧ t ∈ ending :: tokens
  current := fun ⟨hpast, h, hs⟩ => ⟨hpast, h ▸ rfl, hs.current_mem⟩
  alike := fun ⟨_, h, _⟩ => .inl h
  ending := fun ⟨_, h, hs⟩ => ⟨hs.1 ▸ hend, h ▸ hs.1 ▸ hend⟩
  advance := fun ⟨hpast, h, hs⟩ _ => ⟨hpast, h ▸ rfl, hs.advance⟩
  skip := fun ⟨hpast, h, hs⟩ => .inl ⟨hpast, h ▸ rfl, hs.skipNewlines⟩
  stops := nofun
  starts s s' := s' = s ∧ s.current.kind = .const ∧ s.Of tokens ending
  first := fun ⟨h, hconst, hs⟩ =>
    ⟨hconst, h ▸ hconst, h ▸ rfl, rfl, h ▸ rfl, hs.advance⟩

namespace Program

variable {tokens : List Token} {ending : Token}

/-- How a part of a program can be parsed: with success, with a mismatch, or up to a real
literal that cannot be read. -/
theorem run_cases {α : Type} {P : Stream → Stream → Prop} {x : Parser α} {Q : α → α → Prop}
    {m m' : Nat} (hend : ending.kind = .endOfText)
    (h : InStep P x x Q ((Simulation.diagonal tokens hend).Within false m m')
      (Simulation.diagonal tokens hend).Fails) {s : Stream} (hs : P s s) :
    (∃ a s', x.run s = .ok a s' ∧ s'.Of tokens ending) ∨
      (∃ found s', x.run s = .error (.mismatch found) s' ∧ s'.Of tokens ending) ∨
      ∃ t ∈ tokens, t.kind = .real ∧ Binary64.ofText? t.lexeme = none ∧
        ∃ s', x.run s = .error (.unreadable t.lexeme) s' := by
  have hresults := h s s hs
  generalize x.run s = r at hresults ⊢
  cases hresults with
  | ok hvalue hrest => exact .inl ⟨_, _, rfl, hrest.1.2.2⟩
  | error hfails =>
    obtain ⟨past, hrel, hfail⟩ := hfails
    have hs' := hrel.2.2
    right
    cases hfail with
    | mismatch h => exact .inl ⟨_, _, rfl, hs'⟩
    | @unreadable t t' h hkind hnone =>
      -- the end is no real literal
      have hne : t ≠ ending := fun h => by rw [h, hend] at hkind; cases hkind
      exact .inr ⟨t, (List.mem_cons.mp h.2.2).resolve_left hne, hkind, hnone, _, rfl⟩

/-- Lines are read to the end of the text, or up to a real literal that cannot be read. -/
theorem parseLines_recovers (hend : ending.kind = .endOfText) {limit : Nat}
    (hlimit : tokens.length < limit) :
    ∀ (lines : Nat) (s : Stream), s.Of tokens ending →
      Recovers tokens (parseLines limit lines s)
  | 0, _, _ => .inl ⟨_, rfl⟩
  | lines + 1, s, hs => by
    have hskip : ∀ s' : Stream, s'.Of tokens ending →
        Recovers tokens (parseLines limit lines s'.skipLine) := fun s' hs' =>
      parseLines_recovers hend hlimit lines s'.skipLine hs'.skipLine
    have hs := hs.skipNewlines
    rw [parseLines]
    dsimp only
    generalize s.skipNewlines = s at hs
    split
    · exact .inl ⟨_, rfl⟩
    split
    · exact (hskip s hs).map _
    · next hconst =>
      have hlt := hs.length_lt hlimit
      have hstart : (Simulation.diagonal tokens hend).Starts limit limit s s :=
        ⟨⟨rfl, not_not.mp hconst, hs⟩, hlt, hlt⟩
      have hparse := (Simulation.diagonal tokens hend).parse_decl
        (Nat.le_refl limit) (Nat.le_refl limit)
      rcases run_cases hend hparse hstart with
        ⟨d, s', hrun, hs'⟩ | ⟨found, s', hrun, hs'⟩ | ⟨t, ht, hkind, hnone, s', hrun⟩
      · rw [hrun]
        dsimp only
        split
        · exact (hskip s' hs').map _
        · exact (hskip s' hs').map _
      · rw [hrun]
        exact (hskip s' hs').map _
      · rw [hrun]
        exact .inr ⟨t, ht, hkind, hnone, rfl⟩

/-- The header, if there is one, is read to its end or up to a mismatch. -/
theorem parseName_recovers (hend : ending.kind = .endOfText) {s : Stream}
    (hs : s.Of tokens ending) :
    Recovers tokens (parseName s) ∧
      ∀ name found rest, parseName s = .ok (name, found, rest) → rest.Of tokens ending := by
  have hs := hs.skipNewlines
  rw [parseName]
  generalize s.skipNewlines = s at hs
  split
  · have hlt := Nat.lt_succ_self s.pending.length
    have hstart : (Simulation.diagonal tokens hend).Within false _ _ s s :=
      ⟨⟨rfl, rfl, hs⟩, hlt, hlt⟩
    rcases run_cases hend (Simulation.diagonal tokens hend).header_step hstart with
      ⟨name, s', hrun, hs'⟩ | ⟨found, s', hrun, hs'⟩ | ⟨t, ht, hkind, hnone, s', hrun⟩
    all_goals rw [hrun]
    · -- the header is in order
      exact ⟨.inl ⟨_, rfl⟩, by rintro _ _ _ ⟨⟩; exact hs'⟩
    · -- it breaks off at a mismatch
      exact ⟨.inl ⟨_, rfl⟩, by rintro _ _ _ ⟨⟩; exact hs'.skipLine⟩
    · -- a numeral in it has no value
      exact ⟨.inr ⟨t, ht, hkind, hnone, rfl⟩, nofun⟩
  · exact ⟨.inl ⟨_, rfl⟩, by rintro _ _ _ ⟨⟩; exact hs⟩

/-- A program is read, or there is a real literal that cannot be. -/
theorem ofStream_recovers (tokens : List Token) (hend : ending.kind = .endOfText) :
    Recovers tokens (ofStream ⟨tokens, ending⟩) := by
  obtain ⟨hname, hrest⟩ := parseName_recovers hend
    (show Stream.Of tokens ending ⟨tokens, ending⟩ from ⟨rfl, .refl _⟩)
  refine hname.bind fun ⟨name, found, rest⟩ hrun => ?_
  have hlines := parseLines_recovers hend (Nat.lt_succ_self tokens.length)
    (tokens.length + 1) rest (hrest name found rest hrun)
  exact hlines.bind fun lines _ => .inl ⟨_, rfl⟩

/-- What is parsed without a fault has a program and mismatches. -/
theorem parse_eq_ok {source file : String} {program : Program} {found : List Diagnostic} :
    parse source file = .ok (program, found) ↔
      ∃ mismatches, ofStream (.ofLexed (Lexed.ofText source file)) = .ok (program, mismatches) ∧
        found = (Lexed.ofText source file).diagnostics ++ mismatches.map Mismatch.diagnostic := by
  rw [parse]
  cases ofStream (.ofLexed (Lexed.ofText source file)) with
  | error f => simp
  | ok result =>
    obtain ⟨program', mismatches⟩ := result
    simp only [Except.ok.injEq, Prod.mk.injEq]
    constructor
    · rintro ⟨rfl, rfl⟩
      exact ⟨mismatches, ⟨rfl, rfl⟩, rfl⟩
    · rintro ⟨_, ⟨rfl, rfl⟩, rfl⟩
      exact ⟨rfl, rfl⟩

/-- **Every text is parsed** unless it has a real literal with a digit that stands for no
decimal digit. Then the parse may end at such a literal without a program. -/
theorem parse_returns_or (source file : String) :
    (∃ program found, parse source file = .ok (program, found)) ∨
      ∃ t ∈ (Lexed.ofText source file).tokens, t.kind = .real ∧
        (∃ c ∈ t.lexeme.toList, c ∈ source.toList ∧ Text.isDigit c ∧
          Text.digitValue? c = none) ∧
        parse source file = refuse (.notNumberText t.lexeme) := by
  rcases ofStream_recovers (Lexed.ofText source file).tokens
      (show (Lexed.ofText source file).endToken.kind = .endOfText from rfl) with
    ⟨⟨program, found⟩, hparse⟩ | ⟨t, ht, hkind, hnone, hparse⟩
  · exact .inl ⟨program, _, parse_eq_ok.mpr ⟨found, hparse, rfl⟩⟩
  · obtain ⟨c, hc, hdigit, hvalue⟩ := Lexed.not_isDecimal_of_ofText? ht hkind hnone
    have hsource := Lexed.mem_of_mem_lexeme ht (hkind ▸ nofun) hc
    refine .inr ⟨t, ht, hkind, ⟨c, hc, hsource, hdigit, hvalue⟩, ?_⟩
    rw [parse, Stream.ofLexed, hparse]
    rfl

/-- The parse of a text need not return: the lexer takes `²` for a digit of a real literal,
the reader of numbers does not. -/
theorem not_forall_parse_returns :
    ¬ ∀ source file : String, ∃ program found, parse source file = .ok (program, found) := by
  intro hall
  obtain ⟨program, found, hparse⟩ := hall "const A = 1.²" "<string>"
  have hnone : (parse "const A = 1.²" "<string>").toOption.isSome = false := by decide +kernel
  rw [hparse] at hnone
  cases hnone

end Program

end BinaryPoint
