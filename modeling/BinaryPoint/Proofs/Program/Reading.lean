import BinaryPoint.Proofs.Program.Grammar
import BinaryPoint.Proofs.Program.InStep
import Mathlib.Data.List.TakeWhile

/-! # What a parser has read

The tokens that a parser has taken from a stream when it returns spell what it returns.

* `Parser.Reads`: what is known of the tokens taken and the value returned, with a rule for
  each way to put parsers together;
* `Expr.reads_parse`, `Decl.reads_parse`: expressions and declarations are read by the rules of
  the grammar.
-/

namespace BinaryPoint

/-- A stream with more tokens in front. -/
def Stream.prepend (ts : List Token) (s : Stream) : Stream := { s with pending := ts ++ s.pending }

namespace Stream

variable {t : Token} {ts us : List Token} {s : Stream}

@[simp] theorem prepend_nil : s.prepend [] = s := rfl

theorem prepend_append : s.prepend (ts ++ us) = (s.prepend us).prepend ts := by
  simp only [prepend, List.append_assoc]

@[simp] theorem current_prepend_cons : (s.prepend (t :: ts)).current = t := rfl

@[simp] theorem advance_prepend_cons : (s.prepend (t :: ts)).advance = s.prepend ts := rfl

/-- A current token that does not end the text is in front of the others. -/
theorem eq_prepend_advance (hend : s.ending.kind = .endOfText)
    (hs : s.current.kind ≠ .endOfText) : s = s.advance.prepend [s.current] := by
  rcases s with ⟨_ | ⟨t, ts⟩, ending⟩
  · exact absurd hend hs
  · rfl

end Stream

namespace Parser

/-- Started where `P` holds, a parser takes tokens from the front. If it returns, they can be
read, and `G` holds of them and of the value. -/
def Reads {α : Type} (P : Stream → Prop) (x : Parser α) (G : List Token → α → Prop) : Prop :=
  ∀ s, P s → s.ending.kind = .endOfText →
    (∀ a s', x.run s = .ok a s' → ∃ ts, s = s'.prepend ts ∧ (∀ t ∈ ts, t.Converts) ∧ G ts a) ∧
    ∀ f s', x.run s = .error f s' → ∃ ts, s = s'.prepend ts

/-- Any stream. -/
def Anywhere : Stream → Prop := fun _ => True

/-- The streams with a given current token. -/
def At (t : Token) : Stream → Prop := fun s => s.current = t

namespace Reads

variable {α β : Type} {P : Stream → Prop} {x : Parser α} {f : α → Parser β} {t : Token}
  {G : List Token → α → Prop} {H : List Token → β → Prop} {kind : TokenKind}

protected theorem pure {a : α} (h : G [] a) : Reads P (pure a) G := by
  refine fun s _ _ => ⟨?_, ?_⟩
  · rintro _ _ ⟨⟩
    exact ⟨[], rfl, nofun, h⟩
  · rintro _ _ ⟨⟩

protected theorem bind (hx : Reads P x G)
    (hf : ∀ ts a, G ts a → Reads Anywhere (f a) fun us => H (ts ++ us)) :
    Reads P (x >>= f) H := by
  intro s hs hend
  rw [run_bind]
  obtain ⟨hreturns, hfails⟩ := hx s hs hend
  rcases hfirst : x.run s with ⟨a, between⟩ | ⟨e, between⟩
  · -- the second parser starts behind what the first one took, and both stand in a row
    obtain ⟨ts, rfl, hts, hG⟩ := hreturns a between hfirst
    obtain ⟨hreturns, hfails⟩ := hf ts a hG between trivial hend
    constructor
    · intro b s' hrun
      obtain ⟨us, rfl, hus, hH⟩ := hreturns b s' hrun
      exact ⟨ts ++ us, Stream.prepend_append.symm, List.forall_mem_append.mpr ⟨hts, hus⟩, hH⟩
    · intro e s' hrun
      obtain ⟨us, rfl⟩ := hfails e s' hrun
      exact ⟨ts ++ us, Stream.prepend_append.symm⟩
  · -- if the first parser fails, the second one takes nothing
    refine ⟨?_, ?_⟩
    · rintro _ _ ⟨⟩
    · rintro _ _ ⟨⟩
      exact hfails e between hfirst

theorem mono {G' : List Token → α → Prop} (hx : Reads P x G) (h : ∀ ts a, G ts a → G' ts a) :
    Reads P x G' := by
  intro s hs hend
  obtain ⟨hreturns, hfails⟩ := hx s hs hend
  refine ⟨fun a s' hrun => ?_, hfails⟩
  obtain ⟨ts, hts, hconverts, hG⟩ := hreturns a s' hrun
  exact ⟨ts, hts, hconverts, h ts a hG⟩

/-- A parser whose result is built from that of another one. -/
theorem returning {f : α → β} (hx : Reads P x G) (h : ∀ ts a, G ts a → H ts (f a)) :
    Reads P (x >>= fun a => pure (f a)) H :=
  hx.bind fun ts a hG => .pure (by rw [List.append_nil]; exact h ts a hG)

theorem of_anywhere (hx : Reads Anywhere x G) : Reads P x G := fun s _ => hx s trivial

theorem mismatch {wanted : Wanted} {found : Token} :
    Reads P (Parser.mismatch wanted found) G := by
  refine fun s _ _ => ⟨?_, ?_⟩
  · rintro _ _ ⟨⟩
  · rintro _ _ ⟨⟩
    exact ⟨[], rfl⟩

/-! ## Single tokens -/

theorem peek_bind {f : Token → Parser α} (h : ∀ t, Reads (At t) (f t) G) :
    Reads Anywhere (peek >>= f) G := by
  intro s _ hend
  rw [run_bind, run_peek]
  exact h s.current s rfl hend

theorem next_bind {f : Token → Parser α} (hkind : t.kind ≠ .endOfText) (ht : t.Converts)
    (h : Reads Anywhere (f t) fun ts => G (t :: ts)) : Reads (At t) (next >>= f) G := by
  rintro s rfl hend
  rw [run_bind, run_next]
  dsimp only
  have hs := Stream.eq_prepend_advance hend hkind
  obtain ⟨hreturns, hfails⟩ := h s.advance trivial hend
  constructor
  · intro a s' hrun
    obtain ⟨ts, hts, hconverts, hG⟩ := hreturns a s' hrun
    -- the current token, and then what the rest takes
    refine ⟨s.current :: ts, ?_, List.forall_mem_cons.mpr ⟨ht, hconverts⟩, hG⟩
    rw [hs, hts]
    exact Stream.prepend_append.symm
  · intro e s' hrun
    obtain ⟨ts, hts⟩ := hfails e s' hrun
    refine ⟨s.current :: ts, ?_⟩
    rw [hs, hts]
    exact Stream.prepend_append.symm

theorem take_bind {f : Token → Parser α} (hplain : kind.Plain) (ht : t.kind = kind)
    (h : Reads Anywhere (f t) fun ts => G (t :: ts)) : Reads (At t) (next >>= f) G := by
  subst ht
  exact next_bind hplain.1 (Token.converts_of_plain hplain rfl) h

theorem expect_bind {f : Token → Parser α} {wanted : Wanted} (hplain : kind.Plain)
    (h : ∀ t, t.kind = kind → Reads Anywhere (f t) fun ts => G (t :: ts)) :
    Reads Anywhere (expect kind wanted >>= f) G := by
  rw [Parser.expect, bind_assoc]
  refine peek_bind fun t => ?_
  split
  · next ht => exact take_bind hplain ht (h t ht)
  · exact Reads.bind (G := fun _ _ => False) .mismatch fun _ _ h => h.elim

theorem sees_bind {f : Bool → Parser α} (hyes : ∀ t, t.kind = kind → Reads (At t) (f true) G)
    (hno : Reads Anywhere (f false) G) : Reads Anywhere (sees kind >>= f) G := by
  intro s _ hend
  rw [run_bind, run_sees]
  by_cases h : s.current.kind = kind
  · simp only [h, decide_true]
    exact hyes s.current h s rfl hend
  · simp only [h, decide_false]
    exact hno s trivial hend

theorem accept_bind {f : Bool → Parser α} (hplain : kind.Plain)
    (hyes : ∀ t, t.kind = kind → Reads Anywhere (f true) fun ts => G (t :: ts))
    (hno : Reads Anywhere (f false) G) : Reads Anywhere (accept kind >>= f) G := by
  rw [accept, bind_assoc]
  refine sees_bind (fun t ht => ?_) ?_
  · have hnext := take_bind (f := fun _ => f true) hplain ht (hyes t ht)
    simpa using hnext
  · simpa using hno

theorem skipNewlines : Reads Anywhere skipNewlines fun ts _ => Breaks ts := by
  refine fun s _ _ => ⟨?_, ?_⟩
  · rintro _ _ ⟨⟩
    have hbreaks : Breaks (s.pending.takeWhile (·.kind = .newline)) :=
      fun t ht => by simpa using List.mem_takeWhile_imp ht
    refine ⟨_, ?_, fun t ht => ?_, hbreaks⟩
    · rw [Stream.prepend, Stream.skipNewlines, List.takeWhile_append_dropWhile]
    · exact Token.converts_of_plain (by decide) (hbreaks t ht)
  · rintro _ _ ⟨⟩

/-! ## Numbers

That a number can be read is known only once it has been, after its token was taken. -/

/-- A number that cannot be read ends the parser, after its token. -/
theorem number_bind {α : Type} {f : Token → Parser α} {G : List Token → α → Prop}
    (hkind : t.kind ≠ .endOfText)
    (hread : t.Converts ∧ Reads Anywhere (f t) (fun ts => G (t :: ts)) ∨
      ∃ e, f t = throw e) : Reads (At t) (next >>= f) G := by
  rcases hread with ⟨hconverts, h⟩ | ⟨e, he⟩
  · exact next_bind hkind hconverts h
  · rintro s rfl hend
    rw [run_bind, run_next]
    dsimp only
    rw [he]
    refine ⟨?_, ?_⟩
    · rintro _ _ ⟨⟩
    · rintro _ _ ⟨⟩
      exact ⟨[s.current], Stream.eq_prepend_advance hend hkind⟩

theorem integer_bind {f : Token → Nat → Parser α} (ht : t.kind = .integer)
    (h : Reads Anywhere (f t t.natural) fun ts => G (t :: ts)) :
    Reads (At t) (next >>= fun t => integerValue t >>= f t) G := by
  refine number_bind (ht ▸ nofun) ?_
  cases hread : Decimal.readDigits t.lexeme.toList with
  | error e =>
    refine .inr ⟨.mismatch ⟨.shortInteger, t⟩, ?_⟩
    rw [integerValue, hread]
    rfl
  | ok n =>
    have hn : t.natural = n := by rw [Token.natural, hread]; rfl
    refine .inl ⟨⟨fun _ => hn ▸ hread, fun hreal => (nomatch ht.symm.trans hreal)⟩, ?_⟩
    rw [integerValue, hread]
    exact hn ▸ h

theorem real_bind {f : Token → Binary64 → Parser α} (ht : t.kind = .real)
    (h : Reads Anywhere (f t t.double) fun ts => G (t :: ts)) :
    Reads (At t) (next >>= fun t => realValue t >>= f t) G := by
  refine number_bind (ht ▸ nofun) ?_
  cases hread : Binary64.ofText? t.lexeme with
  | none =>
    refine .inr ⟨.unreadable t.lexeme, ?_⟩
    rw [realValue, hread]
    rfl
  | some x =>
    have hx : t.double = x := by rw [Token.double, hread]; rfl
    refine .inl ⟨⟨fun hinteger => (nomatch ht.symm.trans hinteger), fun _ => hx ▸ hread⟩, ?_⟩
    rw [realValue, hread]
    exact hx ▸ h

end Reads

end Parser

open BinaryPoint.Parser (Reads Anywhere At)
open TokenKind (sumOperator?_eq_some productOperator?_eq_some)

/-! ## Expressions -/

namespace Expr

theorem reads_primary {inner : Parser Expr} (hinner : Reads Anywhere inner (Derives .sum)) :
    Reads Anywhere (primary inner) (Derives .operand) := by
  refine Reads.peek_bind fun t => ?_
  split
  · next hkind =>
    exact Reads.integer_bind hkind (.pure (.integer hkind))
  · next hkind =>
    exact Reads.real_bind hkind (.pure (.real hkind))
  · next hkind =>
    exact Reads.take_bind (by decide) hkind (.pure (.name hkind))
  · next hkind =>
    refine Reads.take_bind (by decide) hkind ?_
    refine Reads.bind hinner fun ts e he => ?_
    exact Reads.expect_bind (by decide) fun right hright => .pure (.paren hkind he hright)
  · exact .mismatch

theorem reads_signed {operand : Parser Expr}
    (hoperand : Reads Anywhere operand (Derives .operand)) :
    ∀ limit : Nat, Reads Anywhere (signed operand limit) (Derives .signed)
  | 0 => hoperand.mono fun _ _ => .operand
  | limit + 1 => by
    refine Reads.peek_bind fun t => ?_
    split
    · next hminus =>
      refine Reads.take_bind (by decide) hminus ?_
      exact Reads.returning (reads_signed hoperand limit) fun _ _ => .minus hminus
    · exact (hoperand.mono fun _ _ => .operand).of_anywhere

section Chains

variable {operand : Parser Expr} {operator? : TokenKind → Option Operator} {level below : Level}

/-- What a loop over operators takes goes on with what stands on its left. -/
theorem reads_chainFrom
    (hkind : ∀ kind op, operator? kind = some op → kind.operator? = some op)
    (hstep : ∀ {ls rs t op l r}, operator? t.kind = some op → Derives level ls l →
      Derives below rs r → Derives level (ls ++ t :: rs) (.binary op l r (some t.place)))
    (hoperand : Reads Anywhere operand (Derives below)) :
    ∀ (limit : Nat) (left : Expr), Reads Anywhere (chainFrom operand operator? limit left)
      fun ts e => ∀ ls, Derives level ls left → Derives level (ls ++ ts) e
  | 0, left => .pure fun ls hl => by rwa [List.append_nil]
  | limit + 1, left => by
    refine Reads.peek_bind fun t => ?_
    split
    · exact .pure fun ls hl => by rwa [List.append_nil]
    · next op hop =>
      -- the tree up to here and one more operand are on the left of what is still to come
      refine Reads.take_bind (TokenKind.plain_of_operator? (hkind _ _ hop)) rfl ?_
      refine Reads.bind hoperand fun rs right hr => ?_
      refine (reads_chainFrom hkind hstep hoperand limit _).mono fun ts e he ls hl => ?_
      have h := he _ (hstep hop hl hr)
      rwa [List.append_assoc, List.cons_append] at h

theorem reads_chain
    (hkind : ∀ kind op, operator? kind = some op → kind.operator? = some op)
    (hstep : ∀ {ls rs t op l r}, operator? t.kind = some op → Derives level ls l →
      Derives below rs r → Derives level (ls ++ t :: rs) (.binary op l r (some t.place)))
    (hfirst : ∀ {ts e}, Derives below ts e → Derives level ts e)
    (hoperand : Reads Anywhere operand (Derives below)) (limit : Nat) :
    Reads Anywhere (chain operand operator? limit) (Derives level) := by
  refine Reads.bind hoperand fun ls left hl => ?_
  exact (reads_chainFrom hkind hstep hoperand limit left).mono fun ts e he => he ls (hfirst hl)

end Chains

/-- An expression is read by its rules, by induction on the depth: only what stands in
parentheses is one level deeper. -/
theorem reads_parse : ∀ depth : Nat, Reads Anywhere (parse depth) (Derives .sum)
  | 0 => .peek_bind fun _ => .mismatch
  | depth + 1 => by
    have hprimary := reads_primary (reads_parse depth)
    have hsigned := reads_signed hprimary (depth + 1)
    have hproduct : Reads Anywhere _ (Derives .product) :=
      reads_chain (fun _ _ h => (productOperator?_eq_some.mp h).1) .product .factor hsigned
        (depth + 1)
    exact reads_chain (fun _ _ h => (sumOperator?_eq_some.mp h).1) .sum .term hproduct
      (depth + 1)

end Expr

/-! ## Formats -/

namespace FormatNote

theorem reads_parseWidth (wanted : Wanted) :
    Reads Anywhere (parseWidth wanted) fun ts n =>
      ∃ t : Token, ts = [t] ∧ t.kind = .integer ∧ n = t.natural := by
  rw [parseWidth, Parser.expect, bind_assoc]
  refine Reads.peek_bind fun t => ?_
  split
  · next hkind =>
    have h := Reads.integer_bind (f := fun _ n => pure n)
      (G := fun ts n => ∃ u : Token, ts = [u] ∧ u.kind = .integer ∧ n = u.natural) hkind
      (.pure ⟨t, rfl, hkind, rfl⟩)
    simpa only [bind_pure] using h
  · exact Reads.bind (G := fun _ _ => False) .mismatch fun _ _ h => h.elim

/-- The widths, behind the word for the sign. -/
theorem reads_parseWidths (signed : Bool) {sign : Token}
    (hsign : sign.kind = if signed then .sfix else .ufix) :
    Reads Anywhere (parseWidths signed sign.place) fun ts => Derives (sign :: ts) := by
  refine Reads.expect_bind (by decide) fun left hleft => ?_
  refine Reads.bind (reads_parseWidth _) ?_
  rintro _ _ ⟨integerBits, rfl, hinteger, rfl⟩
  refine Reads.expect_bind (by decide) fun comma hcomma => ?_
  refine Reads.bind (reads_parseWidth _) ?_
  rintro _ _ ⟨fractionalBits, rfl, hfractional, rfl⟩
  refine Reads.expect_bind (by decide) fun right hright => ?_
  exact .pure (.explicit hsign hleft hinteger hcomma hfractional hright)

theorem reads_parse : Reads Anywhere parse Derives := by
  refine Reads.peek_bind fun t => ?_
  split
  · next hkind =>
    exact Reads.take_bind (by decide) hkind (.pure (.preset hkind))
  · next hkind =>
    exact Reads.take_bind (by decide) hkind (reads_parseWidths true hkind)
  · next hkind =>
    exact Reads.take_bind (by decide) hkind (reads_parseWidths false hkind)
  · exact .mismatch

end FormatNote

/-! ## Declarations -/

namespace Decl

theorem reads_parseMoreSamples (depth : Nat) :
    ∀ limit : Nat, Reads Anywhere (parseMoreSamples depth limit) DerivesMore
  | 0 => .pure .done
  | limit + 1 => by
    refine Reads.accept_bind (by decide) (fun t ht => ?_) (.pure .done)
    refine Reads.bind .skipNewlines fun before _ hbefore => ?_
    refine Reads.sees_bind (fun _ _ => ?_) ?_
    · exact .pure (by rw [List.append_nil]; exact .comma ht hbefore)
    refine Reads.bind (Expr.reads_parse depth) fun ts e he => ?_
    refine Reads.bind .skipNewlines fun after _ hafter => ?_
    refine Reads.returning (reads_parseMoreSamples depth limit) fun rest es hrest => ?_
    exact .more ht hbefore he hafter hrest

theorem reads_parseSamples (limit : Nat) : Reads Anywhere (parseSamples limit) DerivesSamples := by
  refine Reads.bind .skipNewlines fun before _ hbefore => ?_
  refine Reads.sees_bind (fun _ _ => ?_) ?_
  · exact .pure (by rw [List.append_nil]; exact .none hbefore)
  refine Reads.bind (Expr.reads_parse limit) fun ts e he => ?_
  refine Reads.bind .skipNewlines fun after _ hafter => ?_
  refine Reads.returning (reads_parseMoreSamples limit limit) fun rest es hrest => ?_
  exact .some hbefore he hafter hrest

theorem reads_parseValue (limit : Nat) : Reads Anywhere (parseValue limit) DerivesValue := by
  refine Reads.sees_bind (fun left hleft => ?_) ?_
  · refine Reads.take_bind (by decide) hleft ?_
    refine Reads.bind (reads_parseSamples limit) fun ts es hes => ?_
    exact Reads.expect_bind (by decide) fun right hright => .pure (.list hleft hes hright)
  · exact (Expr.reads_parse limit).mono fun _ _ => .scalar

theorem reads_parseFormat? :
    Reads Anywhere parseFormat? (OptionalPart .colon FormatNote.Derives) := by
  refine Reads.accept_bind (by decide) (fun t ht => ?_) (.pure .absent)
  exact Reads.returning FormatNote.reads_parse fun _ _ => .present ht

theorem reads_parseTolerance? (limit : Nat) :
    Reads Anywhere (parseTolerance? limit) (OptionalPart .within (Expr.Derives .sum)) := by
  refine Reads.accept_bind (by decide) (fun t ht => ?_) (.pure .absent)
  exact Reads.returning (Expr.reads_parse limit) fun _ _ => .present ht

theorem reads_parse (limit : Nat) : Reads Anywhere (parse limit) Derives := by
  refine Reads.expect_bind (by decide) fun first hfirst => ?_
  refine Reads.expect_bind (by decide) fun name hname => ?_
  refine Reads.bind reads_parseFormat? fun fs format hformat => ?_
  refine Reads.expect_bind (by decide) fun equals hequals => ?_
  refine Reads.bind (reads_parseValue limit) fun vs value hvalue => ?_
  refine Reads.returning (reads_parseTolerance? limit) fun ts tolerance htolerance => ?_
  have h := Derives.intro hfirst hname hformat hequals hvalue htolerance
  exact h

end Decl

theorem Program.reads_parseHeader :
    Reads Anywhere parseHeader fun ts name => DerivesHeader ts (some name) := by
  refine Reads.expect_bind (by decide) fun first hfirst => ?_
  refine Reads.expect_bind (by decide) fun name hname => ?_
  refine Reads.expect_bind (by decide) fun colon hcolon => ?_
  exact .pure (.present hfirst hname hcolon)

end BinaryPoint
