import BinaryPoint.Proofs.Program.Reading

/-! # What is spelled is read

A row of tokens that the grammar derives is read up to its end, and gives the tree of the
derivation, whatever stands behind it. Only the loops look further: they have to find that it
does not go on.

* `Parser.Takes`: a parser takes some tokens in front of a stream, with a rule for each way to
  put parsers together;
* `Expr.Derives.takes`, `Decl.Derives.takes`: expressions and declarations are read.
-/

namespace BinaryPoint

/-! ## Streams that start in order -/

namespace Stream

variable {ts : List Token} {s : Stream}

/-- Nothing is skipped in front of a token that is no line break. -/
theorem skipNewlines_eq_self (h : s.current.kind ≠ .newline) : s.skipNewlines = s := by
  rcases s with ⟨_ | ⟨t, ts⟩, e⟩
  · rfl
  · exact congrArg (Stream.mk · e) (List.dropWhile_cons_of_neg (by simpa [current] using h))

/-- Line breaks in front make no difference to what follows them. -/
theorem skipNewlines_prepend (h : Breaks ts) : (s.prepend ts).skipNewlines = s.skipNewlines := by
  have hdrop : ∀ us : List Token, (ts ++ us).dropWhile (·.kind = .newline) =
      us.dropWhile (·.kind = .newline) := by
    induction ts with
    | nil => exact fun _ => rfl
    | cons t ts ih =>
      obtain ⟨ht, hts⟩ := List.forall_mem_cons.mp h
      intro us
      rw [List.cons_append, List.dropWhile_cons_of_pos (by simpa using ht), ih hts]
  exact congrArg (Stream.mk · s.ending) (hdrop s.pending)

/-- Nothing is left behind line breaks at the end of a text. -/
theorem skipNewlines_breaks (h : Breaks ts) (e : Token) : (mk ts e).skipNewlines = ⟨[], e⟩ := by
  have hskip := skipNewlines_prepend (s := ⟨[], e⟩) h
  rwa [prepend, List.append_nil] at hskip

end Stream

/-! ## Taking tokens -/

namespace Parser

/-- In front of a stream, a parser takes just the given tokens. -/
def Takes {α : Type} (x : Parser α) (ts : List Token) (a : α) (s : Stream) : Prop :=
  x.run (s.prepend ts) = .ok a s

namespace Takes

variable {α β : Type} {x : Parser α} {f : α → Parser β} {a : α} {b : β} {t : Token}
  {ts us : List Token} {s : Stream} {kind : TokenKind}

protected theorem pure : Takes (pure a) [] a s := rfl

protected theorem bind (hx : Takes x ts a (s.prepend us)) (hf : Takes (f a) us b s) :
    Takes (x >>= f) (ts ++ us) b s := by
  rw [Takes, run_bind, Stream.prepend_append, hx]
  exact hf

/-- A parser whose result is built from that of another one. -/
theorem returning {f : α → β} (hx : Takes x ts a s) :
    Takes (x >>= fun a => pure (f a)) ts (f a) s := by
  rw [Takes, run_bind, hx]
  rfl

theorem peek_bind {f : Token → Parser α} (h : Takes (f (s.prepend ts).current) ts a s) :
    Takes (peek >>= f) ts a s := h

theorem next_bind {f : Token → Parser α} (h : Takes (f t) ts a s) :
    Takes (next >>= f) (t :: ts) a s := h

theorem expect_bind {f : Token → Parser α} {wanted : Wanted} (ht : t.kind = kind)
    (h : Takes (f t) ts a s) : Takes (expect kind wanted >>= f) (t :: ts) a s := by
  rw [Takes, run_bind, run_expect, Stream.current_prepend_cons, if_pos ht]
  exact h

theorem sees_bind_of_eq {f : Bool → Parser α} (hs : (s.prepend ts).current.kind = kind)
    (h : Takes (f true) ts a s) : Takes (sees kind >>= f) ts a s := by
  rw [Takes, run_bind, run_sees, decide_eq_true hs]
  exact h

theorem sees_bind_of_ne {f : Bool → Parser α} (hs : (s.prepend ts).current.kind ≠ kind)
    (h : Takes (f false) ts a s) : Takes (sees kind >>= f) ts a s := by
  rw [Takes, run_bind, run_sees, decide_eq_false hs]
  exact h

theorem accept_bind_of_eq {f : Bool → Parser α} (ht : t.kind = kind) (h : Takes (f true) ts a s) :
    Takes (accept kind >>= f) (t :: ts) a s := by
  rw [Takes, run_bind, run_accept, Stream.current_prepend_cons, if_pos ht]
  exact h

theorem accept_bind_of_ne {f : Bool → Parser α} (hs : (s.prepend ts).current.kind ≠ kind)
    (h : Takes (f false) ts a s) : Takes (accept kind >>= f) ts a s := by
  rw [Takes, run_bind, run_accept, if_neg hs]
  exact h

theorem skipNewlines (hts : Breaks ts) (hs : s.current.kind ≠ .newline) :
    Takes skipNewlines ts () s := by
  rw [Takes, run_skipNewlines, Stream.skipNewlines_prepend hts, Stream.skipNewlines_eq_self hs]

theorem integerValue (ht : t.kind = .integer) (hconverts : t.Converts) :
    Takes (integerValue t) [] t.natural s := by
  rw [Takes, Parser.integerValue, hconverts.1 ht]
  rfl

theorem realValue (ht : t.kind = .real) (hconverts : t.Converts) :
    Takes (realValue t) [] t.double s := by
  rw [Takes, Parser.realValue, hconverts.2 ht]
  rfl

end Takes

end Parser

open BinaryPoint.Parser (Takes)

/-! ## Expressions -/

namespace Expr

/-- The kinds of tokens that no expression goes on with. -/
def EndsBefore (kind : TokenKind) : Prop := sumOperator? kind = none ∧ productOperator? kind = none

/-- An expression starts with a token of its own, which is no minus sign if it is an operand. -/
theorem Derives.exists_cons {level : Level} {ts : List Token} {e : Expr} (h : Derives level ts e) :
    ∃ t us, ts = t :: us ∧ t.kind ∈ [.integer, .real, .name, .leftParen, .minus] ∧
      (level = .operand → t.kind ≠ .minus) := by
  induction h with
  | sum _ _ _ ihl | product _ _ _ ihl =>
    obtain ⟨t, us, rfl, ht, -⟩ := ihl
    exact ⟨t, _, rfl, ht, nofun⟩
  | term _ ih | factor _ ih | operand _ ih =>
    obtain ⟨t, us, rfl, ht, -⟩ := ih
    exact ⟨t, _, rfl, ht, nofun⟩
  | minus hminus => exact ⟨_, _, rfl, by simp [hminus], nofun⟩
  | integer h | real h | name h => exact ⟨_, _, rfl, by simp [h], by simp [h]⟩
  | paren h => exact ⟨_, _, rfl, by simp [h], by simp [h]⟩

theorem Derives.length_pos {level : Level} {ts : List Token} {e : Expr} (h : Derives level ts e) :
    0 < ts.length := by
  obtain ⟨t, us, rfl, -⟩ := h.exists_cons
  exact Nat.succ_pos _

section Chains

variable {operand : Parser Expr} {operator? : TokenKind → Option Operator} {s : Stream}

/-- In front of a stream, operands and operators have been grouped to an expression, and the
loop over the operators may still go around so many times. -/
def Groups (operand : Parser Expr) (operator? : TokenKind → Option Operator) (limit n : Nat)
    (ts : List Token) (e : Expr) (s : Stream) : Prop :=
  (chain operand operator? limit).run (s.prepend ts) = (chainFrom operand operator? n e).run s

/-- The loop over operators ends where there is none. -/
theorem run_chainFrom_of_none (h : operator? s.current.kind = none) (n : Nat) (e : Expr) :
    (chainFrom operand operator? n e).run s = .ok e s := by
  cases n with
  | zero => rfl
  | succ n =>
    rw [chainFrom, Parser.run_bind, Parser.run_peek]
    dsimp only
    rw [h]
    rfl

theorem Groups.first {limit : Nat} {ts : List Token} {e : Expr} (h : Takes operand ts e s) :
    Groups operand operator? limit limit ts e s := by
  rw [Groups, chain, Parser.run_bind, h]

theorem Groups.next {limit n : Nat} {ls rs : List Token} {t : Token} {op : Operator} {l r : Expr}
    (hop : operator? t.kind = some op)
    (hl : Groups operand operator? limit (n + 1) ls l (s.prepend (t :: rs)))
    (hr : Takes operand rs r s) :
    Groups operand operator? limit n (ls ++ t :: rs) (.binary op l r (some t.place)) s := by
  rw [Groups, Stream.prepend_append, hl, chainFrom, Parser.run_bind, Parser.run_peek]
  dsimp only
  rw [Stream.current_prepend_cons, hop]
  dsimp only
  rw [Parser.run_bind, Parser.run_next, Stream.current_prepend_cons, Stream.advance_prepend_cons]
  dsimp only
  rw [Parser.run_bind, hr]

theorem Groups.takes {limit n : Nat} {ts : List Token} {e : Expr}
    (h : Groups operand operator? limit n ts e s) (hs : operator? s.current.kind = none) :
    Takes (chain operand operator? limit) ts e s :=
  h.trans (run_chainFrom_of_none hs n e)

end Chains

/-- The parsers of signed expressions and of products, down to a given depth. -/
def signedAt (depth : Nat) : Parser Expr := signed (primary (parse depth)) (depth + 1)

def productAt (depth : Nat) : Parser Expr := chain (signedAt depth) productOperator? (depth + 1)

/-- How a row of tokens of each level is read, if it is short enough for the depth: operands and
signed expressions at once, sums and products up to where the loop looks for an operator. -/
def Taken (ts : List Token) (e : Expr) : Level → Prop
  | .operand => ∀ depth s, ts.length ≤ depth + 1 → Takes (primary (parse depth)) ts e s
  | .signed => ∀ depth limit s, ts.length ≤ depth + 1 → ts.length ≤ limit + 1 →
      Takes (signed (primary (parse depth)) limit) ts e s
  | .product => ∀ depth, ts.length ≤ depth + 1 → ∃ n, depth + 2 ≤ n + ts.length ∧
      ∀ s, Groups (signedAt depth) productOperator? (depth + 1) n ts e s
  | .sum => ∀ depth, ts.length ≤ depth + 1 → ∃ n, depth + 2 ≤ n + ts.length ∧
      ∀ s : Stream, productOperator? s.current.kind = none →
        Groups (productAt depth) sumOperator? (depth + 1) n ts e s

namespace Taken

variable {ls rs ts : List Token} {t : Token} {op : Operator} {l r e : Expr}

theorem sum_takes (h : Taken ts e .sum) (hpos : 0 < ts.length) {limit : Nat}
    (hlimit : ts.length ≤ limit) {s : Stream} (hs : EndsBefore s.current.kind) :
    Takes (parse limit) ts e s := by
  obtain ⟨depth, rfl⟩ := Nat.exists_eq_add_of_lt (Nat.lt_of_lt_of_le hpos hlimit)
  obtain ⟨n, -, hgroups⟩ := h (0 + depth) hlimit
  exact (hgroups s hs.2).takes hs.1

theorem product_takes (h : Taken ts e .product) {depth : Nat} (hdepth : ts.length ≤ depth + 1)
    {s : Stream} (hs : productOperator? s.current.kind = none) :
    Takes (productAt depth) ts e s := by
  obtain ⟨n, -, hgroups⟩ := h depth hdepth
  exact (hgroups s).takes hs

theorem sum (hop : sumOperator? t.kind = some op) (hl : Taken ls l .sum) (hr : Taken rs r .product)
    (hpos : 0 < rs.length) : Taken (ls ++ t :: rs) (.binary op l r (some t.place)) .sum := by
  intro depth hdepth
  rw [List.length_append, List.length_cons] at hdepth ⊢
  obtain ⟨n, hn, hgroups⟩ := hl depth (by omega)
  have hproduct : productOperator? t.kind = none := by
    revert hop
    cases t.kind <;> simp [sumOperator?, productOperator?]
  -- this operator takes one of the turns that are left
  obtain ⟨n, rfl⟩ : ∃ m, n = m + 1 := ⟨n - 1, by omega⟩
  refine ⟨n, by omega, fun s hs => ?_⟩
  exact .next hop (hgroups _ hproduct) (hr.product_takes (by omega) hs)

theorem term (h : Taken ts e .product) (hpos : 0 < ts.length) : Taken ts e .sum :=
  fun _ hdepth => ⟨_, by omega, fun _ hs => .first (h.product_takes hdepth hs)⟩

theorem product (hop : productOperator? t.kind = some op) (hl : Taken ls l .product)
    (hr : Taken rs r .signed) (hpos : 0 < rs.length) :
    Taken (ls ++ t :: rs) (.binary op l r (some t.place)) .product := by
  intro depth hdepth
  rw [List.length_append, List.length_cons] at hdepth ⊢
  obtain ⟨n, hn, hgroups⟩ := hl depth (by omega)
  obtain ⟨n, rfl⟩ : ∃ m, n = m + 1 := ⟨n - 1, by omega⟩
  exact ⟨n, by omega, fun s => .next hop (hgroups _) (hr depth _ s (by omega) (by omega))⟩

theorem factor (h : Taken ts e .signed) (hpos : 0 < ts.length) : Taken ts e .product :=
  fun depth hdepth => ⟨_, by omega, fun s => .first (h depth _ s hdepth (by omega))⟩

theorem minus (ht : t.kind = .minus) (h : Taken ts e .signed) (hpos : 0 < ts.length) :
    Taken (t :: ts) (.unary "-" e (some t.place)) .signed := by
  intro depth limit s hdepth hlimit
  rw [List.length_cons] at hdepth hlimit
  obtain ⟨limit, rfl⟩ : ∃ m, limit = m + 1 := ⟨limit - 1, by omega⟩
  refine Takes.peek_bind ?_
  rw [Stream.current_prepend_cons, if_pos ht]
  exact Takes.next_bind (Takes.returning (h depth limit s (by omega) (by omega)))

theorem operand (ht : t.kind ≠ .minus) (h : Taken (t :: ts) e .operand) :
    Taken (t :: ts) e .signed := by
  intro depth limit s hdepth hlimit
  cases limit with
  | zero => exact h depth s hdepth
  | succ limit =>
    refine Takes.peek_bind ?_
    rw [Stream.current_prepend_cons, if_neg ht]
    exact h depth s hdepth

theorem integer (ht : t.kind = .integer) (hconverts : t.Converts) :
    Taken [t] (.integer t.natural (some t.place)) .operand := by
  intro depth s _
  refine Takes.peek_bind ?_
  rw [Stream.current_prepend_cons, ht]
  exact Takes.next_bind (Takes.returning (Takes.integerValue ht hconverts))

theorem real (ht : t.kind = .real) (hconverts : t.Converts) :
    Taken [t] (.real t.double (some t.place)) .operand := by
  intro depth s _
  refine Takes.peek_bind ?_
  rw [Stream.current_prepend_cons, ht]
  exact Takes.next_bind (Takes.returning (Takes.realValue ht hconverts))

theorem name (ht : t.kind = .name) : Taken [t] (.name t.lexeme (some t.place)) .operand := by
  intro depth s _
  refine Takes.peek_bind ?_
  rw [Stream.current_prepend_cons, ht]
  exact Takes.next_bind .pure

theorem paren {left right : Token} (hleft : left.kind = .leftParen) (h : Taken ts e .sum)
    (hpos : 0 < ts.length) (hright : right.kind = .rightParen) :
    Taken (left :: (ts ++ [right])) (.paren e (some left.place)) .operand := by
  intro depth s hdepth
  rw [List.length_cons, List.length_append] at hdepth
  refine Takes.peek_bind ?_
  rw [Stream.current_prepend_cons, hleft]
  have hends : EndsBefore (s.prepend [right]).current.kind := by
    rw [Stream.current_prepend_cons, hright]
    exact ⟨rfl, rfl⟩
  refine Takes.next_bind (Takes.bind (h.sum_takes hpos (by omega) hends) ?_)
  exact Takes.expect_bind hright .pure

end Taken

/-- Each level of an expression is read, by induction on its derivation. -/
theorem Derives.taken {level : Level} {ts : List Token} {e : Expr} (h : Derives level ts e)
    (hconverts : ∀ t ∈ ts, t.Converts) : Taken ts e level := by
  induction h with
  | sum hop hl hr ihl ihr =>
    obtain ⟨hls, -, hrs⟩ := List.forall_mem_append.mp hconverts |>.imp_right List.forall_mem_cons.mp
    exact .sum hop (ihl hls) (ihr hrs) hr.length_pos
  | term h ih => exact .term (ih hconverts) h.length_pos
  | product hop hl hr ihl ihr =>
    obtain ⟨hls, -, hrs⟩ := List.forall_mem_append.mp hconverts |>.imp_right List.forall_mem_cons.mp
    exact .product hop (ihl hls) (ihr hrs) hr.length_pos
  | factor h ih => exact .factor (ih hconverts) h.length_pos
  | minus ht h ih => exact .minus ht (ih (List.forall_mem_cons.mp hconverts).2) h.length_pos
  | operand h ih =>
    -- an operand does not start with a minus sign
    obtain ⟨t, us, rfl, -, ht⟩ := h.exists_cons
    exact .operand (ht rfl) (ih hconverts)
  | integer ht => exact .integer ht (hconverts _ (.head _))
  | real ht => exact .real ht (hconverts _ (.head _))
  | name ht => exact .name ht
  | paren hleft h hright ih =>
    obtain ⟨-, hts⟩ := List.forall_mem_cons.mp hconverts
    exact .paren hleft (ih (List.forall_mem_append.mp hts).1) h.length_pos hright

/-- An expression is read, if what follows it does not go on with it. -/
theorem Derives.takes {ts : List Token} {e : Expr} (h : Derives .sum ts e)
    (hconverts : ∀ t ∈ ts, t.Converts) {limit : Nat} (hlimit : ts.length ≤ limit) {s : Stream}
    (hs : EndsBefore s.current.kind) : Takes (parse limit) ts e s :=
  (h.taken hconverts).sum_takes h.length_pos hlimit hs

end Expr

/-! ## Formats -/

namespace FormatNote

theorem takes_parseWidth {t : Token} (wanted : Wanted) (ht : t.kind = .integer)
    (hconverts : t.Converts) {s : Stream} : Takes (parseWidth wanted) [t] t.natural s :=
  Takes.expect_bind ht (Takes.integerValue ht hconverts)

theorem Derives.takes {ts : List Token} {note : FormatNote} (h : Derives ts note)
    (hconverts : ∀ t ∈ ts, t.Converts) {s : Stream} : Takes parse ts note s := by
  refine Takes.peek_bind ?_
  cases h with
  | preset ht =>
    rw [Stream.current_prepend_cons, ht]
    exact Takes.next_bind .pure
  | @explicit sign left integerBits comma fractionalBits right signed hsign hleft hinteger hcomma
      hfractional hright =>
    have hwidths : Takes (parseWidths signed sign.place)
        [left, integerBits, comma, fractionalBits, right]
        (.explicit (.bool signed) integerBits.natural fractionalBits.natural (some sign.place))
        s := by
      refine Takes.expect_bind hleft ?_
      refine Takes.bind (takes_parseWidth _ hinteger (hconverts _ (by simp))) ?_
      refine Takes.expect_bind hcomma ?_
      refine Takes.bind (takes_parseWidth _ hfractional (hconverts _ (by simp))) ?_
      exact Takes.expect_bind hright .pure
    rw [Stream.current_prepend_cons, hsign]
    cases signed <;> exact Takes.next_bind hwidths

end FormatNote

/-! ## Declarations -/

/-- A part that may be left out has left nothing out if its first word does not follow. -/
theorem OptionalPart.takes {α : Type} {kind : TokenKind} {G : List Token → α → Prop}
    {x : Parser α} {ts : List Token} {part : Option α} (h : OptionalPart kind G ts part)
    {s : Stream} (hs : s.current.kind ≠ kind)
    (hx : ∀ us a, us.length < ts.length → (∀ t ∈ us, t ∈ ts) → G us a → Takes x us a s) :
    Takes (do if ← Parser.accept kind then return some (← x) else return none) ts part s := by
  cases h with
  | absent => exact Takes.accept_bind_of_ne hs .pure
  | present ht h =>
    -- the part itself is shorter by its first word
    refine Takes.accept_bind_of_eq ht (Takes.returning (hx _ _ (Nat.lt_succ_self _) ?_ h))
    exact fun _ => List.mem_cons_of_mem _

/-- What stands behind line breaks starts with one of them or is seen at once. -/
theorem Breaks.current {ts : List Token} (h : Breaks ts) (s : Stream) :
    (s.prepend ts).current.kind = .newline ∨ (s.prepend ts).current = s.current := by
  rcases ts with _ | ⟨t, ts⟩
  · exact .inr rfl
  · exact .inl (h t (.head _))

namespace Decl

/-- Behind a sample there is a comma, or the end of the list. -/
theorem DerivesMore.current {ts : List Token} {es : List Expr} (h : DerivesMore ts es) {s : Stream}
    (hs : s.current.kind = .rightBracket) :
    (s.prepend ts).current.kind = .comma ∨ (s.prepend ts).current.kind = .rightBracket := by
  cases h with
  | done => exact .inr hs
  | comma ht => exact .inl ht
  | more ht => exact .inl ht

/-- Samples are read from the first one on, if those behind it are. -/
theorem takes_samples {before ts after us : List Token} {e : Expr} {es : List Expr}
    {more : Parser (List Expr)} (hbefore : Breaks before) (he : Expr.Derives .sum ts e)
    (hconverts : ∀ t ∈ ts, t.Converts) (hafter : Breaks after) (hus : DerivesMore us es)
    {limit : Nat} (hlimit : ts.length ≤ limit) {s : Stream} (hs : s.current.kind = .rightBracket)
    (hmore : Takes more us es s) :
    Takes (do
      Parser.skipNewlines
      if ← Parser.sees .rightBracket then return []
      let e ← Expr.parse limit
      Parser.skipNewlines
      return e :: (← more)) (before ++ (ts ++ (after ++ us))) (e :: es) s := by
  obtain ⟨t, ts', rfl, ht, -⟩ := he.exists_cons
  have hbehind := hus.current hs
  -- a sample ends at a line break, at a comma or at the bracket
  have hends : Expr.EndsBefore ((s.prepend us).prepend after).current.kind := by
    rcases hafter.current (s.prepend us) with h | h
    · rw [h]
      exact ⟨rfl, rfl⟩
    · rw [h]
      rcases hbehind with h | h <;> rw [h] <;> exact ⟨rfl, rfl⟩
  refine Takes.bind (.skipNewlines hbefore ?_) ?_
  · -- a sample starts neither with a line break nor, below, with the bracket
    intro hnewline
    rw [List.cons_append, Stream.current_prepend_cons] at hnewline
    simp [hnewline] at ht
  refine Takes.sees_bind_of_ne ?_ ?_
  · intro hbracket
    rw [List.cons_append, Stream.current_prepend_cons] at hbracket
    simp [hbracket] at ht
  refine Takes.bind (he.takes hconverts hlimit (Stream.prepend_append ▸ hends)) ?_
  refine Takes.bind (.skipNewlines hafter ?_) (Takes.returning hmore)
  rcases hbehind with h | h <;> rw [h] <;> exact nofun

theorem DerivesMore.takes {ts : List Token} {es : List Expr} (h : DerivesMore ts es)
    (hconverts : ∀ t ∈ ts, t.Converts) {depth limit : Nat} (hdepth : ts.length ≤ depth)
    (hlimit : ts.length ≤ limit) {s : Stream} (hs : s.current.kind = .rightBracket) :
    Takes (parseMoreSamples depth limit) ts es s := by
  induction h generalizing limit with
  | done =>
    cases limit with
    | zero => exact .pure
    | succ limit =>
      -- no comma follows, but the closing bracket
      exact Takes.accept_bind_of_ne (by rw [Stream.prepend_nil, hs]; exact nofun) .pure
  | @comma t before ht hbefore =>
    obtain ⟨limit, rfl⟩ := Nat.exists_eq_add_of_lt (Nat.lt_of_lt_of_le (Nat.succ_pos _) hlimit)
    rw [Nat.zero_add]
    refine Takes.accept_bind_of_eq ht ?_
    rw [← List.append_nil before]
    -- a last comma, with the closing bracket behind it
    refine Takes.bind (.skipNewlines hbefore (by rw [Stream.prepend_nil, hs]; exact nofun)) ?_
    exact Takes.sees_bind_of_eq hs .pure
  | @more t before ts after rest e es ht hbefore he hafter hrest ih =>
    simp only [List.length_cons, List.length_append, List.forall_mem_cons,
      List.forall_mem_append] at hdepth hlimit hconverts
    obtain ⟨limit, rfl⟩ : ∃ m, limit = m + 1 := ⟨limit - 1, by omega⟩
    refine Takes.accept_bind_of_eq ht ?_
    exact takes_samples hbefore he hconverts.2.2.1 hafter hrest (by omega) hs
      (ih hconverts.2.2.2.2 (by omega) (by omega))

theorem DerivesSamples.takes {ts : List Token} {es : List Expr} (h : DerivesSamples ts es)
    (hconverts : ∀ t ∈ ts, t.Converts) {limit : Nat} (hlimit : ts.length ≤ limit) {s : Stream}
    (hs : s.current.kind = .rightBracket) : Takes (parseSamples limit) ts es s := by
  cases h with
  | none hbefore =>
    rw [← List.append_nil ts]
    refine Takes.bind (.skipNewlines hbefore (by rw [Stream.prepend_nil, hs]; exact nofun)) ?_
    exact Takes.sees_bind_of_eq hs .pure
  | some hbefore he hafter hrest =>
    simp only [List.length_append, List.forall_mem_append] at hlimit hconverts
    exact takes_samples hbefore he hconverts.2.1 hafter hrest (by omega) hs
      (hrest.takes hconverts.2.2.2 (by omega) (by omega) hs)

theorem DerivesValue.takes {ts : List Token} {e : Expr} (h : DerivesValue ts e)
    (hconverts : ∀ t ∈ ts, t.Converts) {limit : Nat} (hlimit : ts.length ≤ limit) {s : Stream}
    (hs : Expr.EndsBefore s.current.kind) : Takes (parseValue limit) ts e s := by
  cases h with
  | @list left right ts es hleft h hright =>
    simp only [List.length_cons, List.length_append] at hlimit
    simp only [List.forall_mem_cons, List.forall_mem_append] at hconverts
    have hbracket : (s.prepend [right]).current.kind = .rightBracket := hright
    refine Takes.sees_bind_of_eq hleft (Takes.next_bind ?_)
    refine Takes.bind (h.takes hconverts.2.1 (by omega) hbracket) ?_
    exact Takes.expect_bind hright .pure
  | scalar he =>
    obtain ⟨t, us, rfl, ht, -⟩ := he.exists_cons
    refine Takes.sees_bind_of_ne ?_ (he.takes hconverts hlimit hs)
    intro hbracket
    rw [Stream.current_prepend_cons] at hbracket
    simp [hbracket] at ht

/-- What stands behind a declaration, if the declaration ends there. -/
def EndsBefore (kind : TokenKind) : Prop := Expr.EndsBefore kind ∧ kind ≠ .within

/-- A declaration is read, if what follows it does not go on with it. -/
theorem Derives.takes {ts : List Token} {d : Decl} (h : Derives ts d)
    (hconverts : ∀ t ∈ ts, t.Converts) {limit : Nat} (hlimit : ts.length ≤ limit) {s : Stream}
    (hs : EndsBefore s.current.kind) : Takes (parse limit) ts d s := by
  obtain @⟨first, name, equals, fs, vs, ts, format, value, tolerance, hfirst, hname, hformat,
    hequals, hvalue, htolerance⟩ := h
  simp only [List.length_cons, List.length_append] at hlimit
  simp only [List.forall_mem_cons, List.forall_mem_append] at hconverts
  obtain ⟨-, -, hfs, -, hvs, hts⟩ := hconverts
  refine Takes.expect_bind hfirst (Takes.expect_bind hname ?_)
  refine Takes.bind (hformat.takes ?_ fun us a _ hus h => h.takes fun t ht => hfs t (hus t ht)) ?_
  · rw [Stream.current_prepend_cons, hequals]
    exact nofun
  refine Takes.expect_bind hequals (Takes.bind (hvalue.takes hvs (by omega) ?_) ?_)
  · cases htolerance with
    | absent => exact hs.1
    | present ht =>
      rw [Stream.current_prepend_cons, ht]
      exact ⟨rfl, rfl⟩
  · refine Takes.returning (htolerance.takes hs.2 fun us a hlt hus h => ?_)
    exact h.takes (fun t ht => hts t (hus t ht)) (by omega) hs.1

end Decl

/-- A header is read, whatever follows it. -/
theorem Program.DerivesHeader.takes {ts : List Token} {name : String}
    (h : DerivesHeader ts (some name)) {s : Stream} : Takes parseHeader ts name s := by
  cases h with
  | present hfirst hname hcolon =>
    exact Takes.expect_bind hfirst (Takes.expect_bind hname (Takes.expect_bind hcolon .pure))

end BinaryPoint
