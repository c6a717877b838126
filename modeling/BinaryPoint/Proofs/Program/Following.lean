import BinaryPoint.Proofs.Program.Descent
import BinaryPoint.Proofs.Program.InStep
import Mathlib.Order.Nat

/-! # Descents that follow a parser

A descent through the tokens of a text goes the same way as the parser that takes them from a
stream. Where the parser gives a value, so does the descent, and nothing is reported. Where the
parser fails, the descent raises a syntax error, which was reported once and at the same place
just before. In either case the descent has an outcome, and its position is that of the stream.

* `Readable`: the texts in question;
* `Follows`: descents that go the same way as a parser, with a rule for each way to put them
  together;
* `exists_skip`: loops that skip tokens.
-/

namespace BinaryPoint

/-- A row of tokens and the end of the text behind it. There is no other end, and the numbers can
be read. -/
structure Readable (row : List Token) (ending : Token) : Prop where
  ends : ending.kind = .endOfText
  single : ∀ t ∈ row, t.kind ≠ .endOfText
  converts : ∀ t ∈ row, t.kind = .real → (Binary64.ofText? t.lexeme).isSome

namespace Descent

variable {α β : Type} {row : List Token} {ending : Token} {i : ℕ} {s : State}

/-! ## Outcomes -/

namespace State

/-- The state at another position. -/
def moveTo (s : State) (position : ℕ) : State := { s with position := position }

@[simp] theorem position_moveTo (s : State) (i : ℕ) : (s.moveTo i).position = i := rfl

/-- The state in which a mismatch was reported as well. -/
def report (s : State) (m : Mismatch) : State :=
  { s with reported := s.reported ++ [m.diagnostic] }

@[simp] theorem position_report (s : State) (m : Mismatch) :
    (s.report m).position = s.position := rfl

end State

/-- What comes of a descent through the given tokens, and the state that it stops in. -/
def outcome (x : Descent α) (tokens : List Token) (s : State) :
    Option (Except Halt α × State) := (x.run tokens).run.run s

theorem outcome_bind (x : Descent α) (f : α → Descent β) (tokens : List Token) (s : State) :
    (x >>= f).outcome tokens s =
      (x.outcome tokens s).bind fun
        | (.ok a, s') => (f a).outcome tokens s'
        | (.error e, s') => some (.error e, s') := by
  show (x.outcome tokens s).bind _ = _
  congr 1
  funext ⟨r, s'⟩
  cases r <;> rfl

theorem outcome_tryCatch (x : Descent α) (handle : Halt → Descent α) (tokens : List Token)
    (s : State) :
    (tryCatch x handle).outcome tokens s =
      (x.outcome tokens s).bind fun
        | (.ok a, s') => some (.ok a, s')
        | (.error e, s') => (handle e).outcome tokens s' := by
  show (x.outcome tokens s).bind _ = _
  congr 1
  funext ⟨r, s'⟩
  cases r <;> rfl

/-! ## Tokens by position -/

/-- The stream of the tokens from a position on. -/
def streamFrom (row : List Token) (ending : Token) (i : ℕ) : Stream := ⟨row.drop i, ending⟩

/-- The token at a position. -/
def tokenAt (row : List Token) (ending : Token) (i : ℕ) : Token := (streamFrom row ending i).current

@[simp] theorem current_streamFrom (i : ℕ) :
    (streamFrom row ending i).current = tokenAt row ending i := rfl

theorem streamFrom_of_lt (hi : i < row.length) :
    streamFrom row ending i = ⟨row[i] :: row.drop (i + 1), ending⟩ := by
  rw [streamFrom, List.drop_eq_getElem_cons hi]

theorem tokenAt_of_lt (hi : i < row.length) : tokenAt row ending i = row[i] := by
  rw [tokenAt, streamFrom_of_lt hi]
  rfl

theorem streamFrom_length : streamFrom row ending row.length = ⟨[], ending⟩ := by
  rw [streamFrom, List.drop_length]

theorem tokenAt_length : tokenAt row ending row.length = ending := by
  rw [tokenAt, streamFrom_length]
  rfl

theorem advance_streamFrom : (streamFrom row ending i).advance = streamFrom row ending (i + 1) := by
  simp [Stream.advance, streamFrom, List.tail_drop]

/-- There is a token at every position up to that of the end. -/
theorem getElem?_tokens (hi : i ≤ row.length) :
    (row ++ [ending])[i]? = some (tokenAt row ending i) := by
  rcases hi.lt_or_eq with hlt | rfl
  · rw [List.getElem?_append_left hlt, tokenAt_of_lt hlt, List.getElem?_eq_getElem hlt]
  · rw [tokenAt_length, List.getElem?_concat_length]

/-- The end is at the end only. -/
theorem kind_tokenAt_iff (h : Readable row ending) (hi : i ≤ row.length) :
    (tokenAt row ending i).kind = .endOfText ↔ i = row.length := by
  rcases hi.lt_or_eq with hlt | rfl
  · rw [tokenAt_of_lt hlt]
    exact iff_of_false (h.single _ (List.getElem_mem hlt)) hlt.ne
  · rw [tokenAt_length]
    exact iff_of_true h.ends rfl

/-! ## Steps -/

section Steps

variable (hs : s.position ≤ row.length)

include hs

theorem outcome_peek : peek.outcome (row ++ [ending]) s =
    some (.ok (tokenAt row ending s.position), s) := by
  have hread (f : List Token → Descent Token) :
      (read >>= f).outcome (row ++ [ending]) s = (f (row ++ [ending])).outcome (row ++ [ending]) s :=
    rfl
  have hget (f : State → Descent Token) :
      (get >>= f).outcome (row ++ [ending]) s = (f s).outcome (row ++ [ending]) s := rfl
  rw [peek, hread, hget, getElem?_tokens hs]
  rfl

theorem outcome_peek_bind (f : Token → Descent α) :
    (peek >>= f).outcome (row ++ [ending]) s =
      (f (tokenAt row ending s.position)).outcome (row ++ [ending]) s := by
  rw [outcome_bind, outcome_peek hs, Option.bind_some]

theorem outcome_sees_bind (kind : TokenKind) (f : Bool → Descent α) :
    (sees kind >>= f).outcome (row ++ [ending]) s =
      (f ((tokenAt row ending s.position).kind = kind)).outcome (row ++ [ending]) s := by
  rw [sees, bind_assoc, outcome_peek_bind hs, pure_bind]

theorem outcome_atEnd_bind (f : Bool → Descent α) :
    (atEnd >>= f).outcome (row ++ [ending]) s =
      (f ((tokenAt row ending s.position).kind = .endOfText)).outcome (row ++ [ending]) s :=
  outcome_sees_bind hs .endOfText f

/-- Taking a token other than the end. -/
theorem outcome_advance_bind (hlt : (tokenAt row ending s.position).kind ≠ .endOfText)
    (f : Token → Descent α) :
    (advance >>= f).outcome (row ++ [ending]) s =
      (f (tokenAt row ending s.position)).outcome (row ++ [ending])
        (s.moveTo (s.position + 1)) := by
  rw [advance, bind_assoc, outcome_peek_bind hs, if_pos hlt]
  rfl

theorem outcome_accept_bind (kinds : List TokenKind) (f : Option Token → Descent α) :
    (accept kinds >>= f).outcome (row ++ [ending]) s =
      if (tokenAt row ending s.position).kind ∈ kinds then
        (advance >>= fun t => f (some t)).outcome (row ++ [ending]) s
      else (f none).outcome (row ++ [ending]) s := by
  induction kinds with
  | nil => rw [accept, pure_bind, if_neg List.not_mem_nil]
  | cons kind kinds ih =>
    rw [accept, bind_assoc, outcome_sees_bind hs]
    by_cases hkind : (tokenAt row ending s.position).kind = kind
    · simp [hkind]
    · simp [hkind, ih]

end Steps

/-! ## Following -/

/-- The outcomes of a descent and of a parser agree: both give the same value at the same token,
or both fail there. All that a descent has done to its state is to move on and, if it fails, to
report that. -/
inductive Agrees (row : List Token) (ending : Token) (s : State) :
    Option (Except Halt α × State) → EStateM.Result ParseFailure Stream α → Prop
  | ok (a : α) {j : ℕ} (hij : s.position ≤ j) (hj : j ≤ row.length) :
      Agrees row ending s (some (.ok a, s.moveTo j)) (.ok a (streamFrom row ending j))
  | mismatch (m : Mismatch) {j : ℕ} (hij : s.position ≤ j) (hj : j ≤ row.length) :
      Agrees row ending s
        (some (.error (.syntaxError m.wanted m.found.place), (s.moveTo j).report m))
        (.error (.mismatch m) (streamFrom row ending j))

/-- A descent follows a parser from a position on. -/
def Follows (row : List Token) (ending : Token) (i : ℕ) (x : Descent α) (p : Parser α) : Prop :=
  ∀ s : State, s.position = i →
    Agrees row ending s (x.outcome (row ++ [ending]) s) (p.run (streamFrom row ending i))

theorem Agrees.of_moveTo {j : ℕ} {r : Option (Except Halt α × State)}
    {q : EStateM.Result ParseFailure Stream α} (h : Agrees row ending (s.moveTo j) r q)
    (hij : s.position ≤ j) : Agrees row ending s r q := by
  cases h with
  | ok a hjk hk => exact .ok a (hij.trans hjk) hk
  | mismatch m hjk hk => exact .mismatch m (hij.trans hjk) hk

namespace Follows

variable {x x' : Descent α} {p p' : Parser α} {f : α → Descent β} {g : α → Parser β}

theorem left (h : Follows row ending i x' p)
    (hx : ∀ s : State, s.position = i →
      x.outcome (row ++ [ending]) s = x'.outcome (row ++ [ending]) s) :
    Follows row ending i x p := by
  intro s hs
  rw [hx s hs]
  exact h s hs

theorem right (h : Follows row ending i x p')
    (hp : p.run (streamFrom row ending i) = p'.run (streamFrom row ending i)) :
    Follows row ending i x p := by
  intro s hs
  rw [hp]
  exact h s hs

theorem peek_right {g : Token → Parser α} (h : Follows row ending i x (g (tokenAt row ending i))) :
    Follows row ending i x (Parser.peek >>= g) :=
  h.right (Parser.run_bind _ _ _)

theorem accept_right {kind : TokenKind} {g : Bool → Parser α}
    (hyes : (tokenAt row ending i).kind = kind →
      Follows row ending i x (Parser.next >>= fun _ => g true))
    (hno : (tokenAt row ending i).kind ≠ kind → Follows row ending i x (g false)) :
    Follows row ending i x (Parser.accept kind >>= g) := by
  by_cases hkind : (tokenAt row ending i).kind = kind
  · refine (hyes hkind).right ?_
    rw [Parser.run_bind, Parser.run_accept, current_streamFrom, if_pos hkind, Parser.run_bind,
      Parser.run_next]
  · refine (hno hkind).right ?_
    rw [Parser.run_bind, Parser.run_accept, current_streamFrom, if_neg hkind]

protected theorem pure (hi : i ≤ row.length) (a : α) :
    Follows row ending i (pure a) (pure a) := by
  rintro s rfl
  exact .ok a le_rfl hi

protected theorem bind (hx : Follows row ending i x p)
    (hf : ∀ a j, i ≤ j → j ≤ row.length → Follows row ending j (f a) (g a)) :
    Follows row ending i (x >>= f) (p >>= g) := by
  rintro s rfl
  rw [outcome_bind, Parser.run_bind]
  have hagrees := hx s rfl
  generalize x.outcome (row ++ [ending]) s = r, p.run (streamFrom row ending s.position) = q
    at hagrees
  cases hagrees with
  | ok a hij hj => exact (hf a _ hij hj (s.moveTo _) rfl).of_moveTo hij
  | mismatch m hij hj => exact .mismatch m hij hj

/-- What is wanted is reported and raised. -/
protected theorem mismatch (hi : i ≤ row.length) (wanted : Wanted) (t : Token) :
    Follows row ending i (report ⟨wanted, t⟩ >>= fun _ => (raise wanted t.place : Descent α))
      (Parser.mismatch wanted t) := by
  rintro s rfl
  exact .mismatch ⟨wanted, t⟩ le_rfl hi

/-! ### Looking at the current token -/

section Looking

variable (hi : i ≤ row.length)

include hi

theorem peek_left {f : Token → Descent α} (h : Follows row ending i (f (tokenAt row ending i)) p) :
    Follows row ending i (peek >>= f) p :=
  h.left fun s hs => by
    subst hs
    exact outcome_peek_bind hi f

theorem peek_bind {f : Token → Descent α} {g : Token → Parser α}
    (h : Follows row ending i (f (tokenAt row ending i)) (g (tokenAt row ending i))) :
    Follows row ending i (peek >>= f) (Parser.peek >>= g) :=
  peek_left hi h.peek_right

theorem sees_bind {kind : TokenKind} {f : Bool → Descent α} {g : Bool → Parser α}
    (hyes : (tokenAt row ending i).kind = kind → Follows row ending i (f true) (g true))
    (hno : (tokenAt row ending i).kind ≠ kind → Follows row ending i (f false) (g false)) :
    Follows row ending i (sees kind >>= f) (Parser.sees kind >>= g) := by
  have h : Follows row ending i (f (decide ((tokenAt row ending i).kind = kind)))
      (g (decide ((tokenAt row ending i).kind = kind))) := by
    by_cases hkind : (tokenAt row ending i).kind = kind
    · simpa [hkind] using hyes hkind
    · simpa [hkind] using hno hkind
  refine (h.left fun s hs => ?_).right (Parser.run_bind _ _ _)
  subst hs
  exact outcome_sees_bind hi kind f

theorem accept_left {kinds : List TokenKind} {f : Option Token → Descent α}
    (hyes : (tokenAt row ending i).kind ∈ kinds →
      Follows row ending i (advance >>= fun t => f (some t)) p)
    (hno : (tokenAt row ending i).kind ∉ kinds → Follows row ending i (f none) p) :
    Follows row ending i (accept kinds >>= f) p := by
  rintro s rfl
  rw [outcome_accept_bind hi]
  split
  · next hmem => exact hyes hmem s rfl
  · next hmem => exact hno hmem s rfl

/-! ### Taking the current token -/

variable (h : Readable row ending)

include h

theorem advance_bind {f : Token → Descent α} {g : Token → Parser α}
    (hkind : (tokenAt row ending i).kind ≠ .endOfText)
    (hnext : i < row.length →
      Follows row ending (i + 1) (f (tokenAt row ending i)) (g (tokenAt row ending i))) :
    Follows row ending i (advance >>= f) (Parser.next >>= g) := by
  have hlt := lt_of_le_of_ne hi (mt (kind_tokenAt_iff h hi).mpr hkind)
  rintro s rfl
  rw [outcome_advance_bind hi hkind, Parser.run_bind, Parser.run_next, advance_streamFrom]
  exact (hnext hlt (s.moveTo _) rfl).of_moveTo (Nat.le_succ _)

/-- Taking the current token if it is of a kind. -/
theorem accept_bind {kind : TokenKind} (hend : kind ≠ .endOfText)
    {f : Option Token → Descent α} {g : Bool → Parser α}
    (hyes : i < row.length → Follows row ending (i + 1) (f (some (tokenAt row ending i))) (g true))
    (hno : Follows row ending i (f none) (g false)) :
    Follows row ending i (accept [kind] >>= f) (Parser.accept kind >>= g) := by
  refine accept_left hi (fun hmem => accept_right (fun hkind => ?_) fun hne => ?_)
    fun hmem => accept_right (fun hkind => ?_) fun _ => hno
  · exact advance_bind hi h (hkind ▸ hend) hyes
  · exact absurd (List.mem_singleton.mp hmem) hne
  · exact absurd (List.mem_singleton.mpr hkind) hmem

/-- Taking the current token, whichever it is. -/
theorem next_bind {f : Token → Descent α} {g : Token → Parser α}
    (hnext : ∀ j, i ≤ j → j ≤ row.length →
      Follows row ending j (f (tokenAt row ending i)) (g (tokenAt row ending i))) :
    Follows row ending i (advance >>= f) (Parser.next >>= g) := by
  by_cases hkind : (tokenAt row ending i).kind = .endOfText
  · -- the end stays where it is
    obtain rfl := (kind_tokenAt_iff h hi).mp hkind
    have hstays : (streamFrom row ending row.length).advance = streamFrom row ending row.length := by
      rw [streamFrom_length]
      rfl
    refine ((hnext _ le_rfl le_rfl).left fun s hs => ?_).right ?_
    · rw [advance, bind_assoc, outcome_peek_bind hs.le, hs, if_neg (not_not.mpr hkind)]
      rfl
    · rw [Parser.run_bind, Parser.run_next, hstays]
      rfl
  · exact advance_bind hi h hkind fun hlt => hnext _ (Nat.le_succ i) hlt

protected theorem expect (kind : TokenKind) (wanted : Wanted) :
    Follows row ending i (expect kind wanted) (Parser.expect kind wanted) := by
  rw [Descent.expect, Parser.expect]
  refine peek_bind hi ?_
  split
  · rw [← bind_pure advance, ← bind_pure Parser.next]
    exact next_bind hi h fun j _ hj => .pure hj _
  · exact .mismatch hi wanted _

end Looking

/-- A number is read, or reported to be too long. -/
protected theorem integerValue (hi : i ≤ row.length) (t : Token) :
    Follows row ending i (integerValue t) (Parser.integerValue t) := by
  rw [Descent.integerValue, Parser.integerValue]
  cases Decimal.readDigits t.lexeme.toList with
  | ok n => exact .pure hi n
  | error e => exact .mismatch hi .shortInteger t

end Follows

/-! ## Skipping tokens -/

theorem dropWhile_of_lt (test : Token → Bool) (hi : i < row.length) :
    (row.drop i).dropWhile test =
      if test (tokenAt row ending i) then (row.drop (i + 1)).dropWhile test else row.drop i := by
  rw [List.drop_eq_getElem_cons hi, List.dropWhile_cons, tokenAt_of_lt hi]

/-- A loop that skips all tokens of a sort ends at the first other one, at the latest at the end. -/
theorem exists_skip (row : List Token) (ending : Token) (test : Token → Bool)
    (loop : ℕ → Descent Unit)
    (hstep : ∀ depth (s : State), s.position < row.length →
      test (tokenAt row ending s.position) →
      (loop (depth + 1)).outcome (row ++ [ending]) s =
        (loop depth).outcome (row ++ [ending]) (s.moveTo (s.position + 1)))
    (hstop : ∀ depth (s : State), s.position ≤ row.length →
      (s.position < row.length → ¬ test (tokenAt row ending s.position)) →
      (loop (depth + 1)).outcome (row ++ [ending]) s = some (.ok (), s)) {depth : ℕ} :
    ∀ s : State, s.position ≤ row.length → row.length - s.position < depth →
      ∃ j, s.position ≤ j ∧ j ≤ row.length ∧
        (loop depth).outcome (row ++ [ending]) s = some (.ok (), s.moveTo j) ∧
        (row.drop s.position).dropWhile test = row.drop j ∧
        (j < row.length → ¬ test (tokenAt row ending j)) := by
  induction depth with
  | zero => omega
  | succ depth ih =>
    intro s hs hdepth
    by_cases hskip : s.position < row.length ∧ test (tokenAt row ending s.position)
    · -- one more token of the sort is skipped
      obtain ⟨hlt, htest⟩ := hskip
      obtain ⟨j, hij, hj, hrun, hdrop, hnext⟩ :=
        ih (s.moveTo (s.position + 1)) hlt (by rw [State.position_moveTo]; omega)
      refine ⟨j, Nat.le_of_succ_le hij, hj, (hstep depth s hlt htest).trans hrun, ?_, hnext⟩
      rw [← hdrop, dropWhile_of_lt test hlt, if_pos htest]
      rfl
    · -- the loop stops here
      rw [not_and] at hskip
      refine ⟨s.position, le_rfl, hs, hstop depth s hs hskip, ?_, hskip⟩
      rcases hs.lt_or_eq with hlt | heq
      · rw [dropWhile_of_lt test hlt, if_neg (hskip hlt)]
      · rw [heq, List.drop_length, List.dropWhile_nil]

/-- Line breaks are skipped up to another token or the end. -/
theorem exists_skipNewlines (h : Readable row ending) {depth : ℕ} (hs : s.position ≤ row.length)
    (hdepth : row.length - s.position < depth) :
    ∃ j, s.position ≤ j ∧ j ≤ row.length ∧
      (skipNewlines depth).outcome (row ++ [ending]) s = some (.ok (), s.moveTo j) ∧
      (streamFrom row ending s.position).skipNewlines = streamFrom row ending j ∧
      (tokenAt row ending j).kind ≠ .newline := by
  have hother : ∀ i ≤ row.length,
      (i < row.length → ¬ decide ((tokenAt row ending i).kind = .newline)) →
        (tokenAt row ending i).kind ≠ .newline := by
    intro i hi hno
    rcases hi.lt_or_eq with hlt | rfl
    · simpa using hno hlt
    · rw [tokenAt_length, h.ends]
      decide
  have hskip := exists_skip row ending (·.kind = .newline) skipNewlines ?step ?stop s hs hdepth
  case step =>
    intro depth s hlt hbreak
    have hend := mt (kind_tokenAt_iff h hlt.le).mp hlt.ne
    rw [skipNewlines, outcome_sees_bind hlt.le, if_pos hbreak, outcome_advance_bind hlt.le hend]
  case stop =>
    intro depth s hs hno
    rw [skipNewlines, outcome_sees_bind hs, if_neg (by simpa using hother s.position hs hno)]
    rfl
  obtain ⟨j, hij, hj, hrun, hdrop, hnext⟩ := hskip
  exact ⟨j, hij, hj, hrun, congrArg (Stream.mk · ending) hdrop, hother j hj hnext⟩

/-- The rest of a line is skipped up to the line break or the end. -/
theorem exists_skipToNewline (h : Readable row ending) {depth : ℕ} (hs : s.position ≤ row.length)
    (hdepth : row.length - s.position < depth) :
    ∃ j, s.position ≤ j ∧ j ≤ row.length ∧
      (skipToNewline depth).outcome (row ++ [ending]) s = some (.ok (), s.moveTo j) ∧
      (streamFrom row ending s.position).skipLine = streamFrom row ending j := by
  have hskip := exists_skip row ending (·.kind ≠ .newline) skipToNewline ?step ?stop s hs hdepth
  case step =>
    intro depth s hlt hmore
    have hend := mt (kind_tokenAt_iff h hlt.le).mp hlt.ne
    rw [skipToNewline, outcome_atEnd_bind hlt.le, if_neg (by simpa using hend),
      outcome_sees_bind hlt.le, if_neg (by simpa using hmore), outcome_advance_bind hlt.le hend]
  case stop =>
    intro depth s hs hno
    rw [skipToNewline, outcome_atEnd_bind hs]
    rcases hs.lt_or_eq with hlt | heq
    · have hend := mt (kind_tokenAt_iff h hs).mp hlt.ne
      rw [if_neg (by simpa using hend), outcome_sees_bind hs, if_pos (by simpa using hno hlt)]
      rfl
    · -- at the end it stops before it looks for a line break
      rw [if_pos (by simpa using (kind_tokenAt_iff h hs).mpr heq)]
      rfl
  obtain ⟨j, hij, hj, hrun, hdrop, -⟩ := hskip
  exact ⟨j, hij, hj, hrun, congrArg (Stream.mk · ending) hdrop⟩

namespace Follows

protected theorem skipNewlines (h : Readable row ending) {depth : ℕ} (hi : i ≤ row.length)
    (hdepth : row.length - i < depth) :
    Follows row ending i (skipNewlines depth) Parser.skipNewlines := by
  rintro s rfl
  obtain ⟨j, hij, hj, hrun, hstream, -⟩ := exists_skipNewlines h hi hdepth
  rw [hrun, Parser.run_skipNewlines, hstream]
  exact .ok () hij hj

end Follows

end Descent

end BinaryPoint
