import BinaryPoint.Proofs.Program.Accepted

/-! # The names that a text declares

The words `const` and `program` stand at the start of declarations and headers and nowhere else
in a program. So what a program declares can be read off its tokens without parsing them: these
are the names behind the one word, and the name of the program stands behind the other.

* `followers`: the tokens behind those of a kind;
* `Inner`: tokens that start no declaration and no header, as all parts of a declaration behind
  its name are;
* `Program.Derives.names`: what follows the two words in a program.
-/

namespace BinaryPoint

/-- The tokens that follow those of a kind. -/
def followers (kind : TokenKind) : List Token → List Token
  | t :: u :: ts =>
    if t.kind = kind then u :: followers kind (u :: ts) else followers kind (u :: ts)
  | _ => []

section

variable {kind : TokenKind} {t u : Token} {ts us : List Token}

theorem followers_of_eq (ht : t.kind = kind) :
    followers kind (t :: u :: ts) = u :: followers kind (u :: ts) := by
  rw [followers, if_pos ht]

/-- Other tokens in front make no difference. -/
theorem followers_cons_of_ne (ht : t.kind ≠ kind) :
    followers kind (t :: ts) = followers kind ts := by
  cases ts with
  | nil => rfl
  | cons u ts => rw [followers, if_neg ht]

theorem followers_append (h : ∀ t ∈ ts, t.kind ≠ kind) :
    followers kind (ts ++ us) = followers kind us := by
  induction ts with
  | nil => rfl
  | cons t ts ih =>
    obtain ⟨ht, hts⟩ := List.forall_mem_cons.mp h
    rw [List.cons_append, followers_cons_of_ne ht, ih hts]

theorem followers_eq_nil (h : ∀ t ∈ ts, t.kind ≠ kind) : followers kind ts = [] := by
  have hnil : followers kind (ts ++ []) = [] := followers_append h
  rwa [List.append_nil] at hnil

end

/-- Tokens that start no declaration and no header. -/
def Inner (ts : List Token) : Prop := ∀ t ∈ ts, t.kind ≠ .const ∧ t.kind ≠ .program

namespace Inner

variable {t : Token} {ts us : List Token}

theorem nil : Inner [] := nofun

theorem append_iff : Inner (ts ++ us) ↔ Inner ts ∧ Inner us := List.forall_mem_append

theorem cons_iff : Inner (t :: ts) ↔ (t.kind ≠ .const ∧ t.kind ≠ .program) ∧ Inner ts :=
  List.forall_mem_cons

theorem of_kind {kind : TokenKind} (ht : t.kind = kind)
    (hkind : kind ≠ .const ∧ kind ≠ .program) (hts : Inner ts) : Inner (t :: ts) :=
  cons_iff.mpr ⟨ht ▸ hkind, hts⟩

theorem followers_const (h : Inner ts) : followers .const (ts ++ us) = followers .const us :=
  followers_append fun t ht => (h t ht).1

theorem followers_program (h : Inner ts) : followers .program (ts ++ us) = followers .program us :=
  followers_append fun t ht => (h t ht).2

end Inner

theorem Breaks.inner {ts : List Token} (h : Breaks ts) : Inner ts :=
  fun t ht => h t ht ▸ ⟨nofun, nofun⟩

/-! ## Parts of declarations -/

theorem Expr.Derives.inner {level : Expr.Level} {ts : List Token} {e : Expr}
    (h : Expr.Derives level ts e) : Inner ts := by
  induction h with
  | sum hop _ _ ihl ihr | product hop _ _ ihl ihr =>
    refine Inner.append_iff.mpr ⟨ihl, Inner.cons_iff.mpr ⟨?_, ihr⟩⟩
    constructor <;> intro ht <;> rw [ht] at hop <;> cases hop
  | term _ ih | factor _ ih | operand _ ih => exact ih
  | minus ht _ ih => exact .of_kind ht (by decide) ih
  | integer ht | real ht | name ht => exact .of_kind ht (by decide) .nil
  | paren hleft _ hright ih =>
    exact .of_kind hleft (by decide) (Inner.append_iff.mpr ⟨ih, .of_kind hright (by decide) .nil⟩)

theorem FormatNote.Derives.inner {ts : List Token} {note : FormatNote}
    (h : FormatNote.Derives ts note) : Inner ts := by
  cases h with
  | preset ht => exact .of_kind ht (by decide) .nil
  | @explicit _ _ _ _ _ _ signed hsign hleft hinteger hcomma hfractional hright =>
    have hfractional : Inner [_, _] :=
      .of_kind hfractional (by decide) (.of_kind hright (by decide) .nil)
    have hwidths : Inner (_ :: _ :: _ :: [_, _]) :=
      .of_kind hleft (by decide) (.of_kind hinteger (by decide)
        (.of_kind hcomma (by decide) hfractional))
    exact .of_kind hsign (by cases signed <;> decide) hwidths

theorem OptionalPart.inner {α : Type} {kind : TokenKind} {G : List Token → α → Prop}
    {ts : List Token} {part : Option α} (h : OptionalPart kind G ts part)
    (hkind : kind ≠ .const ∧ kind ≠ .program) (hG : ∀ us a, G us a → Inner us) : Inner ts := by
  cases h with
  | absent => exact .nil
  | present ht h => exact .of_kind ht hkind (hG _ _ h)

namespace Decl

theorem DerivesMore.inner {ts : List Token} {es : List Expr} (h : DerivesMore ts es) :
    Inner ts := by
  induction h with
  | done => exact .nil
  | comma ht hbefore => exact .of_kind ht (by decide) hbefore.inner
  | more ht hbefore he hafter _ ih =>
    exact .of_kind ht (by decide)
      (Inner.append_iff.mpr ⟨hbefore.inner, Inner.append_iff.mpr ⟨he.inner,
        Inner.append_iff.mpr ⟨hafter.inner, ih⟩⟩⟩)

theorem DerivesValue.inner {ts : List Token} {e : Expr} (h : DerivesValue ts e) : Inner ts := by
  cases h with
  | scalar h => exact h.inner
  | list hleft h hright =>
    refine .of_kind hleft (by decide) (Inner.append_iff.mpr ⟨?_, .of_kind hright (by decide) .nil⟩)
    cases h with
    | none hbefore => exact hbefore.inner
    | some hbefore he hafter hrest =>
      exact Inner.append_iff.mpr ⟨hbefore.inner, Inner.append_iff.mpr ⟨he.inner,
        Inner.append_iff.mpr ⟨hafter.inner, hrest.inner⟩⟩⟩

/-- A declaration starts with its word and its name, and the rest has no such word. -/
theorem Derives.exists_inner {ts : List Token} {d : Decl} (h : Derives ts d) :
    ∃ first name rest, ts = first :: name :: rest ∧ first.kind = .const ∧ name.kind = .name ∧
      name.lexeme = d.name ∧ Inner rest := by
  obtain ⟨hfirst, hname, hformat, hequals, hvalue, htolerance⟩ := h
  refine ⟨_, _, _, rfl, hfirst, hname, rfl, Inner.append_iff.mpr ⟨?_, ?_⟩⟩
  · exact hformat.inner (by decide) fun _ _ h => h.inner
  · refine .of_kind hequals (by decide) (Inner.append_iff.mpr ⟨hvalue.inner, ?_⟩)
    exact htolerance.inner (by decide) fun _ _ h => h.inner

theorem Derives.followers_const {ts : List Token} {d : Decl} (h : Derives ts d)
    (us : List Token) : ∃ t : Token, t.kind = .name ∧ t.lexeme = d.name ∧
      followers .const (ts ++ us) = t :: followers .const us := by
  obtain ⟨first, name, rest, rfl, hfirst, hname, hlexeme, hrest⟩ := h.exists_inner
  refine ⟨name, hname, hlexeme, ?_⟩
  rw [List.cons_append, List.cons_append, followers_of_eq hfirst,
    followers_cons_of_ne (hname ▸ nofun), hrest.followers_const]

theorem Derives.followers_program {ts us : List Token} {d : Decl} (h : Derives ts d) :
    followers .program (ts ++ us) = followers .program us := by
  obtain ⟨first, name, rest, rfl, hfirst, hname, -, hrest⟩ := h.exists_inner
  rw [List.cons_append, List.cons_append, followers_cons_of_ne (hfirst ▸ nofun),
    followers_cons_of_ne (hname ▸ nofun), hrest.followers_program]

end Decl

/-! ## Programs -/

namespace Program

/-- Names that are those of declarations, in their order. -/
def Names (ts : List Token) (ds : List Decl) : Prop :=
  (∀ t ∈ ts, t.kind = .name) ∧ ts.map Token.lexeme = ds.map Decl.name

theorem Names.cons {t : Token} {ts : List Token} {d : Decl} {ds : List Decl} (ht : t.kind = .name)
    (hd : t.lexeme = d.name) (h : Names ts ds) : Names (t :: ts) (d :: ds) :=
  ⟨List.forall_mem_cons.mpr ⟨ht, h.1⟩, by rw [List.map_cons, List.map_cons, hd, h.2]⟩

variable {ts us : List Token} {ds : List Decl}

theorem DerivesMore.names (h : DerivesMore ts ds) (hus : Inner us) :
    Names (followers .const (ts ++ us)) ds ∧
      followers .program (ts ++ us) = followers .program us := by
  induction h with
  | done =>
    rw [List.nil_append, followers_eq_nil fun t ht => (hus t ht).1]
    exact ⟨⟨nofun, rfl⟩, rfl⟩
  | @more before ts rest d ds hbefore _ hd _ ih =>
    obtain ⟨t, ht, hname, hfollowers⟩ := hd.followers_const (rest ++ us)
    rw [List.append_assoc, List.append_assoc, hbefore.inner.followers_const, hfollowers,
      hbefore.inner.followers_program, hd.followers_program]
    exact ⟨.cons ht hname ih.1, ih.2⟩

theorem DerivesDecls.names (h : DerivesDecls ts ds) (hus : Inner us) :
    Names (followers .const (ts ++ us)) ds ∧
      followers .program (ts ++ us) = followers .program us := by
  cases h with
  | none => exact DerivesMore.done.names hus
  | @some ts rest d ds hd hrest =>
    obtain ⟨t, ht, hname, hfollowers⟩ := hd.followers_const (rest ++ us)
    obtain ⟨hnames, hprogram⟩ := hrest.names hus
    rw [List.append_assoc, hfollowers, hd.followers_program]
    exact ⟨.cons ht hname hnames, hprogram⟩

/-- In a program, the names behind the one word are those of the declarations, and the name
behind the other one is that of the program. -/
theorem Derives.names {name : Option String} (h : Derives ts name ds) :
    Names (followers .const ts) ds ∧
      (followers .program ts).map Token.lexeme = name.toList := by
  obtain ⟨hbefore, hheader, hbetween, hdecls, hafter, hending⟩ := h
  have hend : Inner (_ ++ [_]) :=
    Inner.append_iff.mpr ⟨hafter.inner, .of_kind hending (by decide) .nil⟩
  obtain ⟨hnames, hprogram⟩ := hdecls.names hend
  -- only the header has the word for a program
  rw [followers_eq_nil fun t ht => (hend t ht).2] at hprogram
  rw [hbefore.inner.followers_const, hbefore.inner.followers_program]
  cases hheader with
  | absent =>
    rw [List.nil_append, hbetween.inner.followers_const, hbetween.inner.followers_program, hprogram]
    exact ⟨hnames, rfl⟩
  | @present first name colon hfirst hname hcolon =>
    have hrest : Inner [name, colon] :=
      .of_kind hname (by decide) (.of_kind hcolon (by decide) .nil)
    have hconst : ∀ us, followers .const ([first, name, colon] ++ us) = followers .const us :=
      fun us => by
        rw [List.cons_append, followers_cons_of_ne (hfirst ▸ nofun), hrest.followers_const]
    have hfollowers : ∀ us,
        followers .program ([first, name, colon] ++ us) = name :: followers .program us :=
      fun us => by
        rw [List.cons_append, List.cons_append, followers_of_eq hfirst]
        exact congrArg (name :: ·) hrest.followers_program
    rw [hconst, hfollowers, hbetween.inner.followers_const, hbetween.inner.followers_program,
      hprogram]
    exact ⟨hnames, rfl⟩

end Program

end BinaryPoint
