import BinaryPoint.Proofs.Program.Totality

/-! # The notes in a program

A tree may hold notes that stand for no format, but a text does not: the parser makes notes of
a sign that is a truth value and of two natural widths, and notes that name a preset.

* `Parser.Returns`: what a parser returns, wherever it starts;
* `Program.written_of_parse`: the notes in a program that was parsed.
-/

namespace BinaryPoint

/-! ## What parsers return -/

/-- What a parser returns, if it returns. -/
def Parser.Returns {α : Type} (x : Parser α) (Q : α → Prop) : Prop :=
  ∀ s a s', x.run s = .ok a s' → Q a

namespace Parser.Returns

variable {α β : Type} {x : Parser α} {Q : α → Prop} {R : β → Prop}

theorem any : Returns x fun _ => True := fun _ _ _ _ => trivial

protected theorem pure {a : α} (h : Q a) : Returns (pure a) Q := by
  rintro s _ _ ⟨⟩
  exact h

protected theorem bind {f : α → Parser β} (hx : Returns x Q) (hf : ∀ a, Q a → Returns (f a) R) :
    Returns (x >>= f) R := by
  intro s b s' hrun
  rw [Parser.run_bind] at hrun
  rcases hfirst : x.run s with ⟨a, between⟩ | ⟨e, between⟩
  · rw [hfirst] at hrun
    exact hf a (hx s a between hfirst) between b s' hrun
  · rw [hfirst] at hrun
    cases hrun

/-- A step whose result does not matter. -/
theorem after {f : α → Parser β} (hf : ∀ a, Returns (f a) R) : Returns (x >>= f) R :=
  Returns.bind any fun a _ => hf a

theorem mismatch {wanted : Wanted} {found : Token} : Returns (Parser.mismatch wanted found) Q := by
  rintro s _ _ ⟨⟩

end Parser.Returns

/-! ## Notes -/

/-- A note that stands in a text. -/
inductive FormatNote.Written : FormatNote → Prop
  | explicit (signed : Bool) (integerBits fractionalBits : Nat) (place : Option Location) :
      Written (.explicit (.bool signed) integerBits fractionalBits place)
  | preset (name : String) (place : Option Location) : Written (.preset name place)

/-- A declaration whose note, if it has one, stands in a text. -/
def Decl.Written (d : Decl) : Prop := ∀ note, d.format = some note → note.Written

open BinaryPoint.Parser (Returns)

theorem FormatNote.returns_parseWidths (signed : Bool) (place : Location) :
    Returns (parseWidths signed place) Written := by
  refine Returns.after fun _ => ?_
  refine Returns.after fun integerBits => ?_
  refine Returns.after fun _ => ?_
  refine Returns.after fun fractionalBits => ?_
  refine Returns.after fun _ => ?_
  exact .pure (.explicit signed integerBits fractionalBits (some place))

theorem FormatNote.returns_parse : Returns parse Written := by
  refine Returns.after fun t => ?_
  split
  · exact Returns.after fun t => .pure (.preset t.lexeme (some t.place))
  · exact Returns.after fun t => returns_parseWidths true t.place
  · exact Returns.after fun t => returns_parseWidths false t.place
  · exact .mismatch

theorem Decl.returns_parseFormat? :
    Returns parseFormat? fun format => ∀ note, format = some note → note.Written := by
  refine Returns.after fun accepted => ?_
  split
  · refine Returns.bind FormatNote.returns_parse fun note hnote => .pure ?_
    rintro _ ⟨⟩
    exact hnote
  · exact .pure fun _ h => absurd h.symm (Option.some_ne_none _)

theorem Decl.returns_parse (limit : Nat) : Returns (parse limit) Written := by
  refine Returns.after fun first => ?_
  refine Returns.after fun name => ?_
  refine Returns.bind returns_parseFormat? fun format hformat => ?_
  refine Returns.after fun _ => ?_
  refine Returns.after fun value => ?_
  refine Returns.after fun tolerance => ?_
  exact .pure hformat

/-! ## Programs -/

namespace Program

theorem written_of_parseLines {limit : Nat} :
    ∀ (lines : Nat) (s : Stream) (o : Statements), parseLines limit lines s = .ok o →
      ∀ d ∈ o.decls, d.Written
  | 0, _, _, h => by
    cases h
    exact fun d hd => absurd hd List.not_mem_nil
  | lines + 1, s, o, h => by
    -- the rest of the lines is read from wherever this one ends
    have hrest : ∀ {s' : Stream} {f : Statements → Statements},
        (parseLines limit lines s').map f = .ok o → (∀ o', (f o').decls = o'.decls) →
        ∀ d ∈ o.decls, d.Written := by
      intro s' f hmap hf
      obtain ⟨o', ho', rfl⟩ := map_eq_ok.mp hmap
      rw [hf]
      exact written_of_parseLines lines s' o' ho'
    rw [parseLines] at h
    dsimp only at h
    split at h
    · cases h
      exact fun d hd => absurd hd List.not_mem_nil
    split at h
    · exact hrest h fun _ => rfl
    split at h
    · next d s' hrun =>
      -- one more declaration, with the mismatch behind it or without
      have hd : d.Written := Decl.returns_parse limit _ _ _ hrun
      split at h
      all_goals
        obtain ⟨o', ho', rfl⟩ := map_eq_ok.mp h
        exact List.forall_mem_cons.mpr ⟨hd, written_of_parseLines lines _ o' ho'⟩
    · exact hrest h fun _ => rfl
    · cases h

/-- All notes of a program that was parsed stand in its text. -/
theorem written_of_parse {source file : String} {p : Program} {found : List Diagnostic}
    (h : parse source file = .ok (p, found)) : ∀ d ∈ p.statements, d.Written := by
  obtain ⟨mismatches, hstream, -⟩ := parse_eq_ok.mp h
  rw [ofStream] at hstream
  obtain ⟨⟨name, mismatches, rest⟩, -, hstream⟩ := bind_eq_ok.mp hstream
  obtain ⟨lines, hlines, hprogram⟩ := bind_eq_ok.mp hstream
  cases hprogram
  exact written_of_parseLines _ rest lines hlines

end Program

end BinaryPoint
