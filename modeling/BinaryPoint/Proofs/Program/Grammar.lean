import BinaryPoint.Program.Parser
import Mathlib.Tactic.Common

/-! # The grammar of programs

Which rows of tokens spell a program, and which program each of them spells. The rules ask
for the kinds of the tokens and for nothing else; the names, numbers and positions of a tree
are read off its tokens. In the notation of grammars, with `NL` for a line break:

    program ::= NL* [PROGRAM NAME COLON] NL* [decl (NL+ decl)*] NL* END
    decl    ::= CONST NAME [COLON format] EQUALS (list | sum) [WITHIN sum]
    format  ::= NAME | (SFIX | UFIX) LANGLE INT COMMA INT RANGLE
    list    ::= LBRACKET NL* [sum NL* (COMMA NL* sum NL*)* [COMMA NL*]] RBRACKET
    sum     ::= sum (PLUS | MINUS) product | product
    product ::= product (STAR | SLASH) signed | signed
    signed  ::= MINUS signed | operand
    operand ::= INT | REAL | NAME | LPAREN sum RPAREN

* `Expr.Derives`, `FormatNote.Derives`, `Decl.Derives`, `Program.Derives`: these rules, each
  with the tree that it gives.
-/

namespace BinaryPoint

namespace TokenKind

/-- The kinds of tokens that can be taken for what they are: neither the end of a text, which
is never taken, nor a number, which has to be read. -/
def Plain (kind : TokenKind) : Prop := kind ≠ .endOfText ∧ kind ≠ .integer ∧ kind ≠ .real

instance (kind : TokenKind) : Decidable kind.Plain := inferInstanceAs (Decidable (_ ∧ _ ∧ _))

/-- The operator that a token of a kind stands for. -/
def operator? : TokenKind → Option Operator
  | .plus => some .plus
  | .minus => some .minus
  | .star => some .times
  | .slash => some .divide
  | _ => none

variable {kind : TokenKind} {op : Operator}

theorem plain_of_operator? (h : kind.operator? = some op) : kind.Plain := by
  unfold operator? at h
  split at h
  · decide
  · decide
  · decide
  · decide
  · cases h

theorem sumOperator?_eq_some :
    Expr.sumOperator? kind = some op ↔
      kind.operator? = some op ∧ (op = .plus ∨ op = .minus) := by
  cases kind <;> simp [Expr.sumOperator?, operator?, eq_comm] <;> rintro rfl <;> simp

theorem productOperator?_eq_some :
    Expr.productOperator? kind = some op ↔
      kind.operator? = some op ∧ (op = .times ∨ op = .divide) := by
  cases kind <;> simp [Expr.productOperator?, operator?, eq_comm] <;> rintro rfl <;> simp

end TokenKind

namespace Token

/-- The number that an integer token denotes, 0 if it cannot be read. -/
def natural (t : Token) : Nat := (Decimal.readDigits t.lexeme.toList).toOption.getD 0

/-- The double that a real token denotes, 0 if it cannot be read. -/
def double (t : Token) : Binary64 := (Binary64.ofText? t.lexeme).getD (.zero false)

/-- A token that can be read if it is a number. -/
def Converts (t : Token) : Prop :=
  (t.kind = .integer → Decimal.readDigits t.lexeme.toList = .ok t.natural) ∧
    (t.kind = .real → Binary64.ofText? t.lexeme = some t.double)

instance (t : Token) : Decidable t.Converts := inferInstanceAs (Decidable ((_ → _) ∧ (_ → _)))

/-- A token that is no number has nothing to be read. -/
theorem converts_of_plain {t : Token} {kind : TokenKind} (hplain : kind.Plain)
    (ht : t.kind = kind) : t.Converts := by
  obtain ⟨-, hinteger, hreal⟩ := hplain
  subst ht
  exact ⟨fun h => absurd h hinteger, fun h => absurd h hreal⟩

end Token

/-- The whole row of tokens of a text, with the one that stands for its end. -/
def Lexed.row (l : Lexed) : List Token := l.tokens ++ [l.endToken]

/-- Tokens that are line breaks. -/
def Breaks (ts : List Token) : Prop := ∀ t ∈ ts, t.kind = .newline

/-! ## Expressions -/

/-- What an expression is made of, from sums down to single operands. -/
inductive Expr.Level
  | sum | product | signed | operand
deriving DecidableEq

/-- The tokens of an expression of a level. Operators group from the left. -/
inductive Expr.Derives : Level → List Token → Expr → Prop
  | sum {ls rs : List Token} {t : Token} {op : Operator} {l r : Expr}
      (hop : sumOperator? t.kind = some op) (hl : Derives .sum ls l)
      (hr : Derives .product rs r) :
      Derives .sum (ls ++ t :: rs) (.binary op l r (some t.place))
  | term {ts : List Token} {e : Expr} (h : Derives .product ts e) : Derives .sum ts e
  | product {ls rs : List Token} {t : Token} {op : Operator} {l r : Expr}
      (hop : productOperator? t.kind = some op) (hl : Derives .product ls l)
      (hr : Derives .signed rs r) :
      Derives .product (ls ++ t :: rs) (.binary op l r (some t.place))
  | factor {ts : List Token} {e : Expr} (h : Derives .signed ts e) : Derives .product ts e
  | minus {t : Token} {ts : List Token} {e : Expr} (hminus : t.kind = .minus)
      (h : Derives .signed ts e) : Derives .signed (t :: ts) (.unary "-" e (some t.place))
  | operand {ts : List Token} {e : Expr} (h : Derives .operand ts e) : Derives .signed ts e
  | integer {t : Token} (h : t.kind = .integer) :
      Derives .operand [t] (.integer t.natural (some t.place))
  | real {t : Token} (h : t.kind = .real) : Derives .operand [t] (.real t.double (some t.place))
  | name {t : Token} (h : t.kind = .name) : Derives .operand [t] (.name t.lexeme (some t.place))
  | paren {left right : Token} {ts : List Token} {e : Expr} (hleft : left.kind = .leftParen)
      (h : Derives .sum ts e) (hright : right.kind = .rightParen) :
      Derives .operand (left :: (ts ++ [right])) (.paren e (some left.place))

/-! ## Formats -/

/-- The tokens of a format. -/
inductive FormatNote.Derives : List Token → FormatNote → Prop
  | preset {t : Token} (h : t.kind = .name) : Derives [t] (.preset t.lexeme (some t.place))
  | explicit {sign left integerBits comma fractionalBits right : Token} {signed : Bool}
      (hsign : sign.kind = if signed then .sfix else .ufix) (hleft : left.kind = .leftAngle)
      (hinteger : integerBits.kind = .integer) (hcomma : comma.kind = .comma)
      (hfractional : fractionalBits.kind = .integer) (hright : right.kind = .rightAngle) :
      Derives [sign, left, integerBits, comma, fractionalBits, right]
        (.explicit (.bool signed) integerBits.natural fractionalBits.natural (some sign.place))

/-! ## Declarations -/

/-- A part that may be left out, behind a token of a kind that stands before it. -/
inductive OptionalPart {α : Type} (kind : TokenKind) (G : List Token → α → Prop) :
    List Token → Option α → Prop
  | absent : OptionalPart kind G [] none
  | present {t : Token} {ts : List Token} {a : α} (ht : t.kind = kind) (h : G ts a) :
      OptionalPart kind G (t :: ts) (some a)

namespace Decl

/-- The tokens of the samples after the first one. A comma may stand after the last. -/
inductive DerivesMore : List Token → List Expr → Prop
  | done : DerivesMore [] []
  | comma {t : Token} {before : List Token} (ht : t.kind = .comma) (hbefore : Breaks before) :
      DerivesMore (t :: before) []
  | more {t : Token} {before ts after rest : List Token} {e : Expr} {es : List Expr}
      (ht : t.kind = .comma) (hbefore : Breaks before) (h : Expr.Derives .sum ts e)
      (hafter : Breaks after) (hrest : DerivesMore rest es) :
      DerivesMore (t :: (before ++ (ts ++ (after ++ rest)))) (e :: es)

/-- The tokens of the samples between two brackets. -/
inductive DerivesSamples : List Token → List Expr → Prop
  | none {before : List Token} (hbefore : Breaks before) : DerivesSamples before []
  | some {before ts after rest : List Token} {e : Expr} {es : List Expr} (hbefore : Breaks before)
      (h : Expr.Derives .sum ts e) (hafter : Breaks after) (hrest : DerivesMore rest es) :
      DerivesSamples (before ++ (ts ++ (after ++ rest))) (e :: es)

/-- The tokens of a value. -/
inductive DerivesValue : List Token → Expr → Prop
  | list {left right : Token} {ts : List Token} {es : List Expr}
      (hleft : left.kind = .leftBracket) (h : DerivesSamples ts es)
      (hright : right.kind = .rightBracket) :
      DerivesValue (left :: (ts ++ [right])) (.list es (some left.place))
  | scalar {ts : List Token} {e : Expr} (h : Expr.Derives .sum ts e) : DerivesValue ts e

/-- The tokens of a declaration. -/
inductive Derives : List Token → Decl → Prop
  | intro {first name equals : Token} {fs vs ts : List Token} {format : Option FormatNote}
      {value : Expr} {tolerance : Option Expr} (hfirst : first.kind = .const)
      (hname : name.kind = .name) (hformat : OptionalPart .colon FormatNote.Derives fs format)
      (hequals : equals.kind = .equals) (hvalue : DerivesValue vs value)
      (htolerance : OptionalPart .within (Expr.Derives .sum) ts tolerance) :
      Derives (first :: name :: (fs ++ equals :: (vs ++ ts)))
        ⟨name.lexeme, value, format, tolerance, some first.place⟩

end Decl

/-! ## Programs -/

namespace Program

/-- The tokens of a header, which may be left out. -/
inductive DerivesHeader : List Token → Option String → Prop
  | absent : DerivesHeader [] none
  | present {first name colon : Token} (hfirst : first.kind = .program)
      (hname : name.kind = .name) (hcolon : colon.kind = .colon) :
      DerivesHeader [first, name, colon] (some name.lexeme)

/-- The tokens of the declarations after the first one, each on lines of its own. -/
inductive DerivesMore : List Token → List Decl → Prop
  | done : DerivesMore [] []
  | more {before ts rest : List Token} {d : Decl} {ds : List Decl} (hbefore : Breaks before)
      (hline : before ≠ []) (h : Decl.Derives ts d) (hrest : DerivesMore rest ds) :
      DerivesMore (before ++ (ts ++ rest)) (d :: ds)

/-- The tokens of the declarations. -/
inductive DerivesDecls : List Token → List Decl → Prop
  | none : DerivesDecls [] []
  | some {ts rest : List Token} {d : Decl} {ds : List Decl} (h : Decl.Derives ts d)
      (hrest : DerivesMore rest ds) : DerivesDecls (ts ++ rest) (d :: ds)

/-- The tokens of a program, with its name and its declarations. -/
inductive Derives : List Token → Option String → List Decl → Prop
  | intro {before header between ts after : List Token} {ending : Token} {name : Option String}
      {ds : List Decl} (hbefore : Breaks before) (hheader : DerivesHeader header name)
      (hbetween : Breaks between) (hdecls : DerivesDecls ts ds) (hafter : Breaks after)
      (hending : ending.kind = .endOfText) :
      Derives (before ++ (header ++ (between ++ (ts ++ (after ++ [ending]))))) name ds

end Program

end BinaryPoint
