import BinaryPoint.Program.Parser

/-! # Programs in another place

A text that stands further down in a file has the same tokens at other positions, and
the program that is read from it has other positions as well. `moved` applies a
function to all positions of a token, a stream or a part of a program.
-/

namespace BinaryPoint

/-- What a token is and how it is written, wherever it stands. -/
def Token.spelling (t : Token) : TokenKind × String := (t.kind, t.lexeme)

variable (move : Location → Location)

/-- The position so many lines further down. -/
def Location.below (lines : Nat) (p : Location) : Location := { p with line := p.line + lines }

/-- A token at another position. -/
def Token.moved (t : Token) : Token := { t with place := move t.place }

/-- A stream whose tokens are at other positions. -/
def Stream.moved (s : Stream) : Stream :=
  ⟨s.pending.map (Token.moved move), s.ending.moved move⟩

namespace Expr

mutual
/-- An expression whose parts are at other positions. -/
def moved : Expr → Expr
  | integer n p => integer n (p.map move)
  | real x p => real x (p.map move)
  | name n p => name n (p.map move)
  | binary op left right p => binary op (moved left) (moved right) (p.map move)
  | unary symbol operand p => unary symbol (moved operand) (p.map move)
  | paren inner p => paren (moved inner) (p.map move)
  | list elements p => list (movedAll elements) (p.map move)
  | foreign kind p => foreign kind (p.map move)

/-- A row of expressions whose parts are at other positions. -/
def movedAll : List Expr → List Expr
  | [] => []
  | e :: es => moved e :: movedAll es
end

mutual
/-- Positions that stay leave an expression as it is. -/
theorem moved_id : (e : Expr) → e.moved id = e
  | integer _ _ | real _ _ | name _ _ | foreign _ _ => by rw [moved, Option.map_id_apply]
  | binary _ left right _ => by
    rw [moved, moved_id left, moved_id right, Option.map_id_apply]
  | unary _ operand _ => by rw [moved, moved_id operand, Option.map_id_apply]
  | paren inner _ => by rw [moved, moved_id inner, Option.map_id_apply]
  | list elements _ => by rw [moved, movedAll_id elements, Option.map_id_apply]

theorem movedAll_id : (es : List Expr) → movedAll id es = es
  | [] => rfl
  | e :: es => by rw [movedAll, moved_id e, movedAll_id es]
end

end Expr

/-- A note at another position. -/
def FormatNote.moved : FormatNote → FormatNote
  | explicit signed integerBits fractionalBits p =>
    explicit signed integerBits fractionalBits (p.map move)
  | preset name p => preset name (p.map move)
  | misplaced kind => misplaced kind

/-- A declaration whose parts are at other positions. -/
def Decl.moved (d : Decl) : Decl :=
  ⟨d.name, d.value.moved move, d.format.map (FormatNote.moved move),
    d.tolerance.map (Expr.moved move), d.place.map move⟩

/-- Positions that stay leave a declaration as it is. -/
theorem Decl.moved_id (d : Decl) : d.moved id = d := by
  have hexpr : Expr.moved id = id := funext Expr.moved_id
  have hnote : FormatNote.moved id = id := by
    funext note
    cases note <;> rw [FormatNote.moved] <;> simp
  rw [moved, Expr.moved_id, hexpr, hnote, Option.map_id_apply, Option.map_id_apply,
    Option.map_id_apply]

end BinaryPoint
