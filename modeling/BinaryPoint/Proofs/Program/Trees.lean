import BinaryPoint.Proofs.Graph.Places
import BinaryPoint.Proofs.Program.Spelled

/-! # Trees and the tokens that spell them

The shape of a tree says which operators may stand below which; the tokens that spell it are
read off from left to right and say nothing of shape. The parser turns tokens back into the one
tree of the right shape that they spell.

* `Expr.Shaped`: the shape of sums, products, signed expressions and operands;
* `Expr.Spells`: the tokens of a tree of any shape;
* `Expr.Derives.shaped`, `Expr.Derives.spells`, `Expr.Shaped.exists_derives`: the grammar
  derives the trees that have the shape, from the tokens that spell them;
* `Expr.parse_inverts_spelling`: the parser is the inverse of spelling.
-/

namespace BinaryPoint

open TokenKind (sumOperator?_eq_some productOperator?_eq_some)

namespace Expr

/-- The trees of each level. What is on the right of an operator binds more tightly. -/
inductive Shaped : Level → Expr → Prop
  | sum {op : Operator} {l r : Expr} {place : Option Location} (hop : op = .plus ∨ op = .minus)
      (hl : Shaped .sum l) (hr : Shaped .product r) : Shaped .sum (.binary op l r place)
  | term {e : Expr} (h : Shaped .product e) : Shaped .sum e
  | product {op : Operator} {l r : Expr} {place : Option Location}
      (hop : op = .times ∨ op = .divide) (hl : Shaped .product l) (hr : Shaped .signed r) :
      Shaped .product (.binary op l r place)
  | factor {e : Expr} (h : Shaped .signed e) : Shaped .product e
  | minus {e : Expr} {place : Option Location} (h : Shaped .signed e) :
      Shaped .signed (.unary "-" e place)
  | operand {e : Expr} (h : Shaped .operand e) : Shaped .signed e
  | integer {n : Int} {place : Option Location} : Shaped .operand (.integer n place)
  | real {x : Binary64} {place : Option Location} : Shaped .operand (.real x place)
  | name {n : String} {place : Option Location} : Shaped .operand (.name n place)
  | paren {e : Expr} {place : Option Location} (h : Shaped .sum e) :
      Shaped .operand (.paren e place)

/-- The tokens of a tree, from left to right. A number is spelled by each literal that is
converted to it. -/
inductive Spells : List Token → Expr → Prop
  | integer {t : Token} {n : Nat} {place : Option Location} (ht : t.kind = .integer)
      (hvalue : Decimal.readDigits t.lexeme.toList = .ok n) : Spells [t] (.integer n place)
  | real {t : Token} {x : Binary64} {place : Option Location} (ht : t.kind = .real)
      (hvalue : Binary64.ofText? t.lexeme = some x) : Spells [t] (.real x place)
  | name {t : Token} {place : Option Location} (ht : t.kind = .name) :
      Spells [t] (.name t.lexeme place)
  | binary {ls rs : List Token} {t : Token} {op : Operator} {l r : Expr} {place : Option Location}
      (hop : t.kind.operator? = some op) (hl : Spells ls l) (hr : Spells rs r) :
      Spells (ls ++ t :: rs) (.binary op l r place)
  | unary {t : Token} {ts : List Token} {e : Expr} {place : Option Location}
      (ht : t.kind = .minus) (h : Spells ts e) : Spells (t :: ts) (.unary "-" e place)
  | paren {left right : Token} {ts : List Token} {e : Expr} {place : Option Location}
      (hleft : left.kind = .leftParen) (h : Spells ts e) (hright : right.kind = .rightParen) :
      Spells (left :: (ts ++ [right])) (.paren e place)

variable {level : Level} {ts : List Token} {e : Expr}

/-! ## The grammar derives the trees of the right shape -/

theorem Derives.shaped (h : Derives level ts e) : Shaped level e := by
  induction h with
  | sum hop _ _ ihl ihr => exact .sum (sumOperator?_eq_some.mp hop).2 ihl ihr
  | term _ ih => exact .term ih
  | product hop _ _ ihl ihr => exact .product (productOperator?_eq_some.mp hop).2 ihl ihr
  | factor _ ih => exact .factor ih
  | minus _ _ ih => exact .minus ih
  | operand _ ih => exact .operand ih
  | integer => exact .integer
  | real => exact .real
  | name => exact .name
  | paren _ _ _ ih => exact .paren ih

theorem Derives.spells (h : Derives level ts e) (hconverts : ∀ t ∈ ts, t.Converts) :
    Spells ts e := by
  induction h with
  | sum hop _ _ ihl ihr =>
    obtain ⟨hls, hrs⟩ := List.forall_mem_append.mp hconverts
    exact .binary (sumOperator?_eq_some.mp hop).1 (ihl hls) (ihr (List.forall_mem_cons.mp hrs).2)
  | product hop _ _ ihl ihr =>
    obtain ⟨hls, hrs⟩ := List.forall_mem_append.mp hconverts
    exact .binary (productOperator?_eq_some.mp hop).1 (ihl hls)
      (ihr (List.forall_mem_cons.mp hrs).2)
  -- the levels leave no mark on a tree
  | term _ ih | factor _ ih | operand _ ih => exact ih hconverts
  | minus ht _ ih => exact .unary ht (ih (List.forall_mem_cons.mp hconverts).2)
  | integer ht => exact .integer ht ((hconverts _ (.head _)).1 ht)
  | real ht => exact .real ht ((hconverts _ (.head _)).2 ht)
  | name ht => exact .name ht
  | paren hleft _ hright ih =>
    obtain ⟨-, hts⟩ := List.forall_mem_cons.mp hconverts
    exact .paren hleft (ih (List.forall_mem_append.mp hts).1) hright

/-- Whatever spells a tree can be read. -/
theorem Spells.converts (h : Spells ts e) : ∀ t ∈ ts, t.Converts := by
  induction h with
  | @integer t n place ht hvalue =>
    refine List.forall_mem_singleton.mpr ⟨fun _ => ?_, fun hreal => ?_⟩
    · rw [Token.natural, hvalue]
      rfl
    · -- an integer literal is not a real one, nor the other way round
      cases ht.symm.trans hreal
  | @real t x place ht hvalue =>
    refine List.forall_mem_singleton.mpr ⟨fun hinteger => ?_, fun _ => ?_⟩
    · cases ht.symm.trans hinteger
    · rw [Token.double, hvalue]
      rfl
  | name ht =>
    exact List.forall_mem_singleton.mpr (Token.converts_of_plain (by decide) ht)
  | binary hop _ _ ihl ihr =>
    refine List.forall_mem_append.mpr ⟨ihl, List.forall_mem_cons.mpr ⟨?_, ihr⟩⟩
    exact Token.converts_of_plain (TokenKind.plain_of_operator? hop) rfl
  | unary ht _ ih =>
    exact List.forall_mem_cons.mpr ⟨Token.converts_of_plain (by decide) ht, ih⟩
  | paren hleft _ hright ih =>
    refine List.forall_mem_cons.mpr ⟨Token.converts_of_plain (by decide) hleft, ?_⟩
    refine List.forall_mem_append.mpr ⟨ih, List.forall_mem_singleton.mpr ?_⟩
    exact Token.converts_of_plain (by decide) hright

/-- A tree of the right shape is derived from the tokens that spell it, with their positions. -/
theorem Shaped.exists_derives (h : Shaped level e) (hts : Spells ts e) :
    ∃ e', e'.SameText e ∧ Derives level ts e' := by
  -- the shape has the level of each subtree, the spelling its tokens
  induction h generalizing ts with
  | sum hop _ _ ihl ihr =>
    cases hts with
    | binary hkind hls hrs =>
      obtain ⟨l, hl, hlderives⟩ := ihl hls
      obtain ⟨r, hr, hrderives⟩ := ihr hrs
      refine ⟨_, ?_, .sum (sumOperator?_eq_some.mpr ⟨hkind, hop⟩) hlderives hrderives⟩
      rw [SameText, unplaced, unplaced, hl, hr]
  | product hop _ _ ihl ihr =>
    cases hts with
    | binary hkind hls hrs =>
      obtain ⟨l, hl, hlderives⟩ := ihl hls
      obtain ⟨r, hr, hrderives⟩ := ihr hrs
      refine ⟨_, ?_, .product (productOperator?_eq_some.mpr ⟨hkind, hop⟩) hlderives hrderives⟩
      rw [SameText, unplaced, unplaced, hl, hr]
  | term _ ih =>
    obtain ⟨e', he, hderives⟩ := ih hts
    exact ⟨e', he, .term hderives⟩
  | factor _ ih =>
    obtain ⟨e', he, hderives⟩ := ih hts
    exact ⟨e', he, .factor hderives⟩
  | operand _ ih =>
    obtain ⟨e', he, hderives⟩ := ih hts
    exact ⟨e', he, .operand hderives⟩
  | minus _ ih =>
    cases hts with
    | unary ht hts =>
      obtain ⟨e', he, hderives⟩ := ih hts
      refine ⟨_, ?_, .minus ht hderives⟩
      rw [SameText, unplaced, unplaced, he]
  | paren _ ih =>
    cases hts with
    | paren hleft hts hright =>
      obtain ⟨e', he, hderives⟩ := ih hts
      refine ⟨_, ?_, .paren hleft hderives hright⟩
      rw [SameText, unplaced, unplaced, he]
  | integer =>
    cases hts with
    | @integer t n _ ht hvalue =>
      refine ⟨_, ?_, .integer ht⟩
      rw [Token.natural, hvalue]
      rfl
  | real =>
    cases hts with
    | @real t x _ ht hvalue =>
      refine ⟨_, ?_, .real ht⟩
      rw [Token.double, hvalue]
      rfl
  | name =>
    cases hts with
    | name ht =>
      refine ⟨_, ?_, .name ht⟩
      rfl

/-! ## The parser -/

/-- A tree of the right shape is read from the tokens that spell it, up to where they end. -/
theorem Shaped.run_parse (h : Shaped .sum e) (hts : Spells ts e) {limit : Nat}
    (hlimit : ts.length ≤ limit) {s : Stream}
    (hs : s.current.kind ∉ [.plus, .minus, .star, .slash]) :
    ∃ e', (parse limit).run (s.prepend ts) = .ok e' s ∧ e'.SameText e := by
  obtain ⟨e', he, hderives⟩ := h.exists_derives hts
  have hends : EndsBefore s.current.kind := by
    revert hs
    cases s.current.kind <;> simp [EndsBefore, sumOperator?, productOperator?]
  exact ⟨e', hderives.takes hts.converts hlimit hends, he⟩

/-- **Parsing undoes spelling.** The tokens of a sum, with anything behind them that does not
go on with it, are read as that sum, and nothing behind them is taken. Whatever the parser
returns is a sum, spelled by the tokens that it has taken. So no two sums are spelled alike. -/
theorem parse_inverts_spelling (limit : Nat) :
    (∀ (e : Expr) (ts : List Token) (s : Stream), Shaped .sum e → Spells ts e →
      s.current.kind ∉ [.plus, .minus, .star, .slash] → ts.length ≤ limit →
      ∃ e', (parse limit).run (s.prepend ts) = .ok e' s ∧ e'.SameText e) ∧
    (∀ (e : Expr) (s s' : Stream), s.ending.kind = .endOfText → (parse limit).run s = .ok e s' →
      ∃ ts, s = s'.prepend ts ∧ Shaped .sum e ∧ Spells ts e) ∧
    ∀ (ts : List Token) (e e' : Expr), Shaped .sum e → Spells ts e → Shaped .sum e' →
      Spells ts e' → e.SameText e' := by
  refine ⟨fun e ts s h hts hs hlimit => h.run_parse hts hlimit hs, ?_, ?_⟩
  · intro e s s' hend hrun
    obtain ⟨ts, hs, hconverts, hderives⟩ := (reads_parse limit s trivial hend).1 e s' hrun
    exact ⟨ts, hs, hderives.shaped, hderives.spells hconverts⟩
  · intro ts e e' h hts h' hts'
    -- both are what is read in front of the end of a text
    have hend : (Stream.mk [] ⟨.endOfText, "", ⟨"", 1, 1⟩⟩).current.kind ∉
        [.plus, .minus, .star, .slash] := by decide
    obtain ⟨_, hrun, he⟩ := h.run_parse hts (Nat.le_refl _) hend
    obtain ⟨_, hrun', he'⟩ := h'.run_parse hts' (Nat.le_refl _) hend
    rw [hrun] at hrun'
    cases hrun'
    exact he.symm.trans he'

/-- `1 - 2 - A` is read as a difference on the left, up to the end of the line. -/
theorem parse_inverts_spelling_minus :
    let place : Location := ⟨"p", 1, 1⟩
    let one : Token := ⟨.integer, "1", place⟩
    let two : Token := ⟨.integer, "2", place⟩
    let name : Token := ⟨.name, "A", place⟩
    let minus : Token := ⟨.minus, "-", place⟩
    let left : Expr := .binary .minus (.integer 1 none) (.integer 2 none) none
    let e : Expr := .binary .minus left (.name "A" none) none
    let rest : Stream := ⟨[⟨.newline, "\n", place⟩], ⟨.endOfText, "", place⟩⟩
    Shaped .sum e ∧ Spells [one, minus, two, minus, name] e ∧
      ∃ e', (parse 5).run (rest.prepend [one, minus, two, minus, name]) = .ok e' rest ∧
        e'.SameText e ∧ ∃ ts, rest.prepend [one, minus, two, minus, name] = rest.prepend ts ∧
          Shaped .sum e' ∧ Spells ts e' := by
  intro place one two name minus left e rest
  have hshape : Shaped .sum e := by
    refine .sum (.inr rfl) (.sum (.inr rfl) ?_ ?_) (.factor (.operand .name))
    · exact .term (.factor (.operand .integer))
    · exact .factor (.operand .integer)
  have hspells : Spells [one, minus, two, minus, name] e := by
    have hone : Spells [one] (.integer (1 : Nat) none) := .integer rfl (by decide +kernel)
    have htwo : Spells [two] (.integer (2 : Nat) none) := .integer rfl (by decide +kernel)
    have hleft : Spells ([one] ++ minus :: [two]) left := .binary rfl hone htwo
    have hright : Spells [name] (.name "A" none) := .name rfl
    exact Spells.binary rfl hleft hright
  have hbehind : rest.current.kind ∉ [.plus, .minus, .star, .slash] := by decide
  obtain ⟨hinverts, hconverse, -⟩ := parse_inverts_spelling 5
  obtain ⟨e', hrun, he⟩ := hinverts e _ rest hshape hspells hbehind (by decide)
  exact ⟨hshape, hspells, e', hrun, he, hconverse e' _ rest rfl hrun⟩

end Expr

end BinaryPoint
