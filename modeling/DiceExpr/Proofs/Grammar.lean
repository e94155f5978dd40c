import DiceExpr.Formulas
import DiceExpr.Limits
import DiceExpr.Postfix
import DiceExpr.Proofs.Lexing

/-!
# The grammar of expressions

An expression is a row of operands with an operator between each two. An operand is a row of parts, of
which the first may have a minus before it: integers, dice, expressions in parentheses and references
to formulas. A reference stands for the expression of its formula, which must not come up again inside
it.

The grammar is given by derivations over the lexemes of a text, together with the postfix sequence that
each derivation determines. What a die takes of the lexemes after it depends on the next one, so each
derivation says what comes after it.

## Main definitions

* `Expression`, `Operand`, `Part`: what is derived.
* `Expression.toPostfix`: the postfix sequence of an expression.
* `DerivesExpression`: the derivations.
-/

namespace DiceExpr

/-! ### Expressions -/

mutual

/-- Operands joined by operators, from left to right. -/
inductive Expression where
  | operand (x : Operand)
  | binary (left : Expression) (op : Operator) (right : Operand)

/-- Parts in a row, the first of which may be negated. -/
inductive Operand where
  | first (negated : Bool) (part : Part)
  | more (before : Operand) (part : Part)

inductive Part where
  | integer (value : Nat)
  | die (sides : Nat) (keep : Keep)
  /-- An expression in parentheses. -/
  | group (body : Expression)
  /-- A name in brackets, with the expression it stands for. -/
  | reference (name : String) (body : Expression)

end

/-! ### The postfix sequence of an expression -/

namespace Postfix

def append : Postfix → Postfix → Postfix
  | single t, q => cons t q
  | cons t p, q => cons t (append p q)

/-- A sequence with its last token changed. -/
def mapLast (f : Token → Token) : Postfix → Postfix
  | single t => single (f t)
  | cons t p => cons t (mapLast f p)

@[simp]
theorem toList_append (p q : Postfix) : (p.append q).toList = p.toList ++ q.toList := by
  match p with
  | single t => rfl
  | cons t p => simp [append, toList, toList_append p q]

theorem exists_toList_mapLast (f : Token → Token) (p : Postfix) :
    ∃ ts t, p.toList = ts ++ [t] ∧ (p.mapLast f).toList = ts ++ [f t] := by
  match p with
  | single t => exact ⟨[], t, rfl, rfl⟩
  | cons u p =>
    obtain ⟨ts, t, hp, hf⟩ := exists_toList_mapLast f p
    exact ⟨u :: ts, t, by simp [toList, hp], by simp [toList, mapLast, hf]⟩

end Postfix

mutual

/-- The sequence of an expression. Each operator stands right after its right operand. -/
def Expression.toPostfix : Expression → Postfix
  | .operand x => x.toPostfix
  | .binary left op right => left.toPostfix.append (right.toPostfix.append (.single (.operator op)))

/-- The sequence of an operand. An integer is a value of its own, and any other part takes the value
before it as its count. -/
def Operand.toPostfix : Operand → Postfix
  | .first negated (.integer n) => .literal (if negated then -n else n)
  | .first negated part => .single (part.token (.literal (if negated then -1 else 1)))
  | .more before (.integer n) => before.toPostfix.append (.literal n)
  | .more before part => before.toPostfix.mapLast fun count => part.token (.single count)

def Part.token : Part → Postfix → Token
  | .integer n, _ => .literal n
  | .die sides keep, count => .dice count sides keep
  | .group body, count => .group count body.toPostfix
  | .reference _ body, count => .group count body.toPostfix

end

/-! ### Derivations -/

section

variable {S : Type} [FormulaStore S] (formulas : S) (limits : Limits)

/-- The number after a keep letter: an integer that touches the letter, and one if there is none. -/
inductive DerivesCount : List Lexeme → Nat → List Lexeme → Prop
  | one {ls : List Lexeme}
      (none : ∀ l, ls.head? = some l → l.isAdjacent = true → l.kind ≠ .integer) :
      DerivesCount ls 1 ls
  | given {l : Lexeme} {ls : List Lexeme} (adjacent : l.isAdjacent = true)
      (kind : l.kind = .integer) (le : l.value ≤ limits.maxDice) :
      DerivesCount (l :: ls) l.value ls

/-- The keep rule after the faces of a die: a keep letter that touches them, and all dice if there is
none. -/
inductive DerivesKeep : List Lexeme → Keep → List Lexeme → Prop
  | all {ls : List Lexeme}
      (none : ∀ l, ls.head? = some l → l.isAdjacent = true →
        l.kind ≠ .highest ∧ l.kind ≠ .lowest) :
      DerivesKeep ls .all ls
  | highest {l : Lexeme} {ls rest : List Lexeme} {n : Nat} (adjacent : l.isAdjacent = true)
      (kind : l.kind = .highest) (count : DerivesCount limits ls n rest) :
      DerivesKeep (l :: ls) (.highest n) rest
  | lowest {l : Lexeme} {ls rest : List Lexeme} {n : Nat} (adjacent : l.isAdjacent = true)
      (kind : l.kind = .lowest) (count : DerivesCount limits ls n rest) :
      DerivesKeep (l :: ls) (.lowest n) rest

variable {limits} in
theorem DerivesCount.suffix {ls rest : List Lexeme} {n : Nat} (h : DerivesCount limits ls n rest) :
    rest <:+ ls := by
  cases h with
  | one => exact List.suffix_rfl
  | given => exact List.suffix_cons _ _

variable {limits} in
theorem DerivesKeep.suffix {ls rest : List Lexeme} {keep : Keep}
    (h : DerivesKeep limits ls keep rest) : rest <:+ ls := by
  cases h with
  | all => exact List.suffix_rfl
  | highest _ _ count => exact count.suffix.trans (List.suffix_cons _ _)
  | lowest _ _ count => exact count.suffix.trans (List.suffix_cons _ _)

mutual

/-- Lexemes that start with an expression, which is derived while some formulas are active, and go on
with others. -/
inductive DerivesExpression : List String → List Lexeme → Expression → List Lexeme → Prop
  | operand {active : List String} {ls rest : List Lexeme} {y : Operand}
      (hy : DerivesOperand active ls y rest) : DerivesExpression active ls (.operand y) rest
  | binary {active : List String} {ls more rest : List Lexeme} {l : Lexeme} {x : Expression}
      {op : Operator} {y : Operand} (hx : DerivesExpression active ls x (l :: more))
      (kind : l.kind = .operator op) (hy : DerivesOperand active more y rest) :
      DerivesExpression active ls (.binary x op y) rest

inductive DerivesOperand : List String → List Lexeme → Operand → List Lexeme → Prop
  | first {active : List String} {ls rest : List Lexeme} {p : Part}
      (hp : DerivesPart active ls p rest) : DerivesOperand active ls (.first false p) rest
  | negated {active : List String} {l : Lexeme} {ls rest : List Lexeme} {p : Part}
      (kind : l.kind = .operator .sub) (hp : DerivesPart active ls p rest) :
      DerivesOperand active (l :: ls) (.first true p) rest
  | more {active : List String} {ls more rest : List Lexeme} {y : Operand} {p : Part}
      (hy : DerivesOperand active ls y more) (hp : DerivesPart active more p rest) :
      DerivesOperand active ls (.more y p) rest

inductive DerivesPart : List String → List Lexeme → Part → List Lexeme → Prop
  | integer {active : List String} {l : Lexeme} {ls : List Lexeme} (kind : l.kind = .integer) :
      DerivesPart active (l :: ls) (.integer l.value) ls
  | die {active : List String} {l sides : Lexeme} {ls rest : List Lexeme} {keep : Keep}
      (kind : l.kind = .die) (adjacent : sides.isAdjacent = true) (digits : sides.kind = .integer)
      (le : sides.value ≤ limits.maxSides) (hkeep : DerivesKeep limits ls keep rest) :
      DerivesPart active (l :: sides :: ls) (.die sides.value keep) rest
  | group {active : List String} {l close : Lexeme} {inner rest : List Lexeme} {body : Expression}
      (kind : l.kind = .openParen) (hbody : DerivesExpression active inner body [])
      (closes : close.kind = .closeParen) :
      DerivesPart active (l :: (inner ++ close :: rest)) (.group body) rest
  | reference {active : List String} {l : Lexeme} {rest inner : List Lexeme} {f : Formula}
      {body : Expression} (kind : l.kind = .formula)
      (found : FormulaStore.find? formulas l.name = some f) (inactive : f.name ∉ active)
      (lexes : Lexes f.expression.toList inner)
      (hbody : DerivesExpression (f.name :: active) inner body []) :
      DerivesPart active (l :: rest) (.reference l.name body) rest

end

end

end DiceExpr
