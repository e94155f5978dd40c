import DiceExpr.Operator
import DiceExpr.Keep

/-!
# Postfix sequences

An expression in reverse Polish order: each operator stands after its operands. Dice and groups are
single tokens that hold sequences of their own.
-/

namespace DiceExpr

mutual

inductive Token where
  | literal (value : Int)
  /-- An operator on the two values before it. -/
  | operator (op : Operator)
  /-- `count` dice with `sides` faces each, some of which are kept. -/
  | dice (count : Postfix) (sides : Int) (keep : Keep)
  /-- A body that is worked out `multiplier` times and added up. -/
  | group (multiplier : Postfix) (body : Postfix)
  deriving DecidableEq

/-- A sequence of tokens, not empty. -/
inductive Postfix where
  | single (token : Token)
  | cons (token : Token) (rest : Postfix)
  deriving DecidableEq

end

namespace Postfix

def toList : Postfix → List Token
  | single t => [t]
  | cons t rest => t :: toList rest

def ofTokens (t : Token) : List Token → Postfix
  | [] => single t
  | u :: us => cons t (ofTokens u us)

def literal (value : Int) : Postfix := single (.literal value)

@[simp]
theorem toList_ofTokens (t : Token) (ts : List Token) : (ofTokens t ts).toList = t :: ts := by
  induction ts generalizing t with
  | nil => rfl
  | cons u us ih => simp [ofTokens, toList, ih]

theorem toList_ne_nil (p : Postfix) : p.toList ≠ [] := by
  cases p <;> simp [toList]

theorem toList_injective {p q : Postfix} (h : p.toList = q.toList) : p = q := by
  induction p using Postfix.rec (motive_1 := fun _ => True) generalizing q with
  | literal => trivial
  | operator => trivial
  | dice => trivial
  | group => trivial
  | single t =>
    cases q with
    | single u => simpa [toList] using h
    | cons u rest => cases rest <;> simp [toList] at h
  | cons t rest _ ih =>
    cases q with
    | single u => cases rest <;> simp [toList] at h
    | cons u more =>
      simp only [toList, List.cons.injEq] at h
      rw [h.1, ih h.2]

end Postfix

/-! ### Depth -/

mutual

/-- How many levels of dice and groups a token nests: none for a number or an operator. -/
def Token.depth : Token → Nat
  | .literal _ => 0
  | .operator _ => 0
  | .dice count _ _ => 1 + count.depth
  | .group multiplier body => 1 + max multiplier.depth body.depth

def Postfix.depth : Postfix → Nat
  | .single t => t.depth
  | .cons t rest => max t.depth rest.depth

end

/-! ### Written form -/

mutual

def Token.render : Token → String
  | .literal value => toString value
  | .operator op => op.symbol.toString
  | .dice count sides keep => s!"{count.render}d{sides}{keep.render}"
  | .group multiplier body => s!"{multiplier.render}({body.render})"

/-- The written form of a sequence: its tokens with a space between each two. -/
def Postfix.render : Postfix → String
  | .single t => t.render
  | .cons t rest => s!"{t.render} {rest.render}"

end

end DiceExpr
