import DiceExpr.Event
import DiceExpr.Limits
import DiceExpr.RollError
import DiceExpr.Roller

/-!
# Rolling expressions

A postfix sequence is worked out on a stack of its own. A number is pushed, an operator takes the two
values on top, and a die or a group works out the sequences it holds and pushes its total. At the end
the stack must hold a single value.

## Main statements

* `settle_eq_ok_iff`: only a stack of one value has a value.
* `run_rollDice`: what a roll of dice gives, and when it is refused.
-/

namespace DiceExpr

structure RollState (σ : Type) where
  roller : σ
  /-- What was reported, newest first. -/
  events : List Event := []

/-- A step of rolling, which may fail and keeps its state even then. -/
abbrev RollM (σ : Type) := ExceptT RollError (StateM (RollState σ))

section

variable {σ : Type}

/-- The number with the sign of another: negated for a negative one. -/
def withSignOf (sign : Int) (n : Int) : Int := if sign < 0 then -n else n

/-- The single value that a finished stack holds. -/
def settle : List Int → Except RollError Int
  | [value] => .ok value
  | stack => .error (.malformed stack.length)

theorem settle_eq_ok_iff {stack : List Int} {value : Int} :
    settle stack = .ok value ↔ stack = [value] := by
  match stack with
  | [] => simp [settle]
  | [_] => simp [settle]
  | _ :: _ :: _ => simp [settle]

/-- The stack after an operator, which takes its right operand from the top. -/
def applyOnStack (op : Operator) : List Int → Except RollError (List Int)
  | b :: a :: stack =>
    match op.apply a b with
    | some value => .ok (value :: stack)
    | none => .error .zeroDivision
  | stack => .error (.malformed stack.length)

/-- Adds up the values of a step that is taken `n` times. -/
def sumTimes (step : RollM σ Int) : Nat → Int → RollM σ Int
  | 0, total => return total
  | n + 1, total => do
    let value ← step
    sumTimes step n (total + value)

variable [Roller σ] (limits : Limits)

/-- Rolls as many dice as the size of `count` says and adds up those that are kept. The total of a
negative count is negated. -/
def rollDice (count sides : Int) (keep : Keep) : RollM σ Int := do
  if limits.maxDice < count.natAbs then throw (.tooManyDice count)
  if sides ≤ 1 then throw (.invalidDie sides)
  let s ← get
  let (results, roller) := Roller.rollMany sides.toNat count.natAbs s.roller
  let total := keep.total results
  set { s with roller, events := .rolled count sides keep total :: s.events }
  return withSignOf count total

/-- Too many dice and a die of fewer than two faces are refused before any die is rolled. -/
theorem run_rollDice (count sides : Int) (keep : Keep) (s : RollState σ) :
    (rollDice limits count sides keep).run.run s =
      if limits.maxDice < count.natAbs then (.error (.tooManyDice count), s)
      else if sides ≤ 1 then (.error (.invalidDie sides), s)
      else
        let rolled := Roller.rollMany sides.toNat count.natAbs s.roller
        let total := keep.total rolled.1
        (.ok (withSignOf count total),
          { s with roller := rolled.2, events := .rolled count sides keep total :: s.events }) := by
  by_cases hcount : limits.maxDice < count.natAbs
  · simp only [rollDice, hcount, ↓reduceIte]
    rfl
  · by_cases hsides : sides ≤ 1
    · simp only [rollDice, hcount, hsides, ↓reduceIte]
      rfl
    · simp only [rollDice, hcount, hsides, ↓reduceIte]
      rfl

mutual

def Token.run : Token → List Int → RollM σ (List Int)
  | .literal value, stack => return value :: stack
  | .operator op, stack => applyOnStack op stack
  | .dice count sides keep, stack => do
    let n ← settle (← count.run [])
    let total ← rollDice limits n sides keep
    return total :: stack
  | .group multiplier body, stack => do
    let n ← settle (← multiplier.run [])
    let total ← sumTimes (do settle (← body.run [])) n.natAbs 0
    return withSignOf n total :: stack

def Postfix.run : Postfix → List Int → RollM σ (List Int)
  | .single t, stack => t.run stack
  | .cons t rest, stack => do rest.run (← t.run stack)

end

def Postfix.value (p : Postfix) : RollM σ Int := do
  settle (← p.run limits [])

/-- Rolls a sequence: its total, and what is carried along at the end. -/
def Postfix.roll (p : Postfix) (roller : σ) : Except RollError Int × RollState σ :=
  (p.value limits).run.run { roller }

end

end DiceExpr
