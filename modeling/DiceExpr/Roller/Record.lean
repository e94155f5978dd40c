import DiceExpr.Roller

/-!
# Recorded rolls

A roller together with the dice it has rolled.

## Main statements

* `Recorded.history_roll`, `Recorded.history_rollMany`: each roll adds one die to the history.
-/

namespace DiceExpr

/-- One die that was rolled: its number of faces and the face it showed. -/
structure Draw where
  sides : Nat
  result : Nat
  deriving DecidableEq

/-- A roller that keeps the dice it has rolled, newest first. -/
structure Recorded (σ : Type) where
  roller : σ
  draws : List Draw := []

namespace Recorded

variable {σ : Type}

instance [Roller σ] : Roller (Recorded σ) where
  roll sides s :=
    let (result, roller) := Roller.roll sides s.roller
    (result, { roller, draws := ⟨sides, result⟩ :: s.draws })

instance [Roller σ] [LawfulRoller σ] : LawfulRoller (Recorded σ) where
  one_le_roll sides s h := LawfulRoller.one_le_roll sides s.roller h
  roll_le sides s h := LawfulRoller.roll_le sides s.roller h

/-- The dice that were rolled, oldest first. -/
def history (s : Recorded σ) : List Draw := s.draws.reverse

theorem history_roll [Roller σ] (sides : Nat) (s : Recorded σ) :
    (Roller.roll sides s).2.history =
      s.history ++ [⟨sides, (Roller.roll sides s.roller).1⟩] := by
  simp [Roller.roll, history]

theorem history_rollMany [Roller σ] (sides n : Nat) (s : Recorded σ) :
    (Roller.rollMany sides n s).2.history =
      s.history ++ (Roller.rollMany sides n s.roller).1.map fun result => ⟨sides, result⟩ := by
  induction n generalizing s with
  | zero => simp
  | succ n ih =>
    have hroller : (Roller.roll sides s).2.roller = (Roller.roll sides s.roller).2 := rfl
    simp [Roller.rollMany_succ, ih, history_roll, hroller]

end Recorded

end DiceExpr
