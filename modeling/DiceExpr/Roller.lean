/-!
# Rollers

Where the results of dice come from. A roller has a state; each roll gives a result and the next
state.

## Main statements

* `rollMany_succ`: the first of many rolls comes first, and the others are rolled from where it ends.
-/

namespace DiceExpr

/-- A state from which dice can be rolled. -/
class Roller (σ : Type) where
  /-- Rolls a die with a number of faces, at least two. -/
  roll : (sides : Nat) → σ → Nat × σ

/-- A roller whose dice show one of their faces. -/
class LawfulRoller (σ : Type) [Roller σ] : Prop where
  one_le_roll : ∀ (sides : Nat) (s : σ), 0 < sides → 1 ≤ (Roller.roll sides s).1
  roll_le : ∀ (sides : Nat) (s : σ), 0 < sides → (Roller.roll sides s).1 ≤ sides

namespace Roller

variable {σ : Type} [Roller σ]

/-- Rolls `n` more dice after the ones in `rolled`, newest first. -/
def rollOnto (sides : Nat) : Nat → List Nat → σ → List Nat × σ
  | 0, rolled, s => (rolled, s)
  | n + 1, rolled, s =>
    let (result, s) := roll sides s
    rollOnto sides n (result :: rolled) s

/-- Rolls `n` dice with the same number of faces, one after the other. -/
def rollMany (sides n : Nat) (s : σ) : List Nat × σ :=
  let (rolled, s) := rollOnto sides n [] s
  (rolled.reverse, s)

theorem rollOnto_eq (sides n : Nat) (rolled : List Nat) (s : σ) :
    rollOnto sides n rolled s =
      ((rollMany sides n s).1.reverse ++ rolled, (rollMany sides n s).2) := by
  induction n generalizing rolled s with
  | zero => simp [rollMany, rollOnto]
  | succ n ih =>
    simp only [rollMany, rollOnto] at ih ⊢
    rw [ih, ih [_]]
    simp

@[simp]
theorem rollMany_zero (sides : Nat) (s : σ) : rollMany sides 0 s = ([], s) := rfl

theorem rollMany_succ (sides n : Nat) (s : σ) :
    rollMany sides (n + 1) s =
      let first := roll sides s
      let others := rollMany sides n first.2
      (first.1 :: others.1, others.2) := by
  have step : rollOnto sides (n + 1) [] s = rollOnto sides n [(roll sides s).1] (roll sides s).2 :=
    rfl
  simp only [rollMany, step]
  rw [rollOnto_eq]
  simp [rollMany]

theorem length_rollMany (sides n : Nat) (s : σ) : (rollMany sides n s).1.length = n := by
  induction n generalizing s with
  | zero => rfl
  | succ n ih => simp [rollMany_succ, ih]

end Roller

end DiceExpr
