import DiceExpr.Roller.Sampler

/-!
# Scripted rollers

Rollers and sources of words whose course is fixed in advance.
-/

namespace DiceExpr

/-- The face that a number shows on a die: the numbers from one count the faces round and round. -/
def faceOf (sides n : Nat) : Nat := (n - 1) % sides + 1

theorem one_le_faceOf (sides n : Nat) : 1 ≤ faceOf sides n := Nat.le_add_left 1 _

theorem faceOf_le {sides : Nat} (n : Nat) (h : 0 < sides) : faceOf sides n ≤ sides :=
  Nat.mod_lt (n - 1) h

/-! ### Rollers -/

/-- Shows the faces of numbers in steps of the same size. -/
structure Stepping where
  current : Nat := 1
  step : Nat := 1

instance : Roller Stepping where
  roll sides s := (faceOf sides s.current, { s with current := s.current + s.step })

instance : LawfulRoller Stepping where
  one_le_roll sides s _ := one_le_faceOf sides s.current
  roll_le _ s h := faceOf_le s.current h

/-- Shows the faces of listed numbers, over and over. -/
structure Cycling where
  numbers : Array Nat
  position : Nat := 0

instance : Roller Cycling where
  roll sides s :=
    let number := s.numbers.getD (s.position % s.numbers.size) 1
    (faceOf sides number, { s with position := s.position + 1 })

instance : LawfulRoller Cycling where
  one_le_roll sides _ _ := one_le_faceOf sides _
  roll_le _ _ h := faceOf_le _ h

/-! ### Sources of words -/

/-- Listed words, and zeros after them for ever. -/
structure WordList where
  words : List UInt32
  /-- How many words were drawn so far, zeros included. -/
  used : Nat := 0

instance : WordSource WordList where
  next s :=
    match s.words with
    | [] => (0, { s with used := s.used + 1 })
    | w :: ws => (w, { words := ws, used := s.used + 1 })

/-- A linear congruential generator, whose words are its states. -/
structure Congruential where
  state : UInt32

instance : WordSource Congruential where
  next s :=
    let state := s.state * 1664525 + 1013904223
    (state, { state })

end DiceExpr
