/-!
# Keep rules

Which of the dice of one roll count toward its total.
-/

namespace DiceExpr

inductive Keep where
  | all
  | highest (n : Nat)
  | lowest (n : Nat)
  deriving DecidableEq

namespace Keep

/-- The written form: nothing, or a letter and how many dice are kept. -/
def render : Keep → String
  | all => ""
  | highest n => s!"h{n}"
  | lowest n => s!"l{n}"

/-- The results that are kept. A rule that asks for more dice than were rolled keeps them all. -/
def select (keep : Keep) (results : List Nat) : List Nat :=
  match keep with
  | all => results
  | highest n => (results.mergeSort (fun a b => b ≤ a)).take n
  | lowest n => (results.mergeSort (fun a b => a ≤ b)).take n

def total (keep : Keep) (results : List Nat) : Nat :=
  (keep.select results).foldl (· + ·) 0

@[simp]
theorem total_nil (keep : Keep) : keep.total [] = 0 := by
  cases keep <;> simp [total, select]

end Keep

end DiceExpr
