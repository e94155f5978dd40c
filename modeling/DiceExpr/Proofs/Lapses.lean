import DiceExpr.Engine
import DiceExpr.Proofs.Rounds
import DiceExpr.Roller.Scripted

/-!
# No lapses

Rolling is watched as reading is: a number of dice that the limits allow must fit into a machine word,
and a die that is rolled must have a face, since a roller takes one less than the number of faces. With
limits that are machine words, neither reading a text nor rolling what was read comes to a lapse.

## Main statements

* `follows_rollDice`: a watched roll does what a roll does.
* `Postfix.follows_watchedRun`: so does a whole sequence, by induction on it.
* `evaluate_without_lapse`: evaluating a text under watch is evaluating it.
-/

namespace DiceExpr

/-! ### Rolling dice -/

/-- A watched step of rolling. -/
abbrev WatchedRollM (σ : Type) := Watched RollError (RollState σ)

section

variable {σ : Type}

/-- Adds up the values of a watched step that is taken `n` times. -/
def watchedTimes (step : WatchedRollM σ Int) : Nat → Int → WatchedRollM σ Int
  | 0, total => return total
  | n + 1, total => do
    let value ← step
    watchedTimes step n (total + value)

theorem follows_sumTimes {watched : WatchedRollM σ Int} {step : RollM σ Int} (h : Follows watched step)
    (n : Nat) (total : Int) : Follows (watchedTimes watched n total) (sumTimes step n total) := by
  induction n generalizing total with
  | zero => exact .pure total
  | succ n ih => exact h.bind fun value => ih (total + value)

variable [Roller σ]

/-- Rolls `n` more dice after the ones in `rolled`, newest first. Each roll takes one less than the number
of faces. -/
def watchedRollOnto (sides : Nat) : Nat → List Nat → σ → Except Lapse (List Nat × σ)
  | 0, rolled, s => return (rolled, s)
  | n + 1, rolled, s => do
    let _ ← oneLess .facesBelowZero sides
    let (result, s) := Roller.roll sides s
    watchedRollOnto sides n (result :: rolled) s

variable (limits : Limits)

def watchedRollDice (count sides : Int) (keep : Keep) : WatchedRollM σ Int := do
  if limits.maxDice < count.natAbs then throw (.tooManyDice count)
  else if sides ≤ 1 then throw (.invalidDie sides)
  else do
    let n ← diceWord count.natAbs
    let s ← get
    let (rolled, roller) ← watchedRollOnto sides.toNat n [] s.roller
    let total := keep.total rolled.reverse
    set { s with roller, events := .rolled count sides keep total :: s.events }
    return withSignOf count total

theorem watchedRollOnto_eq {sides : Nat} (h : 0 < sides) (n : Nat) (rolled : List Nat) (s : σ) :
    watchedRollOnto sides n rolled s = .ok (Roller.rollOnto sides n rolled s) := by
  induction n generalizing rolled s with
  | zero => rfl
  | succ n ih =>
    obtain ⟨last, rfl⟩ : ∃ last, sides = last + 1 := ⟨sides - 1, by omega⟩
    exact ih _ _

/-- A die without faces would not go unseen. -/
example (s : σ) : watchedRollOnto 0 1 [] s = .error .facesBelowZero := rfl

variable {limits}

theorem follows_rollDice (hword : limits.maxDice < 0x10000000000000000) (count sides : Int)
    (keep : Keep) :
    Follows (watchedRollDice limits count sides keep : WatchedRollM σ Int)
      (rollDice limits count sides keep) := by
  intro s
  rw [run_rollDice, watchedRollDice]
  by_cases hcount : limits.maxDice < count.natAbs
  · rw [if_pos hcount, if_pos hcount]
    rfl
  · by_cases hsides : sides ≤ 1
    · rw [if_neg hcount, if_neg hcount, if_pos hsides, if_pos hsides]
      rfl
    · have hfaces : 0 < sides.toNat := by omega
      rw [if_neg hcount, if_neg hcount, if_neg hsides, if_neg hsides,
        diceWord_eq hword (Nat.not_lt.1 hcount)]
      simp only [watchedRollOnto_eq hfaces]
      rfl

/-! ### Rolling expressions -/

variable (limits)

mutual

def Token.watchedRun : Token → List Int → WatchedRollM σ (List Int)
  | .literal value, stack => return value :: stack
  | .operator op, stack => .ofExcept (applyOnStack op stack)
  | .dice count sides keep, stack => do
    let n ← .ofExcept (settle (← count.watchedRun []))
    let total ← watchedRollDice limits n sides keep
    return total :: stack
  | .group multiplier body, stack => do
    let n ← .ofExcept (settle (← multiplier.watchedRun []))
    let total ← watchedTimes (do .ofExcept (settle (← body.watchedRun []))) n.natAbs 0
    return withSignOf n total :: stack

def Postfix.watchedRun : Postfix → List Int → WatchedRollM σ (List Int)
  | .single t, stack => t.watchedRun stack
  | .cons t rest, stack => do rest.watchedRun (← t.watchedRun stack)

end

/-- Rolls a sequence under watch; also gives what is carried along at the end. -/
def Postfix.watchedRoll (p : Postfix) (roller : σ) :
    Except Lapse (Except RollError Int × RollState σ) :=
  (do .ofExcept (settle (← p.watchedRun limits [])) : WatchedRollM σ Int).run.run { roller }

variable {limits}

mutual

theorem Token.follows_watchedRun (hword : limits.maxDice < 0x10000000000000000) (t : Token)
    (stack : List Int) :
    Follows (t.watchedRun limits stack : WatchedRollM σ (List Int)) (t.run limits stack) := by
  cases t with
  | literal value => exact .pure _
  | operator op => exact .lift _
  | dice count sides keep =>
    refine (count.follows_watchedRun hword []).bind fun left => ?_
    refine (Follows.lift (settle left)).bind fun n => ?_
    exact (follows_rollDice hword n sides keep).bind fun total => .pure _
  | group multiplier body =>
    refine (multiplier.follows_watchedRun hword []).bind fun left => ?_
    refine (Follows.lift (settle left)).bind fun n => ?_
    have hvalue : Follows (do .ofExcept (settle (← body.watchedRun limits [])) : WatchedRollM σ Int)
        (do settle (← body.run limits [])) :=
      (body.follows_watchedRun hword []).bind fun left => .lift (settle left)
    exact (follows_sumTimes hvalue n.natAbs 0).bind fun total => .pure _

theorem Postfix.follows_watchedRun (hword : limits.maxDice < 0x10000000000000000) (p : Postfix)
    (stack : List Int) :
    Follows (p.watchedRun limits stack : WatchedRollM σ (List Int)) (p.run limits stack) := by
  cases p with
  | single t => exact t.follows_watchedRun hword stack
  | cons t rest =>
    exact (t.follows_watchedRun hword stack).bind fun left => rest.follows_watchedRun hword left

end

theorem Postfix.watchedRoll_eq (hword : limits.maxDice < 0x10000000000000000) (p : Postfix)
    (roller : σ) : p.watchedRoll limits roller = .ok (p.roll limits roller) :=
  ((p.follows_watchedRun hword []).bind fun left => .lift (settle left)) { roller }

end

/-! ### Evaluating texts -/

namespace Engine

variable {σ S : Type} [FormulaStore S] [Roller σ]

/-- Reads a text and rolls it, both under watch. -/
def watchedEvaluate (e : Engine σ S) (text : String) : Except Lapse (Evaluation σ S) := do
  let (parsed, reader) ← watchedParse e.formulas e.limits text
  let reading := reader.events.reverse
  match parsed with
  | .error why => return ⟨.error (.parse why), e, reading⟩
  | .ok p =>
    let (rolled, state) ← p.watchedRoll e.limits e.roller
    let rolling := reading ++ state.events.reverse
    let after := { e with roller := state.roller }
    match rolled with
    | .error why => return ⟨.error (.roll why), after, rolling⟩
    | .ok total => return ⟨.ok total, after, rolling ++ [.evaluated text.toList total]⟩

/-- With limits that are machine words, neither reading a text nor rolling it comes to a lapse, whatever
the text, the formulas and the roller are. So a count that is taken back is there and is no operator, a
number is read off digits only and always found, the name of a reference is within its brackets, only a
text without lexemes is refused as empty, no counter falls below zero, and a number of dice that the
limits allow is a machine word. -/
theorem evaluate_without_lapse (e : Engine σ S) (hword : e.limits.maxDice < 0x10000000000000000)
    (text : String) :
    watchedParse e.formulas e.limits text = .ok (runParse e.formulas e.limits text) ∧
      e.watchedEvaluate text = .ok (e.evaluate text) := by
  have hparse := watchedParse_eq e.formulas e.limits hword text
  refine ⟨hparse, ?_⟩
  rw [watchedEvaluate, hparse, evaluate]
  obtain ⟨parsed, reader⟩ := runParse e.formulas e.limits text
  cases parsed with
  | error why => rfl
  | ok p =>
    have hroll := p.watchedRoll_eq hword e.roller
    simp only [bind, Except.bind, hroll]
    cases (p.roll e.limits e.roller).1 with
    | error why => rfl
    | ok total => rfl

theorem evaluate_without_lapse_attack :
    ∃ (e : Engine Stepping) (evaluation : Evaluation Stepping),
      e.limits.maxDice < 0x10000000000000000 ∧
        e.watchedEvaluate "-(1)[é[atk] - 0(2d20h1)" = .ok evaluation ∧ evaluation.result = .ok (-4) := by
  let e : Engine Stepping := ⟨Formulas.empty.insert ⟨"é[atk", "2d6 + 1"⟩, {}, {}⟩
  have hword : e.limits.maxDice < 0x10000000000000000 := by decide
  have hresult : (e.evaluate "-(1)[é[atk] - 0(2d20h1)").result = .ok (-4) := by decide +kernel
  exact ⟨e, _, hword, (evaluate_without_lapse e hword _).2, hresult⟩

end Engine

end DiceExpr
