import DiceExpr.Proofs.Carried
import DiceExpr.Proofs.Shape
import DiceExpr.Proofs.Watched

/-!
# Watched passes

A text is put into postfix order in one pass with a cursor, a round for each item. What must not happen
on the way is watched: a count is taken from an output without a value at its end, a text with lexemes
is read as an empty one, a round uses up no lexeme, or the number of bodies around a reader falls below
zero.

## Main statements

* `Conversion.watchedCount_eq_ok_iff`: which outputs a count can be taken from.
* `Follows.nested`: the number of bodies around a reader does not fall below zero.
-/

namespace DiceExpr

open Lexeme

/-! ### Counts -/

namespace Conversion

/-- Takes back the value just before, as `takeCount` does. It must be there, and must be no operator. -/
def watchedCount (c : Conversion) : Except Lapse (Postfix × Conversion) :=
  match c.afterValue, c.output with
  | true, t :: earlier =>
    if t.isOperator then .error .operatorAsCount
    else .ok (.single t, { c with output := earlier })
  | true, [] => .error .missingCount
  | false, _ => .ok (.literal 1, c)

/-- Right after a value, that value is the last of the output. -/
def EndsInValue (c : Conversion) : Prop :=
  c.afterValue = true → ∃ t earlier, c.output = t :: earlier ∧ t.isOperator = false

/-- A conversion to which some item was added. -/
structure IsStarted (c : Conversion) : Prop where
  endsInValue : c.EndsInValue
  added : c.output ≠ [] ∨ c.pending ≠ []

variable {c d : Conversion} {limits : Limits}

theorem watchedCount_eq_ok_iff : c.watchedCount = .ok c.takeCount ↔ c.EndsInValue := by
  constructor
  · intro h hc
    cases houtput : c.output with
    | nil => simp [watchedCount, hc, houtput] at h
    | cons t earlier =>
      refine ⟨t, earlier, rfl, ?_⟩
      cases ht : t.isOperator with
      | false => rfl
      | true => simp [watchedCount, hc, houtput, ht] at h
  · intro h
    cases hc : c.afterValue with
    | false => simp only [watchedCount, takeCount, hc]
    | true =>
      obtain ⟨t, earlier, houtput, ht⟩ := h hc
      simp only [watchedCount, takeCount, hc, houtput, ht, Bool.false_eq_true, ↓reduceIte]

/-- An output that lost its value would not go unseen. -/
example : ({ afterValue := true } : Conversion).watchedCount = .error .missingCount := rfl

theorem endsInValue_init : ({} : Conversion).EndsInValue := nofun

theorem isStarted_pushValue {t : Token} (ht : t.isOperator = false) : (c.pushValue t).IsStarted :=
  ⟨fun _ => ⟨t, c.output, rfl, ht⟩, .inl (List.cons_ne_nil _ _)⟩

theorem isStarted_pushOperator (op : Operator) : (c.pushOperator op).IsStarted := by
  rw [pushOperator_eq]
  exact ⟨nofun, .inr (List.cons_ne_nil _ _)⟩

theorem isStarted_of_pushNested {t : Token} (ht : t.isOperator = false)
    (h : c.pushNested limits t = .ok d) : d.IsStarted := by
  rw [(pushNested_eq_ok_iff.1 h).2]
  exact isStarted_pushValue ht

theorem finish_ne_empty (h : c.IsStarted) : c.finish ≠ .error .empty := by
  intro hempty
  simp only [finish] at hempty
  split at hempty
  · cases hempty
  · split at hempty
    · next hnil =>
      rcases h.added with houtput | hpending
      · simp [houtput] at hnil
      · simp [hpending] at hnil
    · cases hempty

end Conversion

/-! ### Bodies -/

/-- A watched step of reading. -/
abbrev WatchedM := Watched ParseError ParseState

/-- Runs a watched step while a formula is active, unless that formula is active already. -/
def watchedExpanding (name : String) (step : WatchedM Postfix) : WatchedM Postfix :=
  ExceptT.mk fun s =>
    if name ∈ s.active then .ok (.error (.selfReferentialFormula name), s)
    else do
      let outcome ← step.run.run { s with active := name :: s.active }
      return (outcome.1, { outcome.2 with active := outcome.2.active.tail })

/-- Runs a watched step one level further down, unless the limits do not let a reader go there. -/
def watchedNested (limits : Limits) (step : WatchedM Postfix) : WatchedM Postfix :=
  ExceptT.mk fun s =>
    if s.depth + 1 ≤ limits.maxDepth then do
      let outcome ← step.run.run { s with depth := s.depth + 1 }
      let depth ← oneLess .depthBelowZero outcome.2.depth
      return (outcome.1, { outcome.2 with depth })
    else .ok (.error (.tooDeep limits.maxDepth), s)

theorem Follows.expanding {watched : WatchedM Postfix} {step : ParseM Postfix} (name : String)
    (h : Follows watched step) : Follows (watchedExpanding name watched) (expanding name step) := by
  intro s
  have hwatched : (watchedExpanding name watched).run.run s =
      if name ∈ s.active then .ok (.error (.selfReferentialFormula name), s)
      else do
        let outcome ← watched.run.run { s with active := name :: s.active }
        return (outcome.1, { outcome.2 with active := outcome.2.active.tail }) := rfl
  have hstep : (DiceExpr.expanding name step).run.run s =
      if name ∈ s.active then (.error (.selfReferentialFormula name), s)
      else
        let outcome := step.run.run { s with active := name :: s.active }
        (outcome.1, { outcome.2 with active := outcome.2.active.tail }) := rfl
  rw [hwatched, hstep, h]
  split
  · rfl
  · rfl

/-- The level that a body counts is still counted when it is left. -/
theorem Follows.nested {limits : Limits} {watched : WatchedM Postfix} {step : ParseM Postfix}
    (hkeeps : Keeps step) (h : Follows watched step) :
    Follows (watchedNested limits watched) (nested limits step) := by
  intro s
  have hwatched : (watchedNested limits watched).run.run s =
      if s.depth + 1 ≤ limits.maxDepth then do
        let outcome ← watched.run.run { s with depth := s.depth + 1 }
        let depth ← oneLess .depthBelowZero outcome.2.depth
        return (outcome.1, { outcome.2 with depth })
      else .ok (.error (.tooDeep limits.maxDepth), s) := rfl
  have hstep : (DiceExpr.nested limits step).run.run s =
      if s.depth + 1 ≤ limits.maxDepth then
        let outcome := step.run.run { s with depth := s.depth + 1 }
        (outcome.1, { outcome.2 with depth := outcome.2.depth - 1 })
      else (.error (.tooDeep limits.maxDepth), s) := rfl
  have hdepth := hkeeps.depth { s with depth := s.depth + 1 }
  rw [hwatched, hstep, h]
  split
  · cases houtcome : step.run.run { s with depth := s.depth + 1 } with
    | mk r after =>
      rw [houtcome] at hdepth
      have hless : oneLess .depthBelowZero after.depth = .ok (after.depth - 1) := by
        rw [show after.depth = s.depth + 1 from hdepth]
        rfl
      show (oneLess .depthBelowZero after.depth >>= fun depth => .ok (r, { after with depth })) = _
      rw [hless]
      rfl
  · rfl

/-! ### Passes -/

/-- Reads a die, right after its letter, and takes back its count. -/
def Cursor.readDie (limits : Limits) (c : Conversion) (cur : Cursor) :
    Step ((Token × Conversion) × Cursor) := do
  let (sides, next) ← cur.readSides limits
  let (count, c) ← c.watchedCount
  let (keep, next) ← next.readKeep limits
  return ((.dice count sides keep, c), next)

/-- A cursor, and the conversion of what it has read. -/
structure Pass where
  cursor : Cursor
  conversion : Conversion

namespace Pass

def ofText (text : List Char) : Pass := ⟨.ofText text, {}⟩

/-- Takes in what comes after a minus that stands after no value: the integer there, or the minus alone
as the count of something else. -/
def takeNegated (cur : Cursor) (c : Conversion) : Cursor.Step Pass :=
  match cur.peek with
  | some .integer => do
    let (n, next) ← cur.readNumber
    return ⟨next, c.pushValue (.literal (-n))⟩
  | some kind =>
    if kind.isNegatable then return ⟨cur, c.pushValue (.literal (-1))⟩
    else throw (.misplacedOperator .sub)
  | none => throw (.misplacedOperator .sub)

def takeOperator (op : Operator) (p : Pass) : Cursor.Step Pass := do
  let next ← p.cursor.skip
  if p.conversion.afterValue then return ⟨next, p.conversion.pushOperator op⟩
  else if op = .sub ∧ next.hasNext then takeNegated next p.conversion
  else throw (.misplacedOperator op)

def takeInteger (p : Pass) : Cursor.Step Pass := do
  let (n, next) ← p.cursor.readNumber
  return ⟨next, p.conversion.pushValue (.literal n)⟩

def finish (p : Pass) : Cursor.Step Postfix :=
  match p.conversion.finish with
  | .error .empty =>
    if lex p.cursor.text = [] then throw .empty else liftM (Except.error Lapse.emptyWithLexemes)
  | .error e => throw e
  | .ok result => return result

section

variable {S : Type} [FormulaStore S] (formulas : S) (limits : Limits)

def takeDie (p : Pass) : Cursor.Step Pass := do
  let ((die, c), next) ← (← p.cursor.skip).readDie limits p.conversion
  let c ← c.pushNested limits die
  return ⟨next, c⟩

variable (body : List Char → WatchedM Postfix)

/-- Takes in a group, whose text is converted by `body`. -/
def takeGroup (p : Pass) : WatchedM Pass := do
  let (text, next) ← .ofCursor p.cursor.extractGroup
  let (multiplier, c) ← p.conversion.watchedCount
  .ofStep (report (.group text))
  let inner ← body text
  let c ← .ofExcept (c.pushNested limits (.group multiplier inner))
  return ⟨next, c⟩

/-- Takes in a reference. The expression of its formula is converted by `body`. -/
def takeReference (p : Pass) : WatchedM Pass := do
  let (name, next) ← p.cursor.readName
  match FormulaStore.find? formulas name with
  | none => throw (.unknownFormula name)
  | some formula =>
    let (multiplier, c) ← p.conversion.watchedCount
    .ofStep (report (.formula formula.name formula.expression))
    let inner ← watchedExpanding formula.name (body formula.expression.toList)
    let c ← .ofExcept (c.pushNested limits (.group multiplier inner))
    return ⟨next, c⟩

/-- Takes in the item that starts with the next lexeme, which is of some kind. -/
def take (p : Pass) : Kind → WatchedM Pass
  | .operator op => .ofCursor (p.takeOperator op)
  | .integer => .ofCursor p.takeInteger
  | .die => .ofCursor (p.takeDie limits)
  | .openParen => p.takeGroup limits body
  | .formula => p.takeReference formulas limits body
  | .closeParen => throw .mismatchedParentheses
  | .unclosedBracket => throw .mismatchedBrackets
  | .highest | .lowest | .unknown => do
    let c ← p.cursor.peekSymbol
    throw (.invalidSymbol c)

/-- Takes in one item after the other up to the end of the text. -/
def run (p : Pass) : WatchedM Postfix :=
  match p.cursor.peek with
  | none => .ofCursor p.finish
  | some kind => do
    .ofStep (report (.lexeme kind))
    let next ← p.take formulas limits body kind
    if next.cursor.ahead.length < p.cursor.ahead.length then next.run
    else .lapse .standstill
termination_by p.cursor.ahead.length

end

end Pass

section

variable {S : Type} [FormulaStore S] (formulas : S) (limits : Limits)

/-- Converts a text whose bodies are converted by `body`. -/
def watchedText (body : List Char → WatchedM Postfix) (text : List Char) : WatchedM Postfix := do
  let result ← (Pass.ofText text).run formulas limits body
  .ofStep (report (.converted text result))
  return result

/-- Converts a text that may take up `levels` levels of texts within texts, itself counted. -/
def watchedWithin : Nat → List Char → WatchedM Postfix
  | 0, _ => throw (.tooDeep limits.maxDepth)
  | levels + 1, text =>
    watchedText formulas limits (fun body => watchedNested limits (watchedWithin levels body)) text

/-- Reads a text under watch; also gives what the reader carries at the end. -/
def watchedParse (text : String) : Except Lapse (Except ParseError Postfix × ParseState) :=
  (watchedWithin formulas limits (limits.maxDepth + 1) text.toList).run.run {}

end

end DiceExpr
