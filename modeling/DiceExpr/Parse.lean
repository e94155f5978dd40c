import DiceExpr.Conversion
import DiceExpr.Event
import DiceExpr.Formulas
import DiceExpr.Item

/-!
# Reading expressions

A text is converted to postfix order in one pass over its items. The body of a group or of a formula
is a text of its own, converted one level further down, and a counter says how far down a reader is. A
formula whose body is being converted is active, and a reference to it from within is refused.

## Main statements

* `active_expanding`: expanding a formula leaves the active formulas as they were.
* `depth_nested`: going down a level leaves the counter as it was.
* `convertWithin_succ`: a text is converted with one level less for the bodies in it.
-/

namespace DiceExpr

/-- What a reader carries along. -/
structure ParseState where
  /-- The names of the formulas being expanded, innermost first. -/
  active : List String := []
  /-- How many bodies are being converted, each of them inside the one before. -/
  depth : Nat := 0
  /-- What was reported, newest first. -/
  events : List Event := []
  deriving DecidableEq

/-- A step of reading, which may fail and keeps its state even then. -/
abbrev ParseM := ExceptT ParseError (StateM ParseState)

def report (e : Event) : ParseM Unit :=
  modify fun s => { s with events := e :: s.events }

/-- Runs a step while a formula is active, unless that formula is active already. -/
def expanding (name : String) (step : ParseM Postfix) : ParseM Postfix :=
  ExceptT.mk fun s =>
    if name ∈ s.active then (.error (.selfReferentialFormula name), s)
    else
      let outcome := step.run { s with active := name :: s.active }
      (outcome.1, { outcome.2 with active := outcome.2.active.tail })

/-- A formula that was expanded is active no longer, whatever came of it. -/
theorem active_expanding {name : String} {step : ParseM Postfix}
    (kept : ∀ s, (step.run.run s).2.active = s.active) (s : ParseState) :
    ((expanding name step).run.run s).2.active = s.active := by
  simp only [expanding, ExceptT.run_mk, StateT.run]
  split
  · rfl
  · exact congrArg List.tail (kept { s with active := name :: s.active })

/-- Runs a step one level further down, unless the limits do not let a reader go there. -/
def nested (limits : Limits) (step : ParseM Postfix) : ParseM Postfix :=
  ExceptT.mk fun s =>
    if s.depth + 1 ≤ limits.maxDepth then
      let outcome := step.run { s with depth := s.depth + 1 }
      (outcome.1, { outcome.2 with depth := outcome.2.depth - 1 })
    else (.error (.tooDeep limits.maxDepth), s)

/-- A level that was gone down is left again, whatever came of it. -/
theorem depth_nested {limits : Limits} {step : ParseM Postfix}
    (kept : ∀ s, (step.run.run s).2.depth = s.depth) (s : ParseState) :
    ((nested limits step).run.run s).2.depth = s.depth := by
  simp only [nested, ExceptT.run_mk, StateT.run]
  split
  · exact congrArg (· - 1) (kept { s with depth := s.depth + 1 })
  · rfl

section

variable {S : Type} [FormulaStore S] (formulas : S) (limits : Limits)

/-- Converts the text between two parentheses by `body`, and adds the group that it makes. -/
def convertGroup (body : List Char → ParseM Postfix) (text : List Char) (c : Conversion) :
    ParseM Conversion := do
  let (multiplier, c) := c.takeCount
  report (.group text)
  let inner ← body text
  c.pushNested limits (.group multiplier inner)

/-- Converts the expression that a name refers to by `body`, and adds the group that it makes. -/
def convertReference (body : List Char → ParseM Postfix) (name : String) (c : Conversion) :
    ParseM Conversion := do
  match FormulaStore.find? formulas name with
  | none => throw (.unknownFormula name)
  | some formula =>
    let (multiplier, c) := c.takeCount
    report (.formula formula.name formula.expression)
    let inner ← expanding formula.name (body formula.expression.toList)
    c.pushNested limits (.group multiplier inner)

/-- Goes on with a conversion over the items of a text to the end. Texts inside are converted by
`body`. -/
def convertItems (body : List Char → ParseM Postfix) : List Item → Conversion → ParseM Postfix
  | [], c => c.finish
  | item :: rest, c => do
    report (.lexeme item.lead)
    match item with
    | .operator op =>
      if c.afterValue then convertItems body rest (c.pushOperator op)
      else
        match op, rest with
        | .sub, .integer n :: later => convertItems body later (c.pushValue (.literal (-n)))
        | .sub, next :: later =>
          if next.lead.isNegatable then
            convertItems body (next :: later) (c.pushValue (.literal (-1)))
          else throw (.misplacedOperator op)
        | _, _ => throw (.misplacedOperator op)
    | .integer n => convertItems body rest (c.pushValue (.literal n))
    | .die sides keep =>
      let (count, c) := c.takeCount
      convertItems body rest (← c.pushNested limits (.dice count sides keep))
    | .group text => convertItems body rest (← convertGroup limits body text c)
    | .reference name => convertItems body rest (← convertReference formulas limits body name c)
    | .fault _ error => throw error

/-- Converts a text whose bodies are converted by `body`. -/
def convertText (body : List Char → ParseM Postfix) (text : List Char) : ParseM Postfix := do
  let result ← convertItems formulas limits body (items limits text) {}
  report (.converted text result)
  return result

/-- Converts a text that may take up `levels` levels of texts within texts, itself counted. -/
def convertWithin : Nat → List Char → ParseM Postfix
  | 0, _ => throw (.tooDeep limits.maxDepth)
  | levels + 1, text =>
    convertText formulas limits (fun body => nested limits (convertWithin levels body)) text

theorem convertWithin_succ (levels : Nat) :
    convertWithin formulas limits (levels + 1) =
      convertText formulas limits
        fun body => nested limits (convertWithin formulas limits levels body) := rfl

/-- Converts a text, from wherever a reader is. With one level more than the counter leaves, it is
always the counter that stops a reader. -/
def convert (text : List Char) : ParseM Postfix :=
  ExceptT.mk fun s =>
    (convertWithin formulas limits (limits.maxDepth - s.depth + 1) text).run.run s

theorem run_convert (text : List Char) (s : ParseState) :
    (convert formulas limits text).run.run s =
      (convertWithin formulas limits (limits.maxDepth - s.depth + 1) text).run.run s := by
  simp only [convert, ExceptT.run_mk, StateT.run]

/-- Converts a text one level further down. -/
def convertBody (text : List Char) : ParseM Postfix :=
  nested limits (convert formulas limits text)

/-- Reads a text; also gives what the reader carries at the end. -/
def runParse (text : String) : Except ParseError Postfix × ParseState :=
  (convert formulas limits text.toList).run.run {}

/-- Reads a text as an expression whose references are looked up in a store. -/
def parse (text : String) : Except ParseError Postfix :=
  (runParse formulas limits text).1

def parseEvents (text : String) : List Event :=
  (runParse formulas limits text).2.events.reverse

end

end DiceExpr
