import DiceExpr.Engine
import DiceExpr.Text.Space

/-!
# Dialogues

A dialogue takes one line after the other: a definition `[name] = expression` saves a formula, `:list`
shows the formulas, and any other line that is not blank is evaluated.
-/

namespace DiceExpr

/-- The formula that a line of the form `[name] = expression` defines. The name ends at the first
closing bracket, and the expression has no white space at its ends. -/
def definition? : List Char → Option Formula
  | '[' :: line =>
    match line.dropWhile isNameChar with
    | [] => none
    | _ :: after =>
      match Text.trimStart after with
      | '=' :: expression =>
        some ⟨String.ofList (line.takeWhile isNameChar), String.ofList (Text.trim expression)⟩
      | _ => none
  | _ => none

/-- The line that shows a formula, in the form of its definition. -/
def Formula.render (f : Formula) : String := s!"[{f.name}] = {f.expression}"

/-- What a dialogue prints in answer to a line. -/
structure Reply where
  output : List String := []
  errors : List String := []
  deriving DecidableEq

structure Transcript where
  output : String := ""
  errors : String := ""
  deriving DecidableEq

namespace Dialogue

def prompt : String := "> "

variable {σ : Type} [Roller σ]

def answer (e : Engine σ) (line : List Char) : Reply × Engine σ :=
  let line := Text.trim line
  if line = [':', 'l', 'i', 's', 't'] then ({ output := e.formulas.toList.map Formula.render }, e)
  else
    match definition? line with
    | some f =>
      match e.define f with
      | (none, after) => ({ output := [s!"[{f.name}] saved"] }, after)
      | (some why, after) =>
        ({ errors := [s!"Warning: [{f.name}] saved, but {why.message}"] }, after)
    | none =>
      if line.isEmpty then ({}, e)
      else
        let evaluation := e.evaluate (String.ofList line)
        match evaluation.result with
        | .ok total => ({ output := [toString total] }, evaluation.engine)
        | .error why => ({ errors := [s!"Error: {why.message}"] }, evaluation.engine)

/-- The lines of an input. What follows the last end of line is a line of its own unless it is
empty. -/
def lines (input : List Char) : List (List Char) :=
  match _h : input.dropWhile (· != '\n') with
  | [] => if input.isEmpty then [] else [input]
  | _ :: rest => input.takeWhile (· != '\n') :: lines rest
termination_by input.length
decreasing_by
  have whole := congrArg List.length (List.takeWhile_append_dropWhile (p := (· != '\n')) (l := input))
  rw [_h] at whole
  simp only [List.length_append, List.length_cons] at whole
  omega

def joinLines (lines : List String) : String :=
  String.join (lines.map (· ++ "\n"))

/-- Answers lines one after the other. Each line is prompted for. -/
def answerAll (e : Engine σ) (lines : List (List Char)) : Transcript × Engine σ :=
  lines.foldl (fun (printed, e) line =>
    let (reply, after) := answer e line
    (⟨printed.output ++ joinLines reply.output ++ prompt,
      printed.errors ++ joinLines reply.errors⟩, after))
    (⟨prompt, ""⟩, e)

def run (e : Engine σ) (input : String) : Transcript × Engine σ :=
  answerAll e (lines input.toList)

end Dialogue

end DiceExpr
