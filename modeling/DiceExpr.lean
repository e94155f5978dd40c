import DiceExpr.Operator
import DiceExpr.Keep
import DiceExpr.Limits
import DiceExpr.Formulas
import DiceExpr.Text.Alphabetic
import DiceExpr.Text.GraphemeExtend
import DiceExpr.Text.Ignorable
import DiceExpr.Text.Unprintable
import DiceExpr.Text.Space
import DiceExpr.Text.Quoted
import DiceExpr.Lexeme
import DiceExpr.ParseError
import DiceExpr.RollError
import DiceExpr.Postfix
import DiceExpr.Item
import DiceExpr.Event
import DiceExpr.Parse
import DiceExpr.Roller.Record
import DiceExpr.Roller.Scripted
import DiceExpr.Evaluation
import DiceExpr.Dialogue
import DiceExpr.Json.Forms
import DiceExpr.Main
import DiceExpr.Proofs.Grouping
import DiceExpr.Proofs.Grammar
import DiceExpr.Proofs.Items
import DiceExpr.Proofs.Outcome
import DiceExpr.Proofs.Comparison
import DiceExpr.Proofs.Operands
import DiceExpr.Proofs.Reading
import DiceExpr.Proofs.Values
import DiceExpr.Proofs.References
import DiceExpr.Proofs.Expansion
import DiceExpr.Proofs.Subtokens
import DiceExpr.Proofs.Refusals
import DiceExpr.Proofs.Nesting
import DiceExpr.Proofs.Shape
import DiceExpr.Proofs.Endings
import DiceExpr.Proofs.Sampling
import DiceExpr.Proofs.Kept
import DiceExpr.Proofs.Calls
import DiceExpr.Proofs.Agreement
import DiceExpr.Proofs.Definitions
import DiceExpr.Proofs.Listing
import DiceExpr.Proofs.Carried
import DiceExpr.Proofs.Saved
import DiceExpr.Proofs.Lockstep
import DiceExpr.Proofs.Negation
import DiceExpr.Proofs.Repetition
import DiceExpr.Proofs.Curtailed
import DiceExpr.Proofs.Spelling
import DiceExpr.Proofs.Rendering
import DiceExpr.Proofs.Rereading
import DiceExpr.Proofs.Heights
import DiceExpr.Proofs.Bounds
import DiceExpr.Proofs.Lines
import DiceExpr.Proofs.Reports
import DiceExpr.Proofs.Cursors
import DiceExpr.Proofs.Watched
import DiceExpr.Proofs.Passes
import DiceExpr.Proofs.Lapses
import DiceExpr.Proofs.JsonForms
