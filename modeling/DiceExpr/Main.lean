import DiceExpr.Dialogue
import DiceExpr.Roller.Generator

/-!
# The command line

A dialogue on the standard streams, with dice from a generator that is seeded anew for each run.
-/

namespace DiceExpr

/-- A seed from the system's source of random bytes. -/
def randomSeed : IO Nat := do
  let bytes ← IO.getRandomBytes 8
  return bytes.foldl (fun seed byte => 256 * seed + byte.toNat) 0

/-- Takes lines and answers them until the input ends. -/
partial def converse (input output errors : IO.FS.Stream) (e : Engine StdGen) : IO Unit := do
  output.putStr Dialogue.prompt
  output.flush
  let line ← input.getLine
  unless line.isEmpty do
    let (reply, after) := Dialogue.answer e line.toList
    output.putStr (Dialogue.joinLines reply.output)
    errors.putStr (Dialogue.joinLines reply.errors)
    converse input output errors after

end DiceExpr

def main : IO Unit := do
  let e : DiceExpr.Engine StdGen := { roller := mkStdGen (← DiceExpr.randomSeed) }
  DiceExpr.converse (← IO.getStdin) (← IO.getStdout) (← IO.getStderr) e
