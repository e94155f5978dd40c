import DiceExpr.Roller

/-!
# Fair dice from random words

A die is rolled from a stream of 32-bit words by rejection: as many bits are drawn as the largest
index of a face needs, and drawn again while the number is past the last face. There is no bound on the
number of attempts. On a stream that gives numbers past the last face for ever, the draw has no end,
which reads as no result here.

Each attempt takes whole words, the least significant first. Of the last word only the high bits are
used when the number of bits is no multiple of 32.

## Main statements

* `Sampler.drawUpTo_eq`: one attempt, and what follows when it is refused.
* `Sampler.le_of_drawUpTo`: a number that is drawn is no larger than asked.
-/

namespace DiceExpr

/-- A state from which 32-bit words can be drawn. -/
class WordSource (σ : Type) where
  next : σ → UInt32 × σ

namespace Sampler

def wordSpan : Nat := 0x100000000

def wordCount (bits : Nat) : Nat := (bits + 31) / 32

/-- The number of bits that the numbers up to `n` take. -/
def bitLength (n : Nat) : Nat := if n = 0 then 0 else n.log2 + 1

/-- The number of `bits` bits that words stand for, the least significant first. Of the last word the
high bits count. -/
def assemble (bits : Nat) : List UInt32 → Nat
  | [] => 0
  | [w] => w.toNat >>> (32 - bits)
  | w :: ws => w.toNat + wordSpan * assemble (bits - 32) ws

section

variable {σ : Type} [WordSource σ]

def drawWords : Nat → σ → List UInt32 × σ
  | 0, s => ([], s)
  | n + 1, s =>
    let (w, s) := WordSource.next s
    let (ws, s) := drawWords n s
    (w :: ws, s)

def drawBits (bits : Nat) (s : σ) : Nat × σ :=
  let (ws, s) := drawWords (wordCount bits) s
  (assemble bits ws, s)

/-- The first number no larger than `max`, and the source after it. -/
def drawUpTo (max : Nat) (s : σ) : Option (Nat × σ) :=
  let drawn := drawBits (bitLength max) s
  if drawn.1 ≤ max then some drawn else by
    -- By `apply`, so that the definition does not keep where in this file the call stands.
    apply drawUpTo
    · exact max
    · exact drawn.2
partial_fixpoint

/-- Rolls a die, unless the source gives no face for ever. -/
def sample? (sides : Nat) (s : σ) : Option (Nat × σ) :=
  (drawUpTo (sides - 1) s).map fun (x, s) => (x + 1, s)

theorem drawUpTo_eq (max : Nat) (s : σ) :
    drawUpTo max s =
      if (drawBits (bitLength max) s).1 ≤ max then some (drawBits (bitLength max) s)
      else drawUpTo max (drawBits (bitLength max) s).2 := by
  rw [drawUpTo]

theorem le_of_drawUpTo {max : Nat} {s : σ} {r : Nat × σ} (h : drawUpTo max s = some r) :
    r.1 ≤ max := by
  refine drawUpTo.partial_correctness max (fun _ r => r.1 ≤ max) ?_ s r h
  intro later ih s r h
  simp only at h
  split at h
  · next hle =>
    cases h
    exact hle
  · exact ih _ r h

end

end Sampler

/-- A source of words rolls dice by rejection. A source that gives no face for ever shows a one. -/
instance {σ : Type} [WordSource σ] : Roller σ where
  roll sides s := (Sampler.sample? sides s).getD (1, s)

instance {σ : Type} [WordSource σ] : LawfulRoller σ where
  one_le_roll sides s _ := by
    simp only [Roller.roll, Sampler.sample?]
    cases Sampler.drawUpTo (sides - 1) s <;> simp
  roll_le sides s h := by
    simp only [Roller.roll, Sampler.sample?]
    cases hr : Sampler.drawUpTo (sides - 1) s with
    | none => exact h
    | some r =>
      have hle := Sampler.le_of_drawUpTo hr
      simp only [Option.map_some, Option.getD_some]
      omega

end DiceExpr
