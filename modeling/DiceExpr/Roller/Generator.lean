import DiceExpr.Roller.Sampler

/-!
# Pseudorandom words

The standard generator as a source of 32-bit words.
-/

namespace DiceExpr

instance : WordSource StdGen where
  next g :=
    let (n, g) := randNat g 0 (Sampler.wordSpan - 1)
    (UInt32.ofNat n, g)

end DiceExpr
