import DiceExpr.Proofs.Endings
import DiceExpr.Proofs.Kept

/-!
# Bounds of values

Where all counts are numbers and nothing is divided, the least and the greatest value of a sequence can be
worked out on intervals in place of values: on a stack of intervals, token by token. A die shows at least
a one and at most its number of faces, so dice are between as many as are kept and that many times the
faces. A body that is worked out some times is between that many times its bounds. Whatever is rolled, the
value is within the bounds.

## Main definitions

* `Interval`: the integers between two, with the sums, differences and products of intervals.
* `Postfix.range?`: the bounds of a sequence.

## Main statements

* `Interval.mul_mem_mul`: products are between the products of the ends.
* `ends_rollDice_within`, `Token.ends_within`: what is rolled is within its bounds, one token at a time.
* `value_mem_range`: the value of a sequence is within its bounds.
-/

namespace DiceExpr

/-! ### Intervals -/

/-- The integers from `lo` to `hi`. -/
structure Interval where
  lo : Int
  hi : Int
  deriving DecidableEq

namespace Interval

instance : Membership Int Interval := ⟨fun r a => r.lo ≤ a ∧ a ≤ r.hi⟩

def point (a : Int) : Interval := ⟨a, a⟩

def add (r q : Interval) : Interval := ⟨r.lo + q.lo, r.hi + q.hi⟩

def sub (r q : Interval) : Interval := ⟨r.lo - q.hi, r.hi - q.lo⟩

def neg (r : Interval) : Interval := ⟨-r.hi, -r.lo⟩

/-- From the least to the greatest product of the ends. -/
def mul (r q : Interval) : Interval where
  lo := min (min (r.lo * q.lo) (r.lo * q.hi)) (min (r.hi * q.lo) (r.hi * q.hi))
  hi := max (max (r.lo * q.lo) (r.lo * q.hi)) (max (r.hi * q.lo) (r.hi * q.hi))

/-- The sums of `n` members. -/
def times (n : Nat) (r : Interval) : Interval := ⟨n * r.lo, n * r.hi⟩

/-- An interval with the sign of a number: negated for a negative one. -/
def withSignOf (sign : Int) (r : Interval) : Interval := if sign < 0 then r.neg else r

/-- The interval that an operator makes of two. A quotient is given none. -/
def combine? : Operator → Interval → Interval → Option Interval
  | .add, r, q => some (r.add q)
  | .sub, r, q => some (r.sub q)
  | .mul, r, q => some (r.mul q)
  | .div, _, _ => none

/-- The bounds of a roll of dice: each die that is kept shows at least one and at most its faces. -/
def ofDice (count sides : Int) (keep : Keep) : Interval :=
  let kept := keep.size count.natAbs
  withSignOf count ⟨kept, kept * sides⟩

variable {r q : Interval} {a b : Int}

theorem mem_iff : a ∈ r ↔ r.lo ≤ a ∧ a ≤ r.hi := Iff.rfl

theorem mem_point (a : Int) : a ∈ point a := ⟨Int.le_refl a, Int.le_refl a⟩

theorem add_mem_add (ha : a ∈ r) (hb : b ∈ q) : a + b ∈ r.add q := by
  obtain ⟨hla, hha⟩ := ha
  obtain ⟨hlb, hhb⟩ := hb
  exact ⟨Int.add_le_add hla hlb, Int.add_le_add hha hhb⟩

theorem sub_mem_sub (ha : a ∈ r) (hb : b ∈ q) : a - b ∈ r.sub q := by
  obtain ⟨hla, hha⟩ := ha
  obtain ⟨hlb, hhb⟩ := hb
  exact ⟨Int.sub_le_sub hla hhb, Int.sub_le_sub hha hlb⟩

theorem neg_mem_neg (ha : a ∈ r) : -a ∈ r.neg :=
  ⟨Int.neg_le_neg ha.2, Int.neg_le_neg ha.1⟩

/-- A product with a member is between the products with the ends, in one order or the other. -/
theorem mul_between (ha : a ∈ r) (b : Int) :
    min (r.lo * b) (r.hi * b) ≤ a * b ∧ a * b ≤ max (r.lo * b) (r.hi * b) := by
  obtain ⟨hlo, hhi⟩ := ha
  rcases Int.le_total 0 b with hb | hb
  · have hleft : r.lo * b ≤ a * b := Int.mul_le_mul_of_nonneg_right hlo hb
    have hright : a * b ≤ r.hi * b := Int.mul_le_mul_of_nonneg_right hhi hb
    omega
  · have hleft : a * b ≤ r.lo * b := Int.mul_le_mul_of_nonpos_right hlo hb
    have hright : r.hi * b ≤ a * b := Int.mul_le_mul_of_nonpos_right hhi hb
    omega

theorem mul_mem_mul (ha : a ∈ r) (hb : b ∈ q) : a * b ∈ r.mul q := by
  -- First `a` is moved to an end of its interval, then `b` to one of its own.
  have hboth := mul_between ha b
  have hlo := mul_between hb r.lo
  have hhi := mul_between hb r.hi
  simp only [Int.mul_comm _ r.lo, Int.mul_comm _ r.hi] at hlo hhi
  rw [mem_iff]
  simp only [mul]
  omega

theorem withSignOf_mem (sign : Int) (ha : a ∈ r) : DiceExpr.withSignOf sign a ∈ r.withSignOf sign := by
  simp only [DiceExpr.withSignOf, withSignOf]
  split
  · exact neg_mem_neg ha
  · exact ha

theorem add_mem_times_succ {n : Nat} (ha : a ∈ r) (hb : b ∈ r.times n) : a + b ∈ r.times (n + 1) := by
  have hsum : r.times (n + 1) = r.add (r.times n) := by
    simp only [times, add, Int.natCast_succ, Int.add_mul, Int.one_mul, Int.add_comm]
  rw [hsum]
  exact add_mem_add ha hb

theorem combine_mem {op : Operator} {value : Int} (ha : a ∈ r) (hb : b ∈ q) (hop : op ≠ .div)
    (h : op.apply a b = some value) : ∃ s, combine? op r q = some s ∧ value ∈ s := by
  cases op with
  | add =>
    cases h
    exact ⟨_, rfl, add_mem_add ha hb⟩
  | sub =>
    cases h
    exact ⟨_, rfl, sub_mem_sub ha hb⟩
  | mul =>
    cases h
    exact ⟨_, rfl, mul_mem_mul ha hb⟩
  | div => exact absurd rfl hop

end Interval

/-- The bounds that are left on a stack of one. -/
def Interval.only? : List Interval → Option Interval
  | [r] => some r
  | _ => none

/-! ### Bounds of sequences -/

/-- The number that a sequence of nothing else is. -/
def Postfix.number? : Postfix → Option Int
  | .single (.literal n) => some n
  | _ => none

mutual

/-- The bounds on a stack after a token. A body that is never worked out adds nothing, whatever it is. -/
def Token.bounds? : Token → List Interval → Option (List Interval)
  | .literal n, stack => some (.point n :: stack)
  | .operator op, q :: r :: stack => (Interval.combine? op r q).map (· :: stack)
  | .operator _, _ => none
  | .dice count sides keep, stack => count.number?.map fun n => .ofDice n sides keep :: stack
  | .group multiplier body, stack =>
    match multiplier.number? with
    | none => none
    | some n =>
      if n = 0 then some (.point 0 :: stack)
      else ((body.bounds? []).bind Interval.only?).map fun r =>
        (r.times n.natAbs).withSignOf n :: stack

def Postfix.bounds? : Postfix → List Interval → Option (List Interval)
  | .single t, stack => t.bounds? stack
  | .cons t rest, stack => (t.bounds? stack).bind fun after => rest.bounds? after

end

/-- The bounds of a sequence. -/
def Postfix.range? (p : Postfix) : Option Interval := (p.bounds? []).bind Interval.only?

mutual

/-- A token in which nothing is divided, and all counts are numbers. -/
def Token.IsStatic : Token → Prop
  | .literal _ => True
  | .operator op => op ≠ .div
  | .dice count _ _ => ∃ n, count = .literal n
  | .group multiplier body => (∃ n, multiplier = .literal n) ∧ body.IsStatic

def Postfix.IsStatic : Postfix → Prop
  | .single t => t.IsStatic
  | .cons t rest => t.IsStatic ∧ rest.IsStatic

end

/-! ### Rolls within bounds -/

/-- A stack of values, each of them within its bounds. -/
def Within : List Int → List Interval → Prop := List.Forall₂ (· ∈ ·)

section

variable {σ : Type} {M : Nat → Prop} {stack : List Int} {ranges : List Interval}

theorem endsIn_settle_within (hM : ∀ n, M n) (h : Within stack ranges) :
    EndsIn M (fun v => ∃ r, Interval.only? ranges = some r ∧ v ∈ r) (settle stack) := by
  cases h with
  | nil => exact fun n _ => hM n
  | cons hv hrest =>
    cases hrest with
    | nil => exact ⟨_, rfl, hv⟩
    | cons => exact fun n _ => hM n

theorem ends_settle_within (hM : ∀ n, M n) {step : RollM σ (List Int)} {bounds : Option (List Interval)}
    (h : Ends M (fun stack => ∃ ranges, bounds = some ranges ∧ Within stack ranges) step) :
    Ends M (fun v => ∃ r, bounds.bind Interval.only? = some r ∧ v ∈ r) (do settle (← step)) := by
  refine h.bind ?_
  rintro stack ⟨ranges, rfl, hwithin⟩
  exact .lift (endsIn_settle_within hM hwithin)

theorem endsIn_applyOnStack_within (hM : ∀ n, M n) {op : Operator} (hop : op ≠ .div)
    (h : Within stack ranges) :
    EndsIn M (fun next => ∃ after, (Token.operator op).bounds? ranges = some after ∧ Within next after)
      (applyOnStack op stack) := by
  cases h with
  | nil => exact fun n _ => hM n
  | cons hb hrest =>
    cases hrest with
    | nil => exact fun n _ => hM n
    | @cons a r _ _ ha hrest =>
      simp only [applyOnStack]
      split
      · next value happly =>
        obtain ⟨s, hs, hmem⟩ := Interval.combine_mem ha hb hop happly
        refine ⟨_, ?_, .cons hmem hrest⟩
        simp only [Token.bounds?, hs, Option.map_some]
      · exact fun n _ => hM n

/-- A loop over a body that has bounds stays within as many times the bounds. A body without bounds that
has no value either ends the loop at once. -/
theorem ends_sumTimes_within {step : RollM σ Int} {range : Option Interval}
    (h : Ends M (fun v => ∃ r, range = some r ∧ v ∈ r) step) (n : Nat) (total : Int) :
    Ends M (fun after => (n ≠ 0 → ∃ r, range = some r) ∧
      ∀ r, range = some r → after - total ∈ r.times n) (sumTimes step n total) := by
  induction n generalizing total with
  | zero =>
    refine .pure ⟨absurd rfl, fun r _ => ?_⟩
    rw [Int.sub_self, Interval.mem_iff]
    simp [Interval.times]
  | succ n ih =>
    refine h.bind ?_
    rintro v ⟨r, hr, hv⟩
    refine (ih (total + v)).mono ?_
    rintro after ⟨-, hafter⟩
    refine ⟨fun _ => ⟨r, hr⟩, fun q hq => ?_⟩
    obtain rfl : r = q := Option.some.inj (hr.symm.trans hq)
    have hmem := Interval.add_mem_times_succ hv (hafter r hr)
    rwa [show v + (after - (total + v)) = after - total by omega] at hmem

variable [Roller σ]

theorem Roller.faces_rollMany [LawfulRoller σ] {sides : Nat} (h : 0 < sides) (n : Nat) (s : σ) :
    ∀ x ∈ (rollMany sides n s).1, 1 ≤ x ∧ x ≤ sides := by
  induction n generalizing s with
  | zero => simp
  | succ n ih =>
    rw [rollMany_succ]
    refine List.forall_mem_cons.2 ⟨?_, ih _⟩
    exact ⟨LawfulRoller.one_le_roll sides s h, LawfulRoller.roll_le sides s h⟩

variable (limits : Limits)

theorem ends_rollDice_within [LawfulRoller σ] (hM : ∀ n, M n) (count sides : Int) (keep : Keep) :
    Ends M (· ∈ Interval.ofDice count sides keep) (rollDice limits count sides keep : RollM σ Int) := by
  intro s
  rw [run_rollDice]
  split
  · exact fun n _ => hM n
  · split
    · exact fun n _ => hM n
    · next hsides =>
      have hfaces := Roller.faces_rollMany (show 0 < sides.toNat by omega) count.natAbs s.roller
      obtain ⟨hlow, hhigh⟩ := Keep.total_bounds hfaces keep
      rw [Roller.length_rollMany] at hlow hhigh
      refine Interval.withSignOf_mem count ⟨Int.ofNat_le.2 hlow, ?_⟩
      have hcast : ((sides.toNat : Nat) : Int) = sides := by omega
      rw [← hcast, ← Int.natCast_mul]
      exact Int.ofNat_le.2 hhigh

mutual

theorem Token.ends_within [LawfulRoller σ] (hM : ∀ n, M n) (t : Token) (ht : t.IsStatic)
    {stack : List Int} {ranges : List Interval} (h : Within stack ranges) :
    Ends M (fun next => ∃ after, t.bounds? ranges = some after ∧ Within next after)
      (t.run limits stack : RollM σ (List Int)) := by
  cases t with
  | literal n => exact .pure ⟨_, rfl, .cons (Interval.mem_point n) h⟩
  | operator op => exact .lift (endsIn_applyOnStack_within hM ht h)
  | dice count sides keep =>
    obtain ⟨n, rfl⟩ := ht
    refine (ends_rollDice_within limits hM n sides keep).bind fun total htotal => ?_
    exact .pure ⟨_, rfl, .cons htotal h⟩
  | group multiplier body =>
    obtain ⟨⟨n, rfl⟩, hbody⟩ := ht
    by_cases hn : n = 0
    · subst hn
      exact .pure ⟨_, rfl, .cons (Interval.mem_point 0) h⟩
    · have hvalue := ends_settle_within hM (body.ends_within hM hbody .nil)
      refine (ends_sumTimes_within hvalue n.natAbs 0).bind ?_
      rintro total ⟨hsome, htimes⟩
      obtain ⟨r, hr⟩ := hsome (Int.natAbs_ne_zero.2 hn)
      have hmem := Interval.withSignOf_mem n (htimes r hr)
      rw [Int.sub_zero] at hmem
      refine .pure ⟨_, ?_, .cons hmem h⟩
      simp only [Token.bounds?, Postfix.number?, Postfix.literal, hn, hr, Option.map_some, ↓reduceIte]

theorem Postfix.ends_within [LawfulRoller σ] (hM : ∀ n, M n) (p : Postfix) (hp : p.IsStatic)
    {stack : List Int} {ranges : List Interval} (h : Within stack ranges) :
    Ends M (fun next => ∃ after, p.bounds? ranges = some after ∧ Within next after)
      (p.run limits stack : RollM σ (List Int)) := by
  cases p with
  | single t => exact t.ends_within hM hp h
  | cons t rest =>
    refine (t.ends_within hM hp.1 h).bind ?_
    rintro next ⟨after, hafter, hnext⟩
    simp only [Postfix.bounds?, hafter, Option.bind_some]
    exact rest.ends_within hM hp.2 hnext

end

/-- Where nothing is divided and all counts are numbers, whatever value is rolled is within the bounds of
the sequence. -/
theorem value_mem_range [LawfulRoller σ] {p : Postfix} (hp : p.IsStatic) (roller : σ) {v : Int}
    (h : (p.roll limits roller).1 = .ok v) : ∃ r, p.range? = some r ∧ r.lo ≤ v ∧ v ≤ r.hi := by
  have hend := ends_settle_within (fun _ => trivial) (M := fun _ => True)
    (p.ends_within (σ := σ) limits (fun _ => trivial) hp .nil) { roller }
  have hvalue : ((p.value limits).run.run { roller }).1 = .ok v := h
  rw [Postfix.value] at hvalue
  rw [hvalue] at hend
  exact hend

end

/-- Two rounds of three dice less one, with the sign turned. -/
def minusTwoRounds : Postfix :=
  .single (.group (.literal (-2)) (.cons (.dice (.literal 3) 6 .all)
    (.cons (.literal 1) (.single (.operator .sub)))))

/-- Rolling one to six in turn, the rounds make five and then fourteen. -/
theorem value_mem_range_minusTwoRounds :
    minusTwoRounds.IsStatic ∧ (minusTwoRounds.roll {} ({} : Stepping)).1 = .ok (-19) ∧
      minusTwoRounds.range? = some ⟨-34, -4⟩ ∧
      ∃ r, minusTwoRounds.range? = some r ∧ r.lo ≤ -19 ∧ -19 ≤ r.hi := by
  have hstatic : minusTwoRounds.IsStatic := ⟨⟨-2, rfl⟩, ⟨3, rfl⟩, trivial, nofun⟩
  have hroll : (minusTwoRounds.roll {} ({} : Stepping)).1 = .ok (-19) := by decide +kernel
  exact ⟨hstatic, hroll, by decide +kernel, value_mem_range {} hstatic _ hroll⟩

end DiceExpr
