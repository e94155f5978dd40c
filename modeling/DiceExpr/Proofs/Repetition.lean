import DiceExpr.Proofs.Expansion
import DiceExpr.Proofs.Lockstep
import DiceExpr.Proofs.Refusals

/-!
# Repetition

A number before a text in parentheses says how often the text is worked out. Working it out `m + n`
times in one group is working it out `m` times and then `n` times in two groups that are added: the dice
are rolled anew each time and in the same order, and an error comes up at the same turn. All of these
texts nest one level deeper than the text in the parentheses, so they are read or refused together.

## Main definitions

* `repetition`, `summed`: a text repeated by a number, and written out as a sum.

## Main statements

* `sumTimes_add`: a loop may be cut in two.
* `Pushes.sum`: what two sequences push, added.
* `repetition_additive`: the statement for whole texts.
-/

namespace DiceExpr

open Lexeme

/-- A text in parentheses, with a number before them. -/
def repetition (n : Nat) (body : String) : String := s!"{n}({body})"

/-- A text in parentheses, followed by `more` additions of the same. -/
def summed (body : String) : Nat → String
  | 0 => s!"({body})"
  | more + 1 => s!"{summed body more}+({body})"

example : repetition 12 "d6" = "12(d6)" := by decide

example : summed "d6" 2 = "(d6)+(d6)+(d6)" := by decide

/-! ### Derivations -/

/-- An expression repeated by a number. -/
def Expression.times (n : Nat) (x : Expression) : Operand :=
  .more (.first false (.integer n)) (.group x)

def Expression.summed (x : Expression) : Nat → Expression
  | 0 => .operand (.first false (.group x))
  | more + 1 => .binary (x.summed more) .add (.first false (.group x))

section

variable {S : Type} [FormulaStore S] {formulas : S} {limits : Limits} {active : List String}
  {body : List Char} {x : Expression}

theorem derives_parenthesized (h : DerivesExpression formulas limits active (lex body) x [])
    (rest : List Char) :
    DerivesPart formulas limits active (lex ('(' :: (body ++ ')' :: rest))) (.group x) (lex rest) := by
  obtain ⟨blanks, -, hlex⟩ := lex_parenthesized rest h.span.closed
  have hopen := lex_openParen (List.forall_mem_nil _) (body ++ ')' :: rest)
  rw [List.nil_append] at hopen
  rw [hopen, hlex]
  exact .group rfl h rfl

theorem derives_times (h : DerivesExpression formulas limits active (lex body) x []) {gap : List Char}
    (hgap : ∀ c ∈ gap, isBlank c = true) (n : Nat) (rest : List Char) :
    DerivesOperand formulas limits active
      (lex (gap ++ ((toString n).toList ++ '(' :: (body ++ ')' :: rest)))) (x.times n) (lex rest) := by
  have hdigit : ∀ c, ('(' :: (body ++ ')' :: rest)).head? = some c → c.isDigit = false :=
    head_not_digit (List.forall_mem_nil _) rfl
  obtain ⟨l, -, kind, rfl, hlex⟩ := lex_number hgap n hdigit
  rw [hlex]
  exact .more (.first (.integer kind)) (derives_parenthesized h rest)

theorem derives_plus {before rest after gap : List Char} {y : Operand}
    (hgap : ∀ c ∈ gap, isBlank c = true)
    (hx : DerivesExpression formulas limits active (lex before) x (lex (gap ++ '+' :: rest)))
    (hy : DerivesOperand formulas limits active (lex rest) y (lex after)) :
    DerivesExpression formulas limits active (lex before) (.binary x .add y) (lex after) := by
  have hplus : lex (gap ++ '+' :: rest) = ⟨gap, .operator .add, '+', []⟩ :: lex rest :=
    lex_operator hgap .add rest
  rw [hplus] at hx
  exact .binary hx rfl hy

theorem toList_summed_succ (text : String) (more : Nat) (rest : List Char) :
    (DiceExpr.summed text (more + 1)).toList ++ rest =
      (DiceExpr.summed text more).toList ++ '+' :: '(' :: (text.toList ++ ')' :: rest) := by
  simp [DiceExpr.summed, toString]

theorem derives_summed {text : String}
    (h : DerivesExpression formulas limits active (lex text.toList) x []) (more : Nat)
    (rest : List Char) :
    DerivesExpression formulas limits active (lex ((summed text more).toList ++ rest))
      (x.summed more) (lex rest) := by
  induction more generalizing rest with
  | zero =>
    have htext : (summed text 0).toList ++ rest = '(' :: (text.toList ++ ')' :: rest) := by
      simp [summed, toString]
    rw [htext]
    exact .operand (.first (derives_parenthesized h rest))
  | succ more ih =>
    rw [toList_summed_succ]
    exact derives_plus (List.forall_mem_nil _) (ih _) (.first (derives_parenthesized h rest))

/-- What derives an expression is read as its sequence, unless that nests too deep. -/
theorem parse_of_derives {text : String}
    (h : DerivesExpression formulas limits [] (lex text.toList) x []) :
    parse formulas limits text =
      if x.toPostfix.depth ≤ limits.maxDepth then .ok x.toPostfix
      else .error (.tooDeep limits.maxDepth) := by
  -- Limits that are deep enough let the text be read, and only the depth is lowered from there.
  let large : Limits := { limits with maxDepth := max limits.maxDepth x.toPostfix.depth }
  have hwithin : limits.Within large := ⟨Nat.le_refl _, Nat.le_refl _, Nat.le_max_left _ _⟩
  have hdepth : x.toPostfix.depth ≤ large.maxDepth := Nat.le_max_right _ _
  have hread : parse formulas large text = .ok x.toPostfix := by
    rw [parse_eq_outcomeWithin]
    exact outcome_of_derives (x.derives_withDepth h large.maxDepth) hdepth hdepth
  exact parse_eq_of_depth hwithin rfl rfl hread

/-! ### Texts that are repeated -/

/-- A sequence that a text is read as if a body nests less deep than the limits allow. -/
def ReadAbove (formulas : S) (limits : Limits) (body : Postfix) (text : String) (q : Postfix) : Prop :=
  parse formulas limits text =
    if body.depth < limits.maxDepth then .ok q else .error (.tooDeep limits.maxDepth)

theorem readAbove_of_derives {text : String} {p : Postfix} {y : Expression}
    (h : DerivesExpression formulas limits [] (lex text.toList) y [])
    (hdepth : y.toPostfix.depth ≤ limits.maxDepth ↔ p.depth < limits.maxDepth) :
    ReadAbove formulas limits p text y.toPostfix := by
  rw [ReadAbove, parse_of_derives h]
  simp only [hdepth]

theorem depth_sum_le_iff {p q : Postfix} {bound : Nat} {body : Nat}
    (hp : p.depth ≤ bound ↔ body < bound) (hq : q.depth ≤ bound ↔ body < bound) :
    (p.append (q.append (.single (.operator .add)))).depth ≤ bound ↔ body < bound := by
  rw [Postfix.depth_append_le_iff, Postfix.depth_append_le_iff, hp, hq]
  simp [Postfix.depth, Token.depth]

theorem readAbove_repetition {text : String}
    (h : DerivesExpression formulas limits [] (lex text.toList) x []) (n : Nat) :
    ReadAbove formulas limits x.toPostfix (repetition n text)
      (.single (.group (.literal n) x.toPostfix)) := by
  have htimes := derives_times h (List.forall_mem_nil _) n []
  have htext : (repetition n text).toList =
      [] ++ ((toString n).toList ++ '(' :: (text.toList ++ ')' :: [])) := by
    simp [repetition, toString]
  rw [← htext, lex_nil] at htimes
  have hwhole : DerivesExpression formulas limits [] (lex (repetition n text).toList)
      (.operand (x.times n)) [] := .operand htimes
  exact readAbove_of_derives hwhole (Token.depth_group_le_iff n x.toPostfix limits.maxDepth)

theorem readAbove_two {text : String}
    (h : DerivesExpression formulas limits [] (lex text.toList) x []) (m n : Nat) :
    ReadAbove formulas limits x.toPostfix (repetition m text ++ " + " ++ repetition n text)
      ((Postfix.single (.group (.literal m) x.toPostfix)).append
        ((Postfix.single (.group (.literal n) x.toPostfix)).append (.single (.operator .add)))) := by
  have hblank : ∀ c ∈ [' '], isBlank c = true := List.forall_mem_singleton.2 rfl
  let second : List Char := ' ' :: ((toString n).toList ++ '(' :: (text.toList ++ ')' :: []))
  have hleft := derives_times h (List.forall_mem_nil _) m (' ' :: '+' :: second)
  have hright := derives_times h hblank n []
  have hwhole := derives_plus hblank (.operand hleft) hright
  have htext : (repetition m text ++ " + " ++ repetition n text).toList =
      [] ++ ((toString m).toList ++ '(' :: (text.toList ++ ')' :: ' ' :: '+' :: second)) := by
    simp [repetition, toString, second]
  rw [← htext, lex_nil] at hwhole
  have hgroup (k : Nat) := Token.depth_group_le_iff k x.toPostfix limits.maxDepth
  exact readAbove_of_derives hwhole (depth_sum_le_iff (hgroup m) (hgroup n))

theorem depth_summed_le_iff (x : Expression) (more bound : Nat) :
    (x.summed more).toPostfix.depth ≤ bound ↔ x.toPostfix.depth < bound := by
  have hgroup : (Operand.first false (.group x)).toPostfix.depth ≤ bound ↔
      x.toPostfix.depth < bound := Token.depth_group_le_iff 1 x.toPostfix bound
  induction more with
  | zero => exact hgroup
  | succ more ih => exact depth_sum_le_iff ih hgroup

theorem readAbove_summed {text : String}
    (h : DerivesExpression formulas limits [] (lex text.toList) x []) (more : Nat) :
    ReadAbove formulas limits x.toPostfix (summed text more) (x.summed more).toPostfix := by
  have hsum := derives_summed h more []
  rw [List.append_nil, lex_nil] at hsum
  exact readAbove_of_derives hsum (depth_summed_le_iff x more limits.maxDepth)

end

/-! ### Loops -/

section

variable {σ : Type}

theorem sumTimes_from (step : RollM σ Int) (n : Nat) (total : Int) :
    sumTimes step n total = (do return total + (← sumTimes step n 0)) := by
  simp only [sumTimes_eq, bind_assoc, pure_bind, Int.zero_add]

theorem sumTimes_append (step : RollM σ Int) (m n : Nat) (total : Int) :
    sumTimes step (m + n) total = (do
      let sofar ← sumTimes step m total
      sumTimes step n sofar) := by
  induction m generalizing total with
  | zero => simp only [Nat.zero_add, sumTimes, pure_bind]
  | succ m ih => simp only [Nat.succ_add, sumTimes, ih, bind_assoc]

/-- A loop may be cut in two, and what the two come to added. -/
theorem sumTimes_add (step : RollM σ Int) (m n : Nat) :
    sumTimes step (m + n) 0 = (do
      let first ← sumTimes step m 0
      return first + (← sumTimes step n 0)) := by
  rw [sumTimes_append]
  congr 1
  funext first
  exact sumTimes_from step n first

theorem sumTimes_succ (step : RollM σ Int) (n : Nat) :
    sumTimes step (n + 1) 0 = (do
      let first ← step
      return first + (← sumTimes step n 0)) := by
  have hone : sumTimes step 1 0 = step := by simp only [sumTimes, Int.zero_add, bind_pure]
  rw [Nat.add_comm, sumTimes_add, hone]

/-- What is added to a value is worked out from the roller that is left. -/
theorem run_add_first {step : RollM σ Int} (h : Lockstep Eq Eq step step) (first : Int)
    (s : RollState σ) :
    ((do return first + (← step) : RollM σ Int).run.run s).1 =
        (step.run.run { roller := s.roller }).1.map (first + ·) ∧
      ((do return first + (← step) : RollM σ Int).run.run s).2.roller =
        (step.run.run { roller := s.roller }).2.roller := by
  obtain ⟨hresult, hroller⟩ := h.run_eq (s := s) (t := { roller := s.roller }) rfl
  rw [← hresult, ← hroller, run_bind]
  cases step.run.run s with
  | mk r s' => cases r <;> exact ⟨rfl, rfl⟩

variable [Roller σ] {limits : Limits}

variable (limits) in
/-- A sequence that pushes the value of a step, on every stack. -/
def Pushes (p : Postfix) (step : RollM σ Int) : Prop :=
  ∀ stack, p.run limits stack = (do return (← step) :: stack)

theorem Pushes.value_eq {p : Postfix} {step : RollM σ Int} (h : Pushes limits p step) :
    p.value limits = step :=
  settle_run (h [])

theorem Pushes.sum {p q : Postfix} {left right : RollM σ Int} (hp : Pushes limits p left)
    (hq : Pushes limits q right) :
    Pushes limits (p.append (q.append (.single (.operator .add)))) (do
      let a ← left
      return a + (← right)) := by
  intro stack
  have hright (stack : List Int) : q.run limits stack = (do return (← right) :: stack) := hq stack
  simp only [Postfix.run_append, hp stack, hright, bind_assoc, pure_bind, Postfix.run, run_operator,
    Operator.apply]

theorem pushes_times (n : Nat) (p : Postfix) :
    Pushes limits (.single (.group (.literal n) p)) (sumTimes (p.value limits : RollM σ Int) n 0) := by
  intro stack
  have hcount : (liftM (settle [(n : Int)]) : RollM σ Int) = pure (n : Int) := rfl
  have hsign (total : Int) : withSignOf n total = total := if_neg (by omega)
  simp only [Postfix.run, Token.run, Postfix.literal, pure_bind, hcount, Int.natAbs_natCast, hsign]
  rfl

theorem pushes_two (m n : Nat) (p : Postfix) :
    Pushes limits ((Postfix.single (.group (.literal m) p)).append
        ((Postfix.single (.group (.literal n) p)).append (.single (.operator .add))))
      (sumTimes (p.value limits : RollM σ Int) (m + n) 0) := by
  rw [sumTimes_add]
  exact (pushes_times m p).sum (pushes_times n p)

theorem pushes_summed (x : Expression) (more : Nat) :
    Pushes limits (x.summed more).toPostfix
      (sumTimes (x.toPostfix.value limits : RollM σ Int) (more + 1) 0) := by
  have hgroup : Pushes limits (Operand.first false (.group x)).toPostfix
      (sumTimes (x.toPostfix.value limits : RollM σ Int) 1 0) := pushes_times 1 x.toPostfix
  induction more with
  | zero => exact hgroup
  | succ more ih =>
    rw [sumTimes_add]
    exact ih.sum hgroup

end

/-! ### Whole texts -/

section

variable {σ S : Type} [Roller σ] [FormulaStore S] {e : Engine σ S} {p : Postfix} {text other : String}
  {step : RollM σ Int}

/-- Two texts that come to the same value or the same error, and leave an engine the same. -/
def Engine.Equates (e : Engine σ S) (text other : String) : Prop :=
  (e.evaluate text).result = (e.evaluate other).result ∧
    (e.evaluate text).engine = (e.evaluate other).engine

/-- Evaluating a text is reading it, if a body nests less deep than the limits allow, and then taking a
step. -/
def Engine.Takes (e : Engine σ S) (body : Postfix) (text : String) (step : RollM σ Int) : Prop :=
  ∃ q, ReadAbove e.formulas e.limits body text q ∧ q.value e.limits = step

theorem Engine.Takes.evaluate (h : e.Takes p text step) (hdepth : p.depth < e.limits.maxDepth) :
    (e.evaluate text).result = (step.run.run { roller := e.roller }).1.mapError .roll ∧
      (e.evaluate text).engine =
        { e with roller := (step.run.run { roller := e.roller }).2.roller } := by
  obtain ⟨q, hread, rfl⟩ := h
  rw [ReadAbove, if_pos hdepth] at hread
  obtain ⟨hresult, hengine, -⟩ := evaluate_of_parse hread
  exact ⟨hresult, hengine⟩

theorem Engine.Takes.evaluate_tooDeep (h : e.Takes p text step)
    (hdepth : e.limits.maxDepth ≤ p.depth) :
    (e.evaluate text).result = .error (.parse (.tooDeep e.limits.maxDepth)) ∧
      (e.evaluate text).engine = e := by
  obtain ⟨q, hread, -⟩ := h
  rw [ReadAbove, if_neg (Nat.not_lt.2 hdepth)] at hread
  exact evaluate_of_parse_error hread

theorem Engine.Takes.equates (h : e.Takes p text step) (h' : e.Takes p other step) :
    e.Equates text other := by
  by_cases hdepth : p.depth < e.limits.maxDepth
  · obtain ⟨hresult, hengine⟩ := h.evaluate hdepth
    obtain ⟨hresult', hengine'⟩ := h'.evaluate hdepth
    exact ⟨hresult.trans hresult'.symm, hengine.trans hengine'.symm⟩
  · obtain ⟨hresult, hengine⟩ := h.evaluate_tooDeep (Nat.not_lt.1 hdepth)
    obtain ⟨hresult', hengine'⟩ := h'.evaluate_tooDeep (Nat.not_lt.1 hdepth)
    exact ⟨hresult.trans hresult'.symm, hengine.trans hengine'.symm⟩

section

variable {body : String} (h : e.parse body = .ok p)
include h

theorem takes_repetition (n : Nat) :
    e.Takes p (repetition n body) (sumTimes (p.value e.limits) n 0) := by
  obtain ⟨x, hx, rfl⟩ := exists_derivation h
  exact ⟨_, readAbove_repetition hx n, (pushes_times n x.toPostfix).value_eq⟩

theorem takes_two (m n : Nat) :
    e.Takes p (repetition m body ++ " + " ++ repetition n body)
      (sumTimes (p.value e.limits) (m + n) 0) := by
  obtain ⟨x, hx, rfl⟩ := exists_derivation h
  exact ⟨_, readAbove_two hx m n, (pushes_two m n x.toPostfix).value_eq⟩

theorem takes_summed (more : Nat) :
    e.Takes p (summed body more) (sumTimes (p.value e.limits) (more + 1) 0) := by
  obtain ⟨x, hx, rfl⟩ := exists_derivation h
  exact ⟨_, readAbove_summed hx more, (pushes_summed x more).value_eq⟩

end

/-- Repeating a text once more is evaluating it and then, from where that leaves the engine, repeating
it as often as before. -/
def Engine.RepeatsFirst (e : Engine σ S) (body : String) (n : Nat) : Prop :=
  let once := e.evaluate body
  let all := e.evaluate (repetition (n + 1) body)
  match once.result with
  | .ok first =>
    let others := once.engine.evaluate (repetition n body)
    all.result = others.result.map (first + ·) ∧ all.engine = others.engine
  | .error why => all.result = .error why ∧ all.engine = once.engine

theorem repeatsFirst {body : String} (h : e.parse body = .ok p)
    (hdepth : p.depth < e.limits.maxDepth) (n : Nat) : e.RepeatsFirst body n := by
  obtain ⟨honce, hleft, -⟩ := evaluate_of_parse h
  obtain ⟨hall, hafter⟩ := (takes_repetition h (n + 1)).evaluate hdepth
  rw [sumTimes_succ, run_bind] at hall hafter
  rw [Postfix.roll] at honce hleft
  cases hrun : (p.value e.limits).run.run { roller := e.roller } with
  | mk r s =>
    rw [hrun] at hall hafter honce hleft
    cases r with
    | error why =>
      simp only [Engine.RepeatsFirst, honce, hleft]
      exact ⟨hall, hafter⟩
    | ok first =>
      -- The turns that are left start with what was reported so far, which makes no difference.
      have hparse : ({ e with roller := s.roller } : Engine σ S).parse body = .ok p := h
      obtain ⟨hothers, hlast⟩ := (takes_repetition hparse n).evaluate hdepth
      have hloop := (p.lockstep_value (σ := σ) e.limits fun _ => rfl).sumTimes n 0
      obtain ⟨hadd, hroller⟩ := run_add_first hloop first s
      have hmap (r : Except RollError Int) : (r.map (first + ·)).mapError EvalError.roll =
          (r.mapError .roll).map (first + ·) := by cases r <;> rfl
      simp only [Engine.RepeatsFirst, honce, hleft, Except.mapError]
      simp only [hadd] at hall
      simp only [hroller] at hafter
      rw [hall, hafter, hothers, hlast, hmap]
      exact ⟨rfl, rfl⟩

/-- Repeating a text `m + n` times in one group is adding its repetitions `m` and `n` times: to the same
value or the same error, and from every roller to the same. So repeating it some times, at least once, is
writing it out as a sum. Unless it nests too deep already, repeating it no times at all gives zero and
leaves the roller alone, whatever it is, and repeating it once more is evaluating it first and then
repeating it from where that leaves the roller. If it nests as deep as the limits allow, all of its
repetitions nest too deep. -/
theorem repetition_additive (e : Engine σ S) {body : String} {p : Postfix}
    (h : e.parse body = .ok p) :
    (∀ m n, e.Equates (repetition (m + n) body)
      (repetition m body ++ " + " ++ repetition n body)) ∧
    (∀ more, e.Equates (repetition (more + 1) body) (summed body more)) ∧
    (p.depth < e.limits.maxDepth →
      (e.evaluate (repetition 0 body)).result = .ok 0 ∧
      (e.evaluate (repetition 0 body)).engine = e ∧
      ∀ n, e.RepeatsFirst body n) ∧
    (e.limits.maxDepth ≤ p.depth → ∀ n,
      (e.evaluate (repetition n body)).result = .error (.parse (.tooDeep e.limits.maxDepth)) ∧
      (e.evaluate (repetition n body)).engine = e) := by
  refine ⟨?_, ?_, ?_, ?_⟩
  · intro m n
    exact (takes_repetition h (m + n)).equates (takes_two h m n)
  · intro more
    exact (takes_repetition h (more + 1)).equates (takes_summed h more)
  · intro hdepth
    obtain ⟨hzero, hleft⟩ := (takes_repetition h 0).evaluate hdepth
    exact ⟨hzero, hleft, repeatsFirst h hdepth⟩
  · intro hdepth n
    exact (takes_repetition h n).evaluate_tooDeep hdepth

end

theorem repetition_additive_less :
    (Engine.mk Formulas.empty {} { current := 3 } : Engine Stepping).parse "d6-1" =
        .ok (.cons (.dice (.literal 1) 6 .all) (.cons (.literal 1) (.single (.operator .sub)))) ∧
      (Engine.mk Formulas.empty {} { current := 3 } : Engine Stepping).Equates
        (repetition (2 + 1) "d6-1") (repetition 2 "d6-1" ++ " + " ++ repetition 1 "d6-1") := by
  have hparse : (Engine.mk Formulas.empty {} { current := 3 } : Engine Stepping).parse "d6-1" =
      .ok (.cons (.dice (.literal 1) 6 .all) (.cons (.literal 1) (.single (.operator .sub)))) := by
    decide +kernel
  exact ⟨hparse, (repetition_additive _ hparse).1 2 1⟩

end DiceExpr
