import DiceExpr.Proofs.Lockstep
import DiceExpr.Proofs.Refusals

/-!
# Unary minus

A minus before a text is not an operator on its value. It negates the number that the first operand
starts from, at the bottom of a chain of counts, where a number that is not written is one. Dice and
groups take the sign of their count, so it comes out on top as the sign of the whole, also where a count
is zero or negative already.

## Main definitions

* `Token.Negates`: a token with the number at the bottom of its counts negated.
* `Negated`: a result and that of the negated text.

## Main statements

* `Operand.negates`: a minus before an operand negates its token.
* `Token.Negates.lockstep_run`: evaluating a negated token gives the negated value for the same dice.
* `parse_negated`: the statement for whole texts.
-/

namespace DiceExpr

/-! ### Single tokens -/

theorem Postfix.append_ne_single (p q : Postfix) (t : Token) : p.append q ≠ .single t := by
  cases p <;> nofun

theorem Postfix.eq_single_of_mapLast {f : Token → Token} {p : Postfix} {t : Token}
    (h : p.mapLast f = .single t) : ∃ u, p = .single u ∧ f u = t := by
  cases p with
  | single u => exact ⟨u, rfl, Postfix.single.inj h⟩
  | cons u rest => cases h

/-! ### Negated tokens -/

/-- A token and the one with the number at the bottom of its counts negated. -/
inductive Token.Negates : Token → Token → Prop
  | literal (value : Int) : Negates (.literal value) (.literal (-value))
  | dice {t u : Token} (h : Negates t u) (sides : Int) (keep : Keep) :
      Negates (.dice (.single t) sides keep) (.dice (.single u) sides keep)
  | group {t u : Token} (h : Negates t u) (body : Postfix) :
      Negates (.group (.single t) body) (.group (.single u) body)

theorem Token.Negates.depth_eq {t u : Token} (h : Negates t u) : u.depth = t.depth := by
  induction h with
  | literal value => rfl
  | dice h sides keep ih => simp only [Token.depth, Postfix.depth, ih]
  | group h body ih => simp only [Token.depth, Postfix.depth, ih]

theorem Part.negates_token {p : Part} (hp : p.IsCounted) {t u : Token} (h : t.Negates u) :
    (p.token (.single t)).Negates (p.token (.single u)) := by
  cases p with
  | integer n => exact absurd rfl (hp n)
  | die sides keep => exact .dice h sides keep
  | group body => exact .group h body.toPostfix
  | reference name body => exact .group h body.toPostfix

/-! ### Texts with a minus before them -/

theorem lex_minus (text : String) :
    lex ("-" ++ text).toList = ⟨[], .operator .sub, '-', []⟩ :: lex text.toList := by
  rw [String.toList_append]
  exact lex_operator (List.forall_mem_nil _) .sub text.toList

section

variable {S : Type} [FormulaStore S] {formulas : S} {limits : Limits} {active : List String}

theorem Operand.negates (y : Operand) {ls rest : List Lexeme} {l : Lexeme} {t : Token}
    (hy : DerivesOperand formulas limits active ls y rest)
    (hfirst : ∀ m, ls.head? = some m → m.kind ≠ .operator .sub) (hl : l.kind = .operator .sub)
    (ht : y.toPostfix = .single t) :
    ∃ z u, DerivesOperand formulas limits active (l :: ls) z rest ∧ z.toPostfix = .single u ∧
      t.Negates u := by
  cases y with
  | first negated p =>
    cases hy with
    | negated kind => exact absurd kind (hfirst _ rfl)
    | first hp =>
      refine ⟨.first true p, ?_⟩
      -- An integer takes the sign itself, any other part has a count that was one.
      rcases p.integer_or_isCounted with ⟨n, rfl⟩ | hcounted
      · cases ht
        exact ⟨_, .negated hl hp, rfl, .literal n⟩
      · rw [Operand.toPostfix_first hcounted] at ht
        cases ht
        exact ⟨_, .negated hl hp, Operand.toPostfix_first hcounted true,
          Part.negates_token hcounted (.literal 1)⟩
  | more before p =>
    cases hy with
    | more hbefore hp =>
      -- An integer would be a second token, so the part takes the operand before it as its count.
      rcases p.integer_or_isCounted with ⟨n, rfl⟩ | hcounted
      · exact absurd ht (Postfix.append_ne_single _ _ t)
      · rw [Operand.toPostfix_more hcounted] at ht
        obtain ⟨s, hs, rfl⟩ := Postfix.eq_single_of_mapLast ht
        obtain ⟨z, u, hz, hu, hnegates⟩ := before.negates hbefore hfirst hl hs
        refine ⟨.more z p, p.token (.single u), .more hz hp, ?_, Part.negates_token hcounted hnegates⟩
        rw [Operand.toPostfix_more hcounted, hu]
        rfl

theorem parse_minus {text : String} {t : Token} (h : parse formulas limits text = .ok (.single t))
    (hfirst : ∀ l, (lex text.toList).head? = some l → l.kind ≠ .operator .sub) :
    ∃ u, t.Negates u ∧ parse formulas limits ("-" ++ text) = .ok (.single u) := by
  obtain ⟨x, hx, hsingle⟩ := exists_derivation h
  cases hx with
  | binary => exact absurd hsingle (Postfix.append_ne_single _ _ t)
  | @operand _ _ _ y hy =>
    let minus : Lexeme := ⟨[], .operator .sub, '-', []⟩
    have hkind : minus.kind = .operator .sub := rfl
    obtain ⟨z, u, hz, hu, hnegates⟩ := y.negates hy hfirst hkind hsingle
    have hminus : DerivesExpression formulas limits [] (lex ("-" ++ text).toList) (.operand z) [] := by
      rw [lex_minus]
      exact .operand hz
    have hdepth : (Expression.operand z).toPostfix.depth ≤ limits.maxDepth := by
      rw [Expression.toPostfix, hu, Postfix.depth, hnegates.depth_eq]
      exact depth_le_of_parse h
    refine ⟨u, hnegates, ?_⟩
    rw [parse_eq_outcomeWithin, ← hu]
    exact outcome_of_derives hminus hdepth hdepth

end

/-! ### Values of negated tokens -/

/-- The errors of an evaluation and of the negated one: a count that is refused is negated. -/
inductive RollError.Negated : RollError → RollError → Prop
  | same (e : RollError) : Negated e e
  | tooManyDice (count : Int) : Negated (.tooManyDice count) (.tooManyDice (-count))

theorem withSignOf_neg {sign n : Int} (h : sign = 0 → n = 0) :
    withSignOf (-sign) n = -withSignOf sign n := by
  unfold withSignOf
  split <;> split <;> omega

section

variable {σ : Type} [Roller σ] (limits : Limits)

theorem lockstep_rollDice_neg (count sides : Int) (keep : Keep) :
    Lockstep RollError.Negated (fun total other => other = -total)
      (rollDice limits count sides keep : RollM σ Int) (rollDice limits (-count) sides keep) := by
  intro s t hroller
  rw [run_rollDice, run_rollDice, Int.natAbs_neg, ← hroller]
  split
  · exact ⟨.error (.tooManyDice count), hroller⟩
  · split
    · exact ⟨.error (.same _), hroller⟩
    · -- No dice total nothing, which is its own negation.
      refine ⟨.ok (withSignOf_neg ?_), rfl⟩
      rintro rfl
      simp

variable {limits}

/-- The stacks that a token and its negation push a value on. -/
def PushNegated (stack left right : List Int) : Prop :=
  ∃ value, left = value :: stack ∧ right = -value :: stack

theorem matched_settle_neg {left right : List Int} (h : PushNegated [] left right) :
    Matched RollError.Negated (fun value other => other = -value) (settle left) (settle right) := by
  obtain ⟨value, rfl, rfl⟩ := h
  exact .ok rfl

theorem lockstep_sumTimes_neg (p : Postfix) (count : Int) :
    Lockstep RollError.Negated (fun total other => other = total ∧ (count = 0 → total = 0))
      (sumTimes (p.value limits : RollM σ Int) count.natAbs 0)
      (sumTimes (p.value limits) (-count).natAbs 0) := by
  rw [Int.natAbs_neg]
  by_cases hcount : count = 0
  · subst hcount
    exact .pure ⟨rfl, fun _ => rfl⟩
  · have hsame := (p.lockstep_value (σ := σ) limits RollError.Negated.same).sumTimes count.natAbs 0
    refine hsame.mono ?_
    rintro total _ rfl
    exact ⟨rfl, fun hzero => absurd hzero hcount⟩

theorem Token.Negates.lockstep_run {t u : Token} (h : t.Negates u) (stack : List Int) :
    Lockstep RollError.Negated (PushNegated stack) (t.run limits stack : RollM σ (List Int))
      (u.run limits stack) := by
  induction h generalizing stack with
  | literal value => exact .pure ⟨value, rfl, rfl⟩
  | dice h sides keep ih =>
    refine (ih []).bind fun left right hpush => ?_
    refine (Lockstep.lift (matched_settle_neg hpush)).bind ?_
    rintro count _ rfl
    refine (lockstep_rollDice_neg limits count sides keep).bind ?_
    rintro total _ rfl
    exact .pure ⟨total, rfl, rfl⟩
  | group h body ih =>
    refine (ih []).bind fun left right hpush => ?_
    refine (Lockstep.lift (matched_settle_neg hpush)).bind ?_
    rintro count _ rfl
    refine (lockstep_sumTimes_neg body count).bind ?_
    rintro _ total ⟨rfl, hzero⟩
    exact .pure ⟨withSignOf count total, rfl, congrArg (· :: stack) (withSignOf_neg hzero)⟩

theorem Token.Negates.lockstep_value {t u : Token} (h : t.Negates u) :
    Lockstep RollError.Negated (fun value other => other = -value)
      ((Postfix.single t).value limits : RollM σ Int) ((Postfix.single u).value limits) :=
  (h.lockstep_run []).bind fun _ _ hpush => .lift (matched_settle_neg hpush)

end

/-! ### Whole texts -/

/-- What a text comes to and what the negated text does: a value and its negation, or the same error, but
for a count that is refused. -/
inductive Negated : Except EvalError Int → Except EvalError Int → Prop
  | value (value : Int) : Negated (.ok value) (.ok (-value))
  | same (why : EvalError) : Negated (.error why) (.error why)
  | tooManyDice (count : Int) :
      Negated (.error (.roll (.tooManyDice count))) (.error (.roll (.tooManyDice (-count))))

theorem negated_of_matched {r r' : Except RollError Int}
    (h : Matched RollError.Negated (fun value other => other = -value) r r') :
    Negated (r.mapError .roll) (r'.mapError .roll) := by
  cases h with
  | ok h =>
    subst h
    exact .value _
  | error h =>
    cases h with
    | same e => exact .same _
    | tooManyDice count => exact .tooManyDice count

/-- A minus before a text that is read as a single token, and does not start with one already, negates
the number at the bottom of its counts. Evaluating the text with the minus gives the negated value, or
fails as the text does without it, and rolls the same dice: every roller, also one that records what it
is asked for, is left in the same state. -/
theorem parse_negated {σ S : Type} [Roller σ] [FormulaStore S] (e : Engine σ S) {text : String}
    {t : Token} (h : e.parse text = .ok (.single t))
    (hfirst : ∀ l, (lex text.toList).head? = some l → l.kind ≠ .operator .sub) :
    (∃ u, t.Negates u ∧ e.parse ("-" ++ text) = .ok (.single u)) ∧
      Negated (e.evaluate text).result (e.evaluate ("-" ++ text)).result ∧
      (e.evaluate ("-" ++ text)).engine = (e.evaluate text).engine := by
  obtain ⟨u, hnegates, hminus⟩ := parse_minus h hfirst
  obtain ⟨hresult, hengine, -⟩ := evaluate_of_parse h
  obtain ⟨hresult', hengine', -⟩ := evaluate_of_parse hminus
  have hboth : Lockstep RollError.Negated (fun value other => other = -value)
      ((Postfix.single t).value e.limits : RollM σ Int) ((Postfix.single u).value e.limits) :=
    hnegates.lockstep_value
  obtain ⟨hmatched, hroller⟩ := hboth { roller := e.roller } { roller := e.roller } rfl
  refine ⟨⟨u, hnegates, hminus⟩, ?_, ?_⟩
  · rw [hresult, hresult']
    exact negated_of_matched hmatched
  · rw [hengine, hengine']
    exact congrArg (fun roller => { e with roller }) hroller.symm

theorem parse_negated_chained :
    (Engine.mk Formulas.empty {} { current := 3 } : Engine Stepping).parse "2d6h1(4)" =
        .ok (.single (.group (.single (.dice (.literal 2) 6 (.highest 1))) (.literal 4))) ∧
      (∀ l, (lex "2d6h1(4)".toList).head? = some l → l.kind ≠ .operator .sub) ∧
      Negated ((Engine.mk Formulas.empty {} { current := 3 } : Engine Stepping).evaluate
          "2d6h1(4)").result
        ((Engine.mk Formulas.empty {} { current := 3 } : Engine Stepping).evaluate
          ("-" ++ "2d6h1(4)")).result := by
  have hparse : (Engine.mk Formulas.empty {} { current := 3 } : Engine Stepping).parse "2d6h1(4)" =
      .ok (.single (.group (.single (.dice (.literal 2) 6 (.highest 1))) (.literal 4))) := by
    decide +kernel
  have hhead : (lex "2d6h1(4)".toList).head? = some ⟨[], .integer, '2', []⟩ := by decide +kernel
  have hfirst : ∀ l, (lex "2d6h1(4)".toList).head? = some l → l.kind ≠ .operator .sub := by
    intro l hl
    rw [hhead] at hl
    cases hl
    nofun
  exact ⟨hparse, hfirst, (parse_negated _ hparse hfirst).2.1⟩

end DiceExpr
