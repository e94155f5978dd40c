import DiceExpr.Engine
import DiceExpr.Proofs.Reading
import DiceExpr.Roller.Scripted

/-!
# Values without a stack

The value of an expression is given on the expression itself, from left to right, with neither a
postfix sequence nor a stack. It is what the stack machine makes of the sequence of the expression, as
long as no integer stands right after a value.

## Main statements

* `sumTimes_eq`: adding up as one goes along is adding up the values.
* `Expression.run_toPostfix`: the sequence of an expression pushes its value.
* `evaluate_eq_value`: evaluating a text is working out the expression that it derives.
-/

namespace DiceExpr

/-! ### Direct values -/

section

variable {σ : Type}

/-- The values of a step that is taken `n` times, one after the other. -/
def valuesOf (step : RollM σ Int) : Nat → RollM σ (List Int)
  | 0 => return []
  | n + 1 => do
    let value ← step
    return value :: (← valuesOf step n)

/-- The sum of the values of a step that is taken as often as the size of `count` says, negated for a
negative count. -/
def repeated (step : RollM σ Int) (count : Int) : RollM σ Int := do
  let values ← valuesOf step count.natAbs
  let total := values.foldr (· + ·) 0
  return if count < 0 then -total else total

variable [Roller σ] (limits : Limits)

mutual

/-- The value of an expression: its operators are applied from left to right. -/
def Expression.value : Expression → RollM σ Int
  | .operand y => y.value
  | .binary left op right => do
    let a ← left.value
    let b ← right.value
    match op.apply a b with
    | some value => return value
    | none => throw .zeroDivision

/-- The value of an operand. It starts from its integer or from one, either of them negated under a
minus, and each part after that takes the value so far as its count. -/
def Operand.value : Operand → RollM σ Int
  | .first negated (.integer n) => return if negated then -n else n
  | .first negated part => part.value (if negated then -1 else 1)
  | .more before part => do
    let count ← before.value
    part.value count

/-- The value of a part that takes a count: dice of that number, or a body worked out that often. -/
def Part.value : Part → Int → RollM σ Int
  | .integer n, _ => return n
  | .die sides keep, count => rollDice limits count sides keep
  | .group body, count => repeated body.value count
  | .reference _ body, count => repeated body.value count

end

/-- Works out an expression: its value, and what is carried along at the end. -/
def Expression.roll (x : Expression) (roller : σ) : Except RollError Int × RollState σ :=
  (x.value limits).run.run { roller }

end

/-! ### Integers after values -/

mutual

/-- No integer stands right after a value, neither here nor in any body. -/
def Expression.Separated : Expression → Prop
  | .operand y => y.Separated
  | .binary left _ right => left.Separated ∧ right.Separated

def Operand.Separated : Operand → Prop
  | .first _ part => part.Separated
  | .more before part => before.Separated ∧ part.IsCounted ∧ part.Separated

def Part.Separated : Part → Prop
  | .integer _ => True
  | .die _ _ => True
  | .group body => body.Separated
  | .reference _ body => body.Separated

end

/-! ### The stack machine -/

section

variable {σ : Type}

theorem sumTimes_eq (step : RollM σ Int) (n : Nat) (total : Int) :
    sumTimes step n total = (do
      let values ← valuesOf step n
      return total + values.foldr (· + ·) 0) := by
  induction n generalizing total with
  | zero => simp [sumTimes, valuesOf]
  | succ n ih =>
    simp only [sumTimes, valuesOf, ih, bind_assoc, pure_bind, List.foldr_cons, Int.add_assoc]

theorem repeated_eq (step : RollM σ Int) (count : Int) :
    repeated step count = (do
      let total ← sumTimes step count.natAbs 0
      return withSignOf count total) := by
  simp only [repeated, withSignOf, sumTimes_eq, bind_assoc, pure_bind, Int.zero_add]

variable [Roller σ] {limits : Limits}

theorem Postfix.run_append (p q : Postfix) (stack : List Int) :
    (p.append q).run limits stack = (do
      let stack ← p.run (σ := σ) limits stack
      q.run limits stack) := by
  match p with
  | .single t => rfl
  | .cons t p =>
    simp only [append, run, bind_assoc]
    congr 1
    funext stack
    exact run_append p q stack

variable {count body : Postfix} {countValue bodyValue : RollM σ Int}

/-- A sequence that pushes a value comes to that value on a stack of its own. -/
theorem settle_run (h : body.run limits [] = (do return [← bodyValue])) :
    (do settle (← body.run limits [])) = bodyValue := by
  have hsettle (value : Int) : (liftM (settle [value]) : RollM σ Int) = pure value := rfl
  rw [h]
  simp only [bind_assoc, pure_bind, hsettle]
  exact bind_pure bodyValue

theorem run_operator (op : Operator) (a b : Int) (stack : List Int) :
    (Token.operator op).run limits (b :: a :: stack) =
      match op.apply a b with
      | some value => (return value :: stack : RollM σ (List Int))
      | none => throw .zeroDivision := by
  simp only [Token.run, applyOnStack]
  cases op.apply a b <;> rfl

theorem run_dice (hcount : count.run limits [] = (do return [← countValue])) (sides : Int)
    (keep : Keep) (stack : List Int) :
    (Token.dice count sides keep).run limits stack = (do
      let n ← countValue
      return (← rollDice limits n sides keep) :: stack) := by
  have hn := settle_run hcount
  simp only [Token.run]
  rw [← bind_assoc, hn]

theorem run_group (hcount : count.run limits [] = (do return [← countValue]))
    (hbody : body.run limits [] = (do return [← bodyValue])) (stack : List Int) :
    (Token.group count body).run limits stack = (do
      let n ← countValue
      return (← repeated bodyValue n) :: stack) := by
  have hn := settle_run hcount
  have hvalue := settle_run hbody
  simp only [Token.run, hvalue, repeated_eq, bind_assoc, pure_bind]
  rw [← bind_assoc, hn]

theorem Operand.value_first {p : Part} (hp : p.IsCounted) (negated : Bool) :
    (Operand.first negated p).value (σ := σ) limits =
      p.value limits (if negated then -1 else 1) := by
  cases p with
  | integer n => exact absurd rfl (hp n)
  | _ => rfl

mutual

theorem Expression.run_toPostfix (x : Expression) (h : x.Separated) (stack : List Int) :
    x.toPostfix.run limits stack = (do return (← x.value (σ := σ) limits) :: stack) := by
  cases x with
  | operand y =>
    obtain ⟨t, htoken, hrun⟩ := y.run_toPostfix h
    simp only [Expression.toPostfix, htoken, Expression.value]
    exact hrun stack
  | binary left op right =>
    obtain ⟨t, htoken, hrun⟩ := right.run_toPostfix h.2
    have hleft := left.run_toPostfix h.1 stack
    simp only [Expression.toPostfix, htoken, Postfix.append, Postfix.run_append, Postfix.run, hleft,
      Expression.value, bind_assoc, pure_bind, hrun]
    congr 1
    funext a
    congr 1
    funext b
    rw [run_operator]
    cases op.apply a b with
    | some value => exact (pure_bind _ _).symm
    | none => rfl

theorem Operand.run_toPostfix (y : Operand) (h : y.Separated) :
    ∃ t, y.toPostfix = .single t ∧
      ∀ stack, t.run limits stack = (do return (← y.value (σ := σ) limits) :: stack) := by
  cases y with
  | first negated p =>
    rcases p.integer_or_isCounted with ⟨n, rfl⟩ | hp
    · refine ⟨.literal (if negated then -n else n), rfl, fun stack => ?_⟩
      simp only [Operand.value, pure_bind]
      rfl
    · have hcount : (Postfix.literal (if negated then -1 else 1)).run limits [] =
          (do return [← (pure (if negated then -1 else 1) : RollM σ Int)]) := rfl
      have hrun := p.run_token h hp hcount
      refine ⟨_, Operand.toPostfix_first hp negated, fun stack => ?_⟩
      rw [hrun, pure_bind, Operand.value_first hp]
  | more before p =>
    obtain ⟨hbefore, hp, hpart⟩ := h
    obtain ⟨t, htoken, hrun⟩ := before.run_toPostfix hbefore
    refine ⟨p.token (.single t), ?_, fun stack => ?_⟩
    · rw [Operand.toPostfix_more hp, htoken]
      rfl
    · have hcount : (Postfix.single t).run limits [] =
          (do return [← before.value (σ := σ) limits]) := hrun []
      rw [p.run_token hpart hp hcount, Operand.value]
      simp only [bind_assoc]

theorem Part.run_token (p : Part) (h : p.Separated) (hp : p.IsCounted) {count : Postfix}
    {countValue : RollM σ Int} (hcount : count.run limits [] = (do return [← countValue]))
    (stack : List Int) :
    (p.token count).run limits stack = (do
      let n ← countValue
      return (← p.value limits n) :: stack) := by
  cases p with
  | integer n => exact absurd rfl (hp n)
  | die sides keep => exact run_dice hcount sides keep stack
  | group body => exact run_group hcount (body.run_toPostfix h []) stack
  | reference name body => exact run_group hcount (body.run_toPostfix h []) stack

end

theorem Expression.roll_toPostfix {x : Expression} (h : x.Separated) (roller : σ) :
    x.toPostfix.roll limits roller = x.roll limits roller := by
  have hrun : x.toPostfix.run limits [] = (do return [← x.value (σ := σ) limits]) :=
    x.run_toPostfix h []
  have hvalue := settle_run hrun
  simp only [Postfix.roll, Postfix.value, hvalue, Expression.roll]

/-! ### Evaluation -/

variable {S : Type} [FormulaStore S]

theorem evaluate_of_parse {e : Engine σ S} {text : String} {p : Postfix}
    (h : e.parse text = .ok p) :
    (e.evaluate text).result = (p.roll e.limits e.roller).1.mapError .roll ∧
      (e.evaluate text).engine = { e with roller := (p.roll e.limits e.roller).2.roller } ∧
      (e.evaluate text).events =
        e.parseEvents text ++ (p.roll e.limits e.roller).2.events.reverse ++
          match (p.roll e.limits e.roller).1 with
          | .ok total => [.evaluated text.toList total]
          | .error _ => [] := by
  have hparse : (runParse e.formulas e.limits text).1 = .ok p := h
  simp only [Engine.evaluate, Engine.parseEvents, parseEvents, hparse]
  cases hr : (p.roll e.limits e.roller).1 with
  | ok total => exact ⟨rfl, rfl, rfl⟩
  | error why => exact ⟨rfl, rfl, (List.append_nil _).symm⟩

theorem evaluate_of_parse_error {e : Engine σ S} {text : String} {why : ParseError}
    (h : e.parse text = .error why) :
    (e.evaluate text).result = .error (.parse why) ∧ (e.evaluate text).engine = e := by
  have hparse : (runParse e.formulas e.limits text).1 = .error why := h
  simp only [Engine.evaluate, hparse, and_self]

/-- What a text comes to hangs only on what it is read as, on the limits and on the roller. -/
theorem evaluate_eq (e : Engine σ S) (text : String) :
    (e.evaluate text).result =
        (match e.parse text with
        | .ok p => (p.roll e.limits e.roller).1.mapError .roll
        | .error why => .error (.parse why)) ∧
      (e.evaluate text).engine =
        { e with
          roller :=
            match e.parse text with
            | .ok p => (p.roll e.limits e.roller).2.roller
            | .error _ => e.roller } := by
  cases h : e.parse text with
  | ok p =>
    obtain ⟨hresult, hengine, -⟩ := evaluate_of_parse h
    exact ⟨hresult, hengine⟩
  | error why => exact evaluate_of_parse_error h

theorem evaluate_congr {e : Engine σ S} {text other : String} (h : e.parse text = e.parse other) :
    (e.evaluate text).result = (e.evaluate other).result ∧
      (e.evaluate text).engine = (e.evaluate other).engine := by
  simp only [evaluate_eq, h, and_self]

/-- A text that can be read derives an expression. If no integer stands right after a value in it, then
evaluating the text gives the value of the expression or the reason why it has none, leaves the roller
where working out the expression leaves it, and reports the same dice in the same order. This holds of
every kind of roller, also of one that records what it is asked for. -/
theorem evaluate_eq_value (e : Engine σ S) (text : String) {p : Postfix}
    (h : e.parse text = .ok p) :
    (∃ ls x, Lexes text.toList ls ∧ DerivesExpression e.formulas e.limits [] ls x []) ∧
    ∀ ls x, Lexes text.toList ls → DerivesExpression e.formulas e.limits [] ls x [] →
      x.Separated →
        (e.evaluate text).result = (x.roll e.limits e.roller).1.mapError .roll ∧
        (e.evaluate text).engine = { e with roller := (x.roll e.limits e.roller).2.roller } ∧
        (e.evaluate text).events =
          e.parseEvents text ++ (x.roll e.limits e.roller).2.events.reverse ++
            match (x.roll e.limits e.roller).1 with
            | .ok total => [.evaluated text.toList total]
            | .error _ => [] := by
  have houtcome := h
  rw [Engine.parse, parse_eq_outcomeWithin] at houtcome
  obtain ⟨y, hy, rfl, -⟩ := derives_of_outcome houtcome
  refine ⟨⟨_, y, lexes_iff.2 rfl, hy⟩, ?_⟩
  intro ls x hlex hx hseparated
  rw [← lexes_iff.1 hlex] at hx
  rw [← toPostfix_unique hx hy] at h
  rw [← Expression.roll_toPostfix hseparated]
  exact evaluate_of_parse h

end

/-- Twice the body of a group, less seven. -/
def groupLessSeven : Expression :=
  .binary (.operand (.more (.first false (.integer 2))
    (.group (.operand (.first false (.die 6 .all)))))) .sub (.first false (.integer 7))

theorem derives_groupLessSeven :
    DerivesExpression Formulas.empty {} [] (lex "2(d6)-7".toList) groupLessSeven [] := by
  let die : List Lexeme := [⟨[], .die, 'd', []⟩, ⟨[], .integer, '6', []⟩]
  let minus : Lexeme := ⟨[], .operator .sub, '-', []⟩
  let seven : Lexeme := ⟨[], .integer, '7', []⟩
  let group : List Lexeme :=
    ⟨[], .openParen, '(', []⟩ :: (die ++ ⟨[], .closeParen, ')', []⟩ :: [minus, seven])
  let two : Lexeme := ⟨[], .integer, '2', []⟩
  have hlex : lex "2(d6)-7".toList = two :: group := by
    show lex "2(d6)-7".toList = [⟨[], .integer, '2', []⟩, ⟨[], .openParen, '(', []⟩,
      ⟨[], .die, 'd', []⟩, ⟨[], .integer, '6', []⟩, ⟨[], .closeParen, ')', []⟩,
      ⟨[], .operator .sub, '-', []⟩, ⟨[], .integer, '7', []⟩]
    decide +kernel
  have hdie : DerivesPart Formulas.empty {} [] die (.die 6 .all) [] :=
    .die rfl rfl rfl (by decide) (.all (by simp))
  have hgroup : DerivesPart Formulas.empty {} [] group
      (.group (.operand (.first false (.die 6 .all)))) [minus, seven] :=
    .group rfl (.operand (.first hdie)) rfl
  have htwo : DerivesPart Formulas.empty {} [] (two :: group) (.integer 2) group :=
    DerivesPart.integer (l := two) rfl
  have hseven : DerivesPart Formulas.empty {} [] [seven] (.integer 7) [] :=
    DerivesPart.integer (l := seven) rfl
  rw [hlex]
  exact .binary (l := minus) (.operand (.more (.first htwo) hgroup)) rfl (.first hseven)

/-- Rolling from a three on, twice a die makes seven. -/
theorem evaluate_eq_value_groupLessSeven :
    (Engine.mk Formulas.empty {} { current := 3 } : Engine Stepping).parse "2(d6)-7" =
        .ok groupLessSeven.toPostfix ∧
      groupLessSeven.Separated ∧
      ((Engine.mk Formulas.empty {} { current := 3 } : Engine Stepping).evaluate "2(d6)-7").result =
        .ok 0 := by
  have hparse : (Engine.mk Formulas.empty {} { current := 3 } : Engine Stepping).parse "2(d6)-7" =
      .ok groupLessSeven.toPostfix := by decide +kernel
  have hseparated : groupLessSeven.Separated := by
    simp [groupLessSeven, Expression.Separated, Operand.Separated, Part.Separated, Part.IsCounted]
  refine ⟨hparse, hseparated, ?_⟩
  obtain ⟨hresult, -, -⟩ := (evaluate_eq_value _ _ hparse).2 _ _ (lexes_iff.2 rfl)
    derives_groupLessSeven hseparated
  rw [hresult]
  rfl

end DiceExpr
