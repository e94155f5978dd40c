import DiceExpr.Evaluation
import DiceExpr.Proofs.Shape
import DiceExpr.Roller.Scripted

/-!
# How evaluating ends

The shape of a sequence settles how its stack grows: a value adds one to it, and an operator takes two
and puts one back, which it always finds. So evaluating what was read never stops at an operator, and the
stack at the end holds one value and one more for each integer that stands right after a value.

## Main statements

* `Token.ends_run`, `Postfix.ends_run`: the size of the stack after a token and after a sequence.
* `parse_wellFormed`: the shape of what is read, and how evaluating it ends.
-/

namespace DiceExpr

/-! ### Endings -/

section

variable {α β σ : Type} {M : Nat → Prop} {P : α → Prop} {Q : β → Prop}

/-- An end of a step of rolling: a value that `P` holds of, or an error. Where the error is about a stack
that is left, `M` holds of its size. -/
def EndsIn (M : Nat → Prop) (P : α → Prop) : Except RollError α → Prop
  | .ok a => P a
  | .error e => ∀ n, e = .malformed n → M n

/-- A step of rolling that ends in this way from every state. -/
def Ends (M : Nat → Prop) (P : α → Prop) (step : RollM σ α) : Prop :=
  ∀ s, EndsIn M P (step.run.run s).1

namespace Ends

theorem pure {a : α} (h : P a) : Ends M P (pure a : RollM σ α) := fun _ => h

theorem lift {r : Except RollError α} (h : EndsIn M P r) : Ends M P (liftM r : RollM σ α) :=
  fun _ => h

theorem bind {step : RollM σ α} {next : α → RollM σ β} (hstep : Ends M P step)
    (hnext : ∀ a, P a → Ends M Q (next a)) : Ends M Q (step >>= next) := by
  intro s
  have hend := hstep s
  rw [run_bind]
  cases hr : step.run.run s with
  | mk r s' =>
    rw [hr] at hend
    cases r with
    | ok a => exact hnext a hend s'
    | error e => exact hend

theorem mono {step : RollM σ α} {P' : α → Prop} (h : Ends M P step) (hP : ∀ a, P a → P' a) :
    Ends M P' step := by
  intro s
  have hend := h s
  cases hr : (step.run.run s).1 with
  | ok a =>
    rw [hr] at hend
    exact hP a hend
  | error e =>
    rw [hr] at hend
    exact hend

theorem sumTimes {step : RollM σ Int} {P : Int → Prop} (h : Ends M P step) (n : Nat) (total : Int) :
    Ends M (fun _ => True) (sumTimes step n total) := by
  induction n generalizing total with
  | zero => exact .pure trivial
  | succ n ih => exact h.bind fun value _ => ih (total + value)

end Ends

theorem ends_rollDice [Roller σ] (limits : Limits) (count sides : Int) (keep : Keep) :
    Ends M (fun _ => True) (rollDice limits count sides keep : RollM σ Int) := by
  intro s
  rw [run_rollDice]
  split
  · simp [EndsIn]
  · split
    · simp [EndsIn]
    · trivial

end

/-! ### Stacks -/

section

variable {σ : Type} {M : Nat → Prop}

/-- A stack of one value has a value, and one of more is left. -/
theorem endsIn_settle {extra : Nat} (hM : 0 < extra → M (extra + 1)) {stack : List Int}
    (h : stack.length = extra + 1) : EndsIn M (fun _ => extra = 0) (settle stack) := by
  match stack with
  | [value] => exact (Nat.succ.inj h).symm
  | a :: b :: rest =>
    intro n hn
    cases hn
    rw [h]
    apply hM
    simp only [List.length_cons] at h
    omega

theorem endsIn_applyOnStack (op : Operator) {stack : List Int} (h : 2 ≤ stack.length) :
    EndsIn M (fun after => after.length + 1 = stack.length) (applyOnStack op stack) := by
  match stack with
  | b :: a :: rest =>
    simp only [applyOnStack]
    split
    · rfl
    · simp [EndsIn]

/-- A token whose counts are values and whose body, if it has one, leaves a stack of an allowed size. -/
def Token.Allows (M : Nat → Prop) (t : Token) : Prop :=
  t.IsMade fun body => ∃ extra, body.HasShape extra ∧ (0 < extra → M (extra + 1))

theorem ends_settle {extra : Nat} (hM : 0 < extra → M (extra + 1)) {step : RollM σ (List Int)}
    (h : Ends M (fun stack => stack.length = extra + 1) step) :
    Ends M (fun _ => extra = 0) (do settle (← step)) :=
  h.bind fun _ hstack => .lift (endsIn_settle hM hstack)

theorem operands_of_hasShape {p : Postfix} {extra : Nat} (h : p.HasShape extra) (before : List Token)
    (op : Operator) (after : List Token) (heq : p.toList = before ++ .operator op :: after) :
    operatorCount before + 2 ≤ valueCount before + ([] : List Int).length :=
  h.operands before op after heq

theorem ends_of_hasShape {p : Postfix} {extra : Nat} (h : p.HasShape extra)
    {step : RollM σ (List Int)} (hstep : Ends M (fun after =>
      after.length + operatorCount p.toList = ([] : List Int).length + valueCount p.toList) step) :
    Ends M (fun after => after.length = extra + 1) step := by
  apply hstep.mono
  intro after hlength
  have htotal := h.total
  simp only [List.length_nil] at hlength
  omega

variable [Roller σ] (limits : Limits)

mutual

theorem Token.ends_run (t : Token) (hall : ∀ u ∈ t.subtokens, u.Allows M) (stack : List Int)
    (hstack : t.isOperator = true → 2 ≤ stack.length) :
    Ends M (fun after => after.length + operatorCount [t] = stack.length + valueCount [t])
      (t.run limits stack : RollM σ (List Int)) := by
  cases t with
  | literal value => exact .pure rfl
  | operator op => exact .lift (endsIn_applyOnStack op (hstack rfl))
  | dice count sides keep =>
    obtain ⟨hcount, hinside⟩ := List.forall_mem_cons.1 hall
    have hshape := Postfix.IsValue.hasShape hcount
    have hrun := ends_of_hasShape hshape
      (count.ends_run hinside [] (operands_of_hasShape hshape))
    refine hrun.bind fun left hleft => ?_
    refine (Ends.lift (endsIn_settle nofun hleft)).bind fun n _ => ?_
    exact (ends_rollDice limits n sides keep).bind fun total _ => .pure rfl
  | group multiplier body =>
    obtain ⟨⟨hmultiplier, extra, hbody, hM⟩, hinside⟩ := List.forall_mem_cons.1 hall
    obtain ⟨hinsideMultiplier, hinsideBody⟩ := List.forall_mem_append.1 hinside
    have hshape := Postfix.IsValue.hasShape hmultiplier
    have hrun := ends_of_hasShape hshape
      (multiplier.ends_run hinsideMultiplier [] (operands_of_hasShape hshape))
    have hrunBody := ends_of_hasShape hbody
      (body.ends_run hinsideBody [] (operands_of_hasShape hbody))
    refine hrun.bind fun left hleft => ?_
    refine (Ends.lift (endsIn_settle nofun hleft)).bind fun n _ => ?_
    exact ((ends_settle hM hrunBody).sumTimes n.natAbs 0).bind fun total _ => .pure rfl

theorem Postfix.ends_run (p : Postfix) (hall : ∀ u ∈ p.subtokens, u.Allows M) (stack : List Int)
    (hoperands : ∀ before op after, p.toList = before ++ .operator op :: after →
      operatorCount before + 2 ≤ valueCount before + stack.length) :
    Ends M (fun after => after.length + operatorCount p.toList = stack.length + valueCount p.toList)
      (p.run limits stack : RollM σ (List Int)) := by
  have hfirst (t : Token) (later : List Token) (h : p.toList = t :: later)
      (ht : t.isOperator = true) : 2 ≤ stack.length := by
    cases t with
    | operator op => simpa [operatorCount, valueCount] using hoperands [] op later h
    | _ => cases ht
  cases p with
  | single t => exact t.ends_run hall stack (hfirst t [] rfl)
  | cons t rest =>
    obtain ⟨hinside, hinsideRest⟩ := List.forall_mem_append.1 hall
    refine (t.ends_run hinside stack (hfirst t rest.toList rfl)).bind fun after hafter => ?_
    have hone : operatorCount (t :: rest.toList) = operatorCount [t] + operatorCount rest.toList :=
      operatorCount_append [t] rest.toList
    have hvalues : valueCount (t :: rest.toList) = valueCount [t] + valueCount rest.toList :=
      valueCount_append [t] rest.toList
    have hrest := rest.ends_run hinsideRest after (by
      intro before op later heq
      have hbefore := hoperands (t :: before) op later (by rw [Postfix.toList, heq]; rfl)
      have hops := operatorCount_append [t] before
      have hvals := valueCount_append [t] before
      simp only [List.singleton_append] at hops hvals
      omega)
    apply hrest.mono
    intro last hlast
    simp only [Postfix.toList, hone, hvalues]
    omega

end

theorem Postfix.ends_value {p : Postfix} {extra : Nat} (hshape : p.HasShape extra)
    (hall : ∀ u ∈ p.subtokens, u.Allows M) (hM : 0 < extra → M (extra + 1)) :
    Ends M (fun _ => extra = 0) (p.value limits : RollM σ Int) :=
  ends_settle hM (ends_of_hasShape hshape (p.ends_run limits hall [] (operands_of_hasShape hshape)))

end

/-! ### Whole texts -/

theorem Token.IsMade.mono {IsBody IsBody' : Postfix → Prop} {t : Token} (h : t.IsMade IsBody)
    (hbody : ∀ body, IsBody body → IsBody' body) : t.IsMade IsBody' := by
  cases t with
  | literal value => trivial
  | operator op => trivial
  | dice count sides keep => exact h
  | group multiplier body => exact ⟨h.1, hbody body h.2⟩

section

variable {S : Type} [FormulaStore S] (formulas : S) (limits : Limits)

/-- The sizes of stacks that the texts within a text may leave: one more than the integers in them that
stand right after a value. -/
def MayRemain (text : List Char) (n : Nat) : Prop :=
  ∃ inner, Visits formulas limits text inner ∧ 0 < looseIntegers limits inner ∧
    n = looseIntegers limits inner + 1

variable {formulas limits}

theorem allows_of_isMade {text : List Char} {t : Token}
    (h : t.IsMade (IsBodyOf formulas limits text)) : t.Allows (MayRemain formulas limits text) := by
  apply h.mono
  rintro body ⟨inner, hvisits, -, hshape⟩
  exact ⟨_, hshape, fun hloose => ⟨inner, hvisits, hloose, rfl⟩⟩

/-- What is read has the shape that its text gives it, and so has the body of each group in it, by a text
of its own. The counts of its dice and groups are single values. Evaluating it never finds too few values,
finds too many only if some integer stands right after a value, and then has no value if that integer
stands in the text itself. -/
theorem parse_wellFormed (formulas : S) (limits : Limits) (text : String) (p : Postfix)
    (h : parse formulas limits text = .ok p) :
    p.HasShape (looseIntegers limits text.toList) ∧
    (∀ count sides keep, .dice count sides keep ∈ p.subtokens → count.IsValue) ∧
    (∀ multiplier body, .group multiplier body ∈ p.subtokens →
      multiplier.IsValue ∧ IsBodyOf formulas limits text.toList body) ∧
    ∀ (σ : Type) [Roller σ] (rolling : Limits) (roller : σ),
      (∀ n < 2, (p.roll rolling roller).1 ≠ .error (.malformed n)) ∧
      ((∀ inner, Visits formulas limits text.toList inner → looseIntegers limits inner = 0) →
        ∀ n, (p.roll rolling roller).1 ≠ .error (.malformed n)) ∧
      (0 < looseIntegers limits text.toList → ∀ value, (p.roll rolling roller).1 ≠ .ok value) := by
  rw [parse_eq_outcomeWithin] at h
  obtain ⟨hshape, hinside⟩ := shape_of_outcome (.self : Visits formulas limits _ _) h
  refine ⟨hshape, fun _ _ _ => hinside _, fun _ _ => hinside _, ?_⟩
  intro σ _ rolling roller
  have hend : EndsIn (MayRemain formulas limits text.toList)
      (fun _ => looseIntegers limits text.toList = 0) (p.roll rolling roller).1 :=
    Postfix.ends_value rolling hshape (fun u hu => allows_of_isMade (hinside u hu))
      (fun hloose => ⟨_, .self, hloose, rfl⟩) { roller }
  refine ⟨?_, ?_, ?_⟩
  · intro n hn herror
    rw [herror] at hend
    obtain ⟨inner, -, hloose, rfl⟩ := hend n rfl
    omega
  · intro hnone n herror
    rw [herror] at hend
    obtain ⟨inner, hvisits, hloose, -⟩ := hend n rfl
    have hzero := hnone inner hvisits
    omega
  · intro hloose value hvalue
    rw [hvalue] at hend
    have hzero : looseIntegers limits text.toList = 0 := hend
    omega

end

/-- Two integers in a row leave no value, whether they stand in parentheses or after them. -/
theorem parse_wellFormed_inRow :
    parse Formulas.empty {} "2(3 4)5" =
        .ok (.cons (.group (.literal 2) (.cons (.literal 3) (.literal 4))) (.literal 5)) ∧
      0 < looseIntegers {} "2(3 4)5".toList ∧
      ∀ value, ((Postfix.cons (.group (.literal 2) (.cons (.literal 3) (.literal 4)))
        (.literal 5)).roll {} (⟨[], 0⟩ : WordList)).1 ≠ .ok value := by
  have hread : parse Formulas.empty {} "2(3 4)5" =
      .ok (.cons (.group (.literal 2) (.cons (.literal 3) (.literal 4))) (.literal 5)) := by
    decide +kernel
  have hloose : 0 < looseIntegers {} "2(3 4)5".toList := by decide +kernel
  obtain ⟨-, -, -, hends⟩ := parse_wellFormed Formulas.empty {} "2(3 4)5" _ hread
  exact ⟨hread, hloose, (hends WordList {} ⟨[], 0⟩).2.2 hloose⟩

end DiceExpr
