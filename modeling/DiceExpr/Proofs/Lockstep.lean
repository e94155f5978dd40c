import DiceExpr.Proofs.Values

/-!
# Evaluations side by side

Two evaluations are compared that ask their rollers for the same dice. They go side by side from states
with the same roller, whatever was reported before them, and come to states with the same roller; their
values are related, or both fail with errors that are related.

## Main statements

* `Lockstep.bind`: steps that go side by side make up runs that do.
* `Lockstep.run_eq`: what was reported before makes no difference.
* `Token.lockstep_run`, `Postfix.lockstep_run`: evaluating a sequence goes side by side with itself.
-/

namespace DiceExpr

/-- Two results of which the values are related by `P`, or the errors by `E`. -/
inductive Matched (E : RollError → RollError → Prop) {α β : Type} (P : α → β → Prop) :
    Except RollError α → Except RollError β → Prop
  | ok {a : α} {b : β} (h : P a b) : Matched E P (.ok a) (.ok b)
  | error {e e' : RollError} (h : E e e') : Matched E P (.error e) (.error e')

theorem Matched.mono {E : RollError → RollError → Prop} {α β : Type} {P Q : α → β → Prop}
    {r : Except RollError α} {r' : Except RollError β} (h : Matched E P r r')
    (hP : ∀ a b, P a b → Q a b) : Matched E Q r r' := by
  cases h with
  | ok h => exact .ok (hP _ _ h)
  | error h => exact .error h

variable {σ α β γ δ : Type} {E : RollError → RollError → Prop}

/-- Two steps that come to related results and to the same roller, from all states with one roller. -/
def Lockstep (E : RollError → RollError → Prop) (P : α → β → Prop) (step : RollM σ α)
    (other : RollM σ β) : Prop :=
  ∀ s t, s.roller = t.roller → Matched E P (step.run.run s).1 (other.run.run t).1 ∧
    (step.run.run s).2.roller = (other.run.run t).2.roller

namespace Lockstep

variable {P : α → β → Prop} {Q : γ → δ → Prop}

theorem lift {r : Except RollError α} {r' : Except RollError β} (h : Matched E P r r') :
    Lockstep E P (liftM r : RollM σ α) (liftM r' : RollM σ β) :=
  fun _ _ hroller => ⟨h, hroller⟩

theorem pure {a : α} {b : β} (h : P a b) :
    Lockstep E P (pure a : RollM σ α) (pure b : RollM σ β) :=
  fun _ _ hroller => ⟨.ok h, hroller⟩

theorem bind {step : RollM σ α} {other : RollM σ β} {next : α → RollM σ γ} {after : β → RollM σ δ}
    (hstep : Lockstep E P step other) (hnext : ∀ a b, P a b → Lockstep E Q (next a) (after b)) :
    Lockstep E Q (step >>= next) (other >>= after) := by
  intro s t hroller
  obtain ⟨hresult, hafter⟩ := hstep s t hroller
  rw [run_bind, run_bind]
  cases hs : step.run.run s with
  | mk r s' =>
    cases ht : other.run.run t with
    | mk r' t' =>
      rw [hs, ht] at hresult hafter
      cases hresult with
      | ok h => exact hnext _ _ h s' t' hafter
      | error h => exact ⟨.error h, hafter⟩

theorem andThen {step other : RollM σ α} {next : α → RollM σ γ} {after : α → RollM σ δ}
    (hstep : Lockstep E Eq step other) (hnext : ∀ a, Lockstep E Q (next a) (after a)) :
    Lockstep E Q (step >>= next) (other >>= after) := by
  refine hstep.bind ?_
  rintro a _ rfl
  exact hnext a

theorem mono {step : RollM σ α} {other : RollM σ β} {P' : α → β → Prop} (h : Lockstep E P step other)
    (hP : ∀ a b, P a b → P' a b) : Lockstep E P' step other :=
  fun s t hroller => ⟨(h s t hroller).1.mono hP, (h s t hroller).2⟩

theorem sumTimes {step other : RollM σ Int} (h : Lockstep E Eq step other) (n : Nat) (total : Int) :
    Lockstep E Eq (sumTimes step n total) (sumTimes other n total) := by
  induction n generalizing total with
  | zero => exact .pure rfl
  | succ n ih => exact h.andThen fun value => ih (total + value)

end Lockstep

theorem Matched.refl (hE : ∀ e, E e e) (r : Except RollError α) : Matched E Eq r r := by
  cases r with
  | ok a => exact .ok rfl
  | error e => exact .error (hE e)

theorem Matched.eq {r r' : Except RollError α} (h : Matched Eq Eq r r') : r = r' := by
  cases h with
  | ok h => rw [h]
  | error h => rw [h]

/-- A step that goes side by side with itself comes to the same whatever was reported before. -/
theorem Lockstep.run_eq {step : RollM σ α} (h : Lockstep Eq Eq step step) {s t : RollState σ}
    (hroller : s.roller = t.roller) :
    (step.run.run s).1 = (step.run.run t).1 ∧
      (step.run.run s).2.roller = (step.run.run t).2.roller :=
  ⟨(h s t hroller).1.eq, (h s t hroller).2⟩

/-! ### Sequences from states with one roller -/

section

variable [Roller σ] (limits : Limits)

theorem lockstep_rollDice (hE : ∀ e, E e e) (count sides : Int) (keep : Keep) :
    Lockstep E Eq (rollDice limits count sides keep : RollM σ Int)
      (rollDice limits count sides keep) := by
  intro s t hroller
  rw [run_rollDice, run_rollDice, ← hroller]
  split
  · exact ⟨.refl hE _, hroller⟩
  · split
    · exact ⟨.refl hE _, hroller⟩
    · exact ⟨.ok rfl, rfl⟩

mutual

theorem Token.lockstep_run (hE : ∀ e, E e e) (t : Token) (stack : List Int) :
    Lockstep E Eq (t.run limits stack : RollM σ (List Int)) (t.run limits stack) := by
  cases t with
  | literal value => exact .pure rfl
  | operator op => exact .lift (.refl hE _)
  | dice count sides keep =>
    refine (count.lockstep_run hE []).andThen fun left => ?_
    refine (Lockstep.lift (.refl hE (settle left))).andThen fun n => ?_
    exact (lockstep_rollDice limits hE n sides keep).andThen fun total => .pure rfl
  | group multiplier body =>
    -- Both loops take as many turns, and each turn starts where the one before left the roller.
    have hvalue := (body.lockstep_run hE []).andThen fun left => Lockstep.lift (.refl hE (settle left))
    refine (multiplier.lockstep_run hE []).andThen fun left => ?_
    refine (Lockstep.lift (.refl hE (settle left))).andThen fun n => ?_
    exact (hvalue.sumTimes n.natAbs 0).andThen fun total => .pure rfl

theorem Postfix.lockstep_run (hE : ∀ e, E e e) (p : Postfix) (stack : List Int) :
    Lockstep E Eq (p.run limits stack : RollM σ (List Int)) (p.run limits stack) := by
  cases p with
  | single t => exact t.lockstep_run hE stack
  | cons t rest => exact (t.lockstep_run hE stack).andThen fun after => rest.lockstep_run hE after

end

theorem Postfix.lockstep_value (hE : ∀ e, E e e) (p : Postfix) :
    Lockstep E Eq (p.value limits : RollM σ Int) (p.value limits) :=
  (p.lockstep_run limits hE []).andThen fun stack => .lift (.refl hE (settle stack))

end

end DiceExpr
