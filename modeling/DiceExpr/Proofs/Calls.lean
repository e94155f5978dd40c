import DiceExpr.Proofs.Refusals
import DiceExpr.Proofs.Values
import DiceExpr.Roller.Record

/-!
# Calls for dice

Evaluating a sequence touches the roller only where it calls for dice, and it calls for them one roll
after the other. A call rolls just as many dice as its count says, within the limits, or it is refused
before any die is rolled, which ends the evaluation. So no die is ever rolled that has fewer than two
faces, and of a text that was read none that has more than the limits allow.

## Main statements

* `Token.rollsOnly_run`, `Postfix.rollsOnly_run`: evaluating calls only for dice of the sequence.
* `DiceCall.isProper`: what a call for dice does to a roller that keeps a record.
* `evaluate_draws`: the statement for whole texts, and for sequences made in any way.
-/

namespace DiceExpr

section

variable {σ : Type} [Roller σ]

/-! ### Courses -/

/-- A call for dice, with the state in which it is made. -/
structure DiceCall (σ : Type) where
  count : Int
  sides : Int
  keep : Keep
  before : RollState σ

def DiceCall.outcome (limits : Limits) (c : DiceCall σ) : Except RollError Int × RollState σ :=
  (rollDice limits c.count c.sides c.keep).run.run c.before

/-- An error by which dice are refused. -/
def RollError.IsOfDice : RollError → Prop
  | .tooManyDice _ | .invalidDie _ => True
  | .zeroDivision | .malformed _ => False

/-- A way from a state to a result and another state on which nothing but calls for dice touches the
state. The way goes on after a call that gives a total, and ends where dice are refused. Its ends leave
no choice of the calls that give a total (`Course.rolled_unique`). -/
inductive Course (limits : Limits) {α : Type} :
    RollState σ → List (DiceCall σ) → Except RollError α → RollState σ → Prop
  | ends {s : RollState σ} {r : Except RollError α} (h : ∀ e, r = .error e → ¬e.IsOfDice) :
      Course limits s [] r s
  | refused {c : DiceCall σ} {e : RollError} {s : RollState σ}
      (h : c.outcome limits = (.error e, s)) : Course limits c.before [c] (.error e) s
  | rolled {c : DiceCall σ} {total : Int} {next s : RollState σ} {calls : List (DiceCall σ)}
      {r : Except RollError α} (h : c.outcome limits = (.ok total, next))
      (later : Course limits next calls r s) : Course limits c.before (c :: calls) r s

variable {limits : Limits} {α β : Type} {s next last : RollState σ} {calls more : List (DiceCall σ)}

/-- A call gives a total or refuses the dice. -/
theorem DiceCall.isOfDice_of_outcome {c : DiceCall σ} {e : RollError}
    (h : c.outcome limits = (.error e, s)) : e.IsOfDice := by
  rw [DiceCall.outcome, run_rollDice] at h
  split at h
  · cases h
    trivial
  · split at h
    · cases h
      trivial
    · cases h

theorem Course.append {a : α} {r : Except RollError β} (h : Course limits s calls (.ok a) next)
    (hmore : Course limits next more r last) : Course limits s (calls ++ more) r last := by
  generalize hr : (Except.ok a : Except RollError α) = first at h
  induction h with
  | ends => exact hmore
  | refused => cases hr
  | rolled hcall _ ih => exact .rolled hcall (ih hmore hr)

theorem Course.error {e : RollError} (h : Course limits s calls (.error e : Except RollError α) last) :
    Course limits s calls (.error e : Except RollError β) last := by
  generalize hr : (Except.error e : Except RollError α) = first at h
  induction h with
  | ends hends =>
    subst hr
    exact .ends fun _ he => by
      cases he
      exact hends e rfl
  | refused hcall =>
    cases hr
    exact .refused hcall
  | rolled hcall _ ih => exact .rolled hcall (ih hr)

/-! ### Steps that roll only some dice -/

/-- A step of rolling that touches the state only by calls for some dice. -/
def RollsOnly (limits : Limits) (dice : List (Int × Keep)) (step : RollM σ α) : Prop :=
  ∀ s, ∃ calls, Course limits s calls (step.run.run s).1 (step.run.run s).2 ∧
    ∀ c ∈ calls, (c.sides, c.keep) ∈ dice

namespace RollsOnly

variable {dice others : List (Int × Keep)}

theorem lift {r : Except RollError α} (h : ∀ e, r = .error e → ¬e.IsOfDice) :
    RollsOnly limits dice (liftM r : RollM σ α) :=
  fun _ => ⟨[], .ends h, by simp⟩

theorem pure (a : α) : RollsOnly limits dice (pure a : RollM σ α) :=
  fun _ => ⟨[], .ends nofun, by simp⟩

theorem mono {step : RollM σ α} (h : RollsOnly limits dice step) (hsub : dice ⊆ others) :
    RollsOnly limits others step := by
  intro s
  obtain ⟨calls, hcourse, hcalls⟩ := h s
  exact ⟨calls, hcourse, fun c hc => hsub (hcalls c hc)⟩

theorem bind {step : RollM σ α} {after : α → RollM σ β} (hstep : RollsOnly limits dice step)
    (hafter : ∀ a, RollsOnly limits dice (after a)) : RollsOnly limits dice (step >>= after) := by
  intro s
  obtain ⟨calls, hcourse, hcalls⟩ := hstep s
  rw [run_bind]
  cases hr : step.run.run s with
  | mk r next =>
    rw [hr] at hcourse
    cases r with
    | error e => exact ⟨calls, hcourse.error, hcalls⟩
    | ok a =>
      obtain ⟨more, hmore, hmoreCalls⟩ := hafter a next
      exact ⟨calls ++ more, hcourse.append hmore, List.forall_mem_append.2 ⟨hcalls, hmoreCalls⟩⟩

theorem sumTimes {step : RollM σ Int} (h : RollsOnly limits dice step) (n : Nat) (total : Int) :
    RollsOnly limits dice (sumTimes step n total) := by
  induction n generalizing total with
  | zero => exact .pure total
  | succ n ih => exact h.bind fun value => ih (total + value)

theorem rollDice {count sides : Int} {keep : Keep} (h : (sides, keep) ∈ dice) :
    RollsOnly limits dice (rollDice limits count sides keep : RollM σ Int) := by
  intro s
  let call : DiceCall σ := ⟨count, sides, keep, s⟩
  refine ⟨[call], ?_, by simpa using h⟩
  have houtcome : call.outcome limits = (DiceExpr.rollDice limits count sides keep).run.run s := rfl
  cases hr : (DiceExpr.rollDice limits count sides keep).run.run s with
  | mk r last =>
    rw [hr] at houtcome
    cases r with
    | error e => exact .refused houtcome
    | ok total => exact .rolled houtcome (.ends nofun)

end RollsOnly

/-! ### Sequences -/

theorem settle_not_isOfDice (stack : List Int) (e : RollError) (h : settle stack = .error e) :
    ¬e.IsOfDice := by
  match stack with
  | [value] => cases h
  | [] =>
    cases h
    exact id
  | _ :: _ :: _ =>
    cases h
    exact id

theorem applyOnStack_not_isOfDice (op : Operator) (stack : List Int) (e : RollError)
    (h : applyOnStack op stack = .error e) : ¬e.IsOfDice := by
  match stack with
  | [] | [_] =>
    cases h
    exact id
  | b :: a :: rest =>
    simp only [applyOnStack] at h
    split at h
    · cases h
    · cases h
      exact id

mutual

theorem Token.rollsOnly_run (t : Token) (stack : List Int) :
    RollsOnly limits t.diceWithin (t.run limits stack : RollM σ (List Int)) := by
  cases t with
  | literal value => exact .pure _
  | operator op => exact .lift (applyOnStack_not_isOfDice op stack)
  | dice count sides keep =>
    have hcount := (count.rollsOnly_run []).mono (List.subset_cons_self (sides, keep) count.diceWithin)
    refine hcount.bind fun left => ?_
    refine (RollsOnly.lift (settle_not_isOfDice left)).bind fun n => ?_
    exact (RollsOnly.rollDice (by simp)).bind fun total => .pure _
  | group multiplier body =>
    have hmultiplier := (multiplier.rollsOnly_run []).mono
      (List.subset_append_left multiplier.diceWithin body.diceWithin)
    have hbody := (body.rollsOnly_run []).mono
      (List.subset_append_right multiplier.diceWithin body.diceWithin)
    have hvalue := hbody.bind fun left => RollsOnly.lift (settle_not_isOfDice left)
    rw [Token.diceWithin_group]
    refine hmultiplier.bind fun left => ?_
    refine (RollsOnly.lift (settle_not_isOfDice left)).bind fun n => ?_
    exact (hvalue.sumTimes n.natAbs 0).bind fun total => .pure _

theorem Postfix.rollsOnly_run (p : Postfix) (stack : List Int) :
    RollsOnly limits p.diceWithin (p.run limits stack : RollM σ (List Int)) := by
  cases p with
  | single t => exact t.rollsOnly_run stack
  | cons t rest =>
    have hfirst := (t.rollsOnly_run stack).mono
      (List.subset_append_left t.diceWithin rest.diceWithin)
    have hrest (after : List Int) := (rest.rollsOnly_run after).mono
      (List.subset_append_right t.diceWithin rest.diceWithin)
    rw [Postfix.diceWithin_cons]
    exact hfirst.bind hrest

end

theorem Postfix.rollsOnly_value (p : Postfix) :
    RollsOnly limits p.diceWithin (p.value limits : RollM σ Int) :=
  (p.rollsOnly_run []).bind fun stack => .lift (settle_not_isOfDice stack)

theorem Postfix.exists_course (p : Postfix) (limits : Limits) (roller : σ) :
    ∃ calls, Course limits { roller } calls (p.roll limits roller).1 (p.roll limits roller).2 ∧
      ∀ c ∈ calls, (c.sides, c.keep) ∈ p.diceWithin :=
  p.rollsOnly_value { roller }

/-! ### Records -/

/-- A call that rolls as many dice as the size of its count says, all at once and within the limits, or
is refused before any die is rolled. -/
inductive DiceCall.IsProper (limits : Limits) (c : DiceCall (Recorded σ)) : Prop
  | rolled {total : Int} {after : RollState (Recorded σ)} {drawn : List Draw}
      (outcome : c.outcome limits = (.ok total, after))
      (history : after.roller.history = c.before.roller.history ++ drawn)
      (length : drawn.length = c.count.natAbs) (le : c.count.natAbs ≤ limits.maxDice)
      (sides : ∀ d ∈ drawn, 2 ≤ d.sides ∧ (d.sides : Int) = c.sides)
  | refused {e : RollError} (outcome : c.outcome limits = (.error e, c.before))
      (why : e = .tooManyDice c.count ∨ e = .invalidDie c.sides)

theorem DiceCall.isProper (limits : Limits) (c : DiceCall (Recorded σ)) : c.IsProper limits := by
  have houtcome : c.outcome limits = (rollDice limits c.count c.sides c.keep).run.run c.before := rfl
  rw [run_rollDice] at houtcome
  split at houtcome
  · exact .refused houtcome (.inl rfl)
  · next hcount =>
    split at houtcome
    · exact .refused houtcome (.inr rfl)
    · next hsides =>
      refine .rolled houtcome (Recorded.history_rollMany _ _ _) ?_ (Nat.not_lt.1 hcount) ?_
      · rw [List.length_map, Roller.length_rollMany]
      · intro d hd
        obtain ⟨result, -, rfl⟩ := List.mem_map.1 hd
        simp only
        omega

/-- The dice that are rolled on a course are those of its calls. -/
theorem Course.exists_drawn {s last : RollState (Recorded σ)} {calls : List (DiceCall (Recorded σ))}
    {r : Except RollError α} (h : Course limits s calls r last) :
    ∃ drawn, last.roller.history = s.roller.history ++ drawn ∧
      ∀ d ∈ drawn, 2 ≤ d.sides ∧ ∃ c ∈ calls, (d.sides : Int) = c.sides := by
  induction h with
  | ends => exact ⟨[], by simp, by simp⟩
  | @refused c e s hcall =>
    cases c.isProper limits with
    | rolled outcome =>
      rw [hcall] at outcome
      cases outcome
    | refused outcome =>
      rw [hcall] at outcome
      cases outcome
      exact ⟨[], by simp, by simp⟩
  | @rolled c total next last calls r hcall _ ih =>
    obtain ⟨more, hmore, hlater⟩ := ih
    cases c.isProper limits with
    | refused outcome =>
      rw [hcall] at outcome
      cases outcome
    | @rolled _ _ drawn outcome history length le sides =>
      rw [hcall] at outcome
      cases outcome
      refine ⟨drawn ++ more, by rw [hmore, history, List.append_assoc], ?_⟩
      refine List.forall_mem_append.2 ⟨fun d hd => ?_, fun d hd => ?_⟩
      · exact ⟨(sides d hd).1, c, List.mem_cons_self, (sides d hd).2⟩
      · obtain ⟨htwo, c', hc', heq⟩ := hlater d hd
        exact ⟨htwo, c', List.mem_cons_of_mem c hc', heq⟩

/-! ### Texts -/

variable {S : Type} [FormulaStore S]

/-- Evaluating a text that cannot be read leaves the roller as it was. Evaluating any other touches it
only by calls for dice, each of which rolls as many dice as its count says, within the limits, or is
refused before any die is rolled. Every die that is rolled has at least two faces and no more than the
limits allow. But for the upper bound on the faces, which is a matter of reading, the same holds of
every sequence. -/
theorem evaluate_draws (e : Engine (Recorded σ) S) (text : String) :
    (∀ why, e.parse text = .error why →
      (e.evaluate text).result = .error (.parse why) ∧ (e.evaluate text).engine = e) ∧
    (∀ p, e.parse text = .ok p →
      (e.evaluate text).result = (p.roll e.limits e.roller).1.mapError .roll ∧
      (e.evaluate text).engine = { e with roller := (p.roll e.limits e.roller).2.roller } ∧
      ∃ calls, Course e.limits { roller := e.roller } calls (p.roll e.limits e.roller).1
          (p.roll e.limits e.roller).2 ∧
        ∀ c ∈ calls, c.IsProper e.limits ∧ c.sides ≤ e.limits.maxSides) ∧
    (∃ drawn, (e.evaluate text).engine.roller.history = e.roller.history ++ drawn ∧
      ∀ d ∈ drawn, 2 ≤ d.sides ∧ d.sides ≤ e.limits.maxSides) ∧
    ∀ (p : Postfix) (limits : Limits) (roller : Recorded σ),
      ∃ calls drawn, Course limits { roller } calls (p.roll limits roller).1 (p.roll limits roller).2 ∧
        (∀ c ∈ calls, c.IsProper limits) ∧
        (p.roll limits roller).2.roller.history = roller.history ++ drawn ∧
        ∀ d ∈ drawn, 2 ≤ d.sides := by
  have hcalls (p : Postfix) (hp : e.parse text = .ok p) :
      ∃ calls, Course e.limits { roller := e.roller } calls (p.roll e.limits e.roller).1
          (p.roll e.limits e.roller).2 ∧
        ∀ c ∈ calls, c.IsProper e.limits ∧ c.sides ≤ e.limits.maxSides := by
    obtain ⟨calls, hcourse, hdice⟩ := p.exists_course e.limits e.roller
    refine ⟨calls, hcourse, fun c hc => ⟨c.isProper e.limits, ?_⟩⟩
    exact sides_le_of_parse hp (c.sides, c.keep) (hdice c hc)
  refine ⟨fun why => evaluate_of_parse_error, ?_, ?_, ?_⟩
  · intro p hp
    obtain ⟨hresult, hengine, -⟩ := evaluate_of_parse hp
    exact ⟨hresult, hengine, hcalls p hp⟩
  · cases hp : e.parse text with
    | error why => exact ⟨[], by simp [(evaluate_of_parse_error hp).2], by simp⟩
    | ok p =>
      obtain ⟨-, hengine, -⟩ := evaluate_of_parse hp
      obtain ⟨calls, hcourse, hsides⟩ := hcalls p hp
      obtain ⟨drawn, hhistory, hdrawn⟩ := hcourse.exists_drawn
      refine ⟨drawn, by rw [hengine, hhistory], fun d hd => ?_⟩
      obtain ⟨htwo, c, hc, heq⟩ := hdrawn d hd
      have hle := (hsides c hc).2
      exact ⟨htwo, by omega⟩
  · intro p limits roller
    obtain ⟨calls, hcourse, -⟩ := p.exists_course limits roller
    obtain ⟨drawn, hhistory, hdrawn⟩ := hcourse.exists_drawn
    exact ⟨calls, drawn, hcourse, fun c _ => c.isProper limits, hhistory, fun d hd => (hdrawn d hd).1⟩

end

end DiceExpr
