import DiceExpr.Proofs.Calls
import DiceExpr.Roller.Scripted

/-!
# Smaller limits on dice

The limit on the number of dice is looked at in one place, right before dice are rolled. Under a smaller
limit an evaluation goes the way it goes under a larger one, with the same dice, up to the first roll
that only the larger limit allows. There it ends, also where the count of that roll was rolled itself,
inside a body that is being repeated.

## Main definitions

* `CutShort`: a run that ended where a larger limit let it go on.
* `Curtails`: steps under two limits.

## Main statements

* `Curtails.bind`: steps that are the same or cut short make up runs that are.
* `Token.curtails_run`, `Postfix.curtails_run`: evaluating a sequence under two limits.
* `roll_cutShort`: the statement for whole sequences.
-/

namespace DiceExpr

section

variable {σ : Type} [Roller σ] {α β : Type} {small large : Limits}

variable (small large) in
/-- A run that was refused dice which larger limits allow, and the run under these, which goes on from
the state where the first one ended. -/
def CutShort (cut whole : Except RollError α × RollState σ) : Prop :=
  ∃ (n : Int) (calls : List (DiceCall σ)), small.maxDice < n.natAbs ∧ n.natAbs ≤ large.maxDice ∧
    cut.1 = .error (.tooManyDice n) ∧ Course large cut.2 calls whole.1 whole.2

variable (small large) in
/-- Two steps, of which the first one is the second one under smaller limits. What the second one does
after the first one was cut short are calls for some dice. -/
structure Curtails (dice : List (Int × Keep)) (step other : RollM σ α) : Prop where
  rolls : RollsOnly large dice other
  same_or_cut : ∀ s, step.run.run s = other.run.run s ∨
    CutShort small large (step.run.run s) (other.run.run s)

namespace Curtails

variable {dice others : List (Int × Keep)}

theorem lift {r : Except RollError α} (h : ∀ e, r = .error e → ¬e.IsOfDice) :
    Curtails small large dice (liftM r : RollM σ α) (liftM r) :=
  ⟨.lift h, fun _ => .inl rfl⟩

theorem pure (a : α) : Curtails small large dice (pure a : RollM σ α) (pure a) :=
  ⟨.pure a, fun _ => .inl rfl⟩

theorem mono {step other : RollM σ α} (h : Curtails small large dice step other)
    (hsub : dice ⊆ others) : Curtails small large others step other :=
  ⟨h.rolls.mono hsub, h.same_or_cut⟩

theorem bind {step other : RollM σ α} {next after : α → RollM σ β}
    (hstep : Curtails small large dice step other)
    (hnext : ∀ a, Curtails small large dice (next a) (after a)) :
    Curtails small large dice (step >>= next) (other >>= after) := by
  refine ⟨hstep.rolls.bind fun a => (hnext a).rolls, fun s => ?_⟩
  have hsame := hstep.same_or_cut s
  rw [run_bind, run_bind]
  cases hcut : step.run.run s with
  | mk r cut =>
    cases hwhole : other.run.run s with
    | mk r' whole =>
      rw [hcut, hwhole] at hsame
      rcases hsame with hsame | ⟨n, calls, hsmall, hlarge, herror, hcourse⟩
      · cases hsame
        cases r with
        | error e => exact .inl rfl
        | ok a => exact (hnext a).same_or_cut cut
      · -- The first run is over, and the second one goes on with the next step.
        obtain rfl : r = .error (.tooManyDice n) := herror
        cases r' with
        | error e => exact .inr ⟨n, calls, hsmall, hlarge, rfl, hcourse.error⟩
        | ok a =>
          obtain ⟨more, hmore, -⟩ := (hnext a).rolls whole
          exact .inr ⟨n, calls ++ more, hsmall, hlarge, rfl, hcourse.append hmore⟩

theorem sumTimes {step other : RollM σ Int} (h : Curtails small large dice step other) (n : Nat)
    (total : Int) :
    Curtails small large dice (sumTimes step n total) (DiceExpr.sumTimes other n total) := by
  induction n generalizing total with
  | zero => exact .pure total
  | succ n ih => exact h.bind fun value => ih (total + value)

theorem rollDice (hle : small.maxDice ≤ large.maxDice) {count sides : Int} {keep : Keep}
    (h : (sides, keep) ∈ dice) :
    Curtails small large dice (rollDice small count sides keep : RollM σ Int)
      (DiceExpr.rollDice large count sides keep) := by
  refine ⟨.rollDice h, fun s => ?_⟩
  by_cases hsmall : small.maxDice < count.natAbs
  · have hrefused : (DiceExpr.rollDice small count sides keep).run.run s =
        (.error (.tooManyDice count), s) := by rw [run_rollDice, if_pos hsmall]
    by_cases hlarge : large.maxDice < count.natAbs
    · rw [hrefused, run_rollDice, if_pos hlarge]
      exact .inl rfl
    · have hrolls : RollsOnly large dice (DiceExpr.rollDice large count sides keep : RollM σ Int) :=
        .rollDice h
      obtain ⟨calls, hcourse, -⟩ := hrolls s
      rw [hrefused]
      exact .inr ⟨count, calls, hsmall, Nat.not_lt.1 hlarge, rfl, hcourse⟩
  · have hlarge : ¬large.maxDice < count.natAbs := by omega
    rw [run_rollDice, run_rollDice, if_neg hsmall, if_neg hlarge]
    exact .inl rfl

end Curtails

/-! ### Sequences -/

mutual

theorem Token.curtails_run (hle : small.maxDice ≤ large.maxDice) (t : Token) (stack : List Int) :
    Curtails small large t.diceWithin (t.run small stack : RollM σ (List Int)) (t.run large stack) := by
  cases t with
  | literal value => exact .pure _
  | operator op => exact .lift (applyOnStack_not_isOfDice op stack)
  | dice count sides keep =>
    have hcount := (count.curtails_run hle []).mono (List.subset_cons_self (sides, keep) _)
    refine hcount.bind fun left => ?_
    refine (Curtails.lift (settle_not_isOfDice left)).bind fun n => ?_
    exact (Curtails.rollDice hle (by simp)).bind fun total => .pure _
  | group multiplier body =>
    -- Both loops take as many turns, until the first one is cut short in one of them.
    have hmultiplier := (multiplier.curtails_run hle []).mono
      (List.subset_append_left multiplier.diceWithin body.diceWithin)
    have hbody := (body.curtails_run hle []).mono
      (List.subset_append_right multiplier.diceWithin body.diceWithin)
    have hvalue := hbody.bind fun left => Curtails.lift (settle_not_isOfDice left)
    rw [Token.diceWithin_group]
    refine hmultiplier.bind fun left => ?_
    refine (Curtails.lift (settle_not_isOfDice left)).bind fun n => ?_
    exact (hvalue.sumTimes n.natAbs 0).bind fun total => .pure _

theorem Postfix.curtails_run (hle : small.maxDice ≤ large.maxDice) (p : Postfix) (stack : List Int) :
    Curtails small large p.diceWithin (p.run small stack : RollM σ (List Int))
      (p.run large stack) := by
  cases p with
  | single t => exact t.curtails_run hle stack
  | cons t rest =>
    have hfirst := (t.curtails_run hle stack).mono
      (List.subset_append_left t.diceWithin rest.diceWithin)
    have hrest (after : List Int) := (rest.curtails_run hle after).mono
      (List.subset_append_right t.diceWithin rest.diceWithin)
    rw [Postfix.diceWithin_cons]
    exact hfirst.bind hrest

end

theorem Postfix.same_or_cut_roll (hle : small.maxDice ≤ large.maxDice) (p : Postfix) (roller : σ) :
    p.roll small roller = p.roll large roller ∨
      CutShort small large (p.roll small roller) (p.roll large roller) := by
  have hvalue := (p.curtails_run (σ := σ) hle []).bind fun stack =>
    Curtails.lift (settle_not_isOfDice stack)
  exact hvalue.same_or_cut { roller }

/-- What is rolled before a run is cut short comes first among what is rolled when it goes on. -/
theorem CutShort.exists_drawn {cut whole : Except RollError α × RollState (Recorded σ)}
    (h : CutShort small large cut whole) :
    ∃ (n : Int) (more : List Draw), small.maxDice < n.natAbs ∧ n.natAbs ≤ large.maxDice ∧
      cut.1 = .error (.tooManyDice n) ∧
      whole.2.roller.history = cut.2.roller.history ++ more := by
  obtain ⟨n, calls, hsmall, hlarge, herror, hcourse⟩ := h
  obtain ⟨more, hmore, -⟩ := hcourse.exists_drawn
  exact ⟨n, more, hsmall, hlarge, herror, hmore⟩

/-- Under a smaller limit on dice a sequence comes to what it comes to under a larger one, with the same
dice and from every roller to the same, or it is refused dice that the larger one allows. In that case
the dice it rolled before are the first of those that it rolls under the larger limit. So a value under
some limit is the value under every larger one. -/
theorem roll_cutShort (p : Postfix) {small large : Limits} (h : small.maxDice ≤ large.maxDice) :
    (∀ roller : σ, p.roll small roller = p.roll large roller ∨
      ∃ n : Int, small.maxDice < n.natAbs ∧ n.natAbs ≤ large.maxDice ∧
        (p.roll small roller).1 = .error (.tooManyDice n)) ∧
    (∀ roller : Recorded σ, p.roll small roller = p.roll large roller ∨
      ∃ (n : Int) (drawn more : List Draw), small.maxDice < n.natAbs ∧ n.natAbs ≤ large.maxDice ∧
        (p.roll small roller).1 = .error (.tooManyDice n) ∧
        (p.roll small roller).2.roller.history = roller.history ++ drawn ∧
        (p.roll large roller).2.roller.history = roller.history ++ drawn ++ more) ∧
    ∀ (roller : σ) (value : Int), (p.roll small roller).1 = .ok value →
      p.roll large roller = p.roll small roller := by
  refine ⟨?_, ?_, ?_⟩
  · intro roller
    refine (p.same_or_cut_roll h roller).imp_right ?_
    rintro ⟨n, -, hsmall, hlarge, herror, -⟩
    exact ⟨n, hsmall, hlarge, herror⟩
  · intro roller
    refine (p.same_or_cut_roll h roller).imp_right fun hcut => ?_
    obtain ⟨n, more, hsmall, hlarge, herror, hmore⟩ := hcut.exists_drawn
    obtain ⟨calls, hcourse, -⟩ := p.exists_course small roller
    obtain ⟨drawn, hdrawn, -⟩ := hcourse.exists_drawn
    exact ⟨n, drawn, more, hsmall, hlarge, herror, hdrawn, by rw [hmore, hdrawn]⟩
  · intro roller value hvalue
    rcases p.same_or_cut_roll h roller with hsame | ⟨n, -, -, -, herror, -⟩
    · exact hsame.symm
    · rw [hvalue] at herror
      cases herror

end

/-- Two dice show how many dice are rolled next, which are three, while the limit is two. -/
theorem roll_cutShort_chained :
    ({ maxDice := 2 } : Limits).maxDice ≤ ({} : Limits).maxDice ∧
      ∃ (n : Int) (drawn more : List Draw), 2 < n.natAbs ∧ n.natAbs ≤ 1000000 ∧
        ((Postfix.single (.dice (.single (.dice (.literal 2) 6 .all)) 4 .all)).roll { maxDice := 2 }
          ({ roller := {} } : Recorded Stepping)).1 = .error (.tooManyDice n) ∧
        ((Postfix.single (.dice (.single (.dice (.literal 2) 6 .all)) 4 .all)).roll { maxDice := 2 }
          ({ roller := {} } : Recorded Stepping)).2.roller.history = [] ++ drawn ∧
        ((Postfix.single (.dice (.single (.dice (.literal 2) 6 .all)) 4 .all)).roll {}
          ({ roller := {} } : Recorded Stepping)).2.roller.history = [] ++ drawn ++ more := by
  have hle : ({ maxDice := 2 } : Limits).maxDice ≤ ({} : Limits).maxDice := by decide
  have hcut : ((Postfix.single (.dice (.single (.dice (.literal 2) 6 .all)) 4 .all)).roll
      { maxDice := 2 } ({ roller := {} } : Recorded Stepping)).1 = .error (.tooManyDice 3) := by
    decide +kernel
  have hwhole : ((Postfix.single (.dice (.single (.dice (.literal 2) 6 .all)) 4 .all)).roll
      {} ({ roller := {} } : Recorded Stepping)).1 = .ok 8 := by
    decide +kernel
  have hsame_or_cut := (roll_cutShort (.single (.dice (.single (.dice (.literal 2) 6 .all)) 4 .all))
    hle).2.1 ({ roller := {} } : Recorded Stepping)
  refine ⟨hle, hsame_or_cut.resolve_left fun hsame => ?_⟩
  rw [hsame, hwhole] at hcut
  cases hcut

end DiceExpr
