import DiceExpr.Proofs.Endings
import DiceExpr.Proofs.Repetition

/-!
# Heights of stacks

How high the stack of a sequence is after some of its tokens can be said without rolling any die: as
high as there are values among them, less the operators. So whether a sequence has a value is a matter of
its tokens first and of the rolls second. An operator that is reached at a height of less than two is an
error that names the height, and so is an end at any height but one. Otherwise it is the first token
that fails that ends the sequence.

## Main definitions

* `Runs`: tokens that are run one after the other.
* `WorksOut`: the sequences that are worked out while a sequence is.

## Main statements

* `Token.height_of_run`, `Runs.height_eq`: the size of the stack after a token and after a run.
* `WorksOut.hasShape`: what is worked out on the way to a value has the right heights.
* `value_follows_height`: how a sequence ends, by its heights.
-/

namespace DiceExpr

/-- The height of a stack after some tokens: their values, less their operators. -/
def height (ts : List Token) : Int := valueCount ts - operatorCount ts

/-- A loop that comes to its end has a value on each of its turns. -/
theorem value_of_sumTimes {σ : Type} {step : RollM σ Int} {n done : Nat} {total sofar : Int}
    {s last mid : RollState σ} (h : (sumTimes step n 0).run.run s = (.ok total, last))
    (hdone : (sumTimes step done 0).run.run s = (.ok sofar, mid)) (more : done < n) :
    ∃ value next, step.run.run mid = (.ok value, next) := by
  obtain ⟨left, rfl⟩ : ∃ left, n = done + (left + 1) := ⟨n - done - 1, by omega⟩
  rw [sumTimes_append, run_bind_of_ok hdone] at h
  obtain ⟨value, next, hstep, -⟩ := run_bind_eq_ok_iff.1 h
  exact ⟨value, next, hstep⟩

section

variable {σ : Type} [Roller σ] {limits : Limits} {t : Token} {ts us before after : List Token}
  {stack next last : List Int} {s s' s'' : RollState σ} {e : RollError}

/-! ### Runs -/

variable (limits) in
/-- Tokens that are run one after the other, all of them with success: from a stack and a state to
others. -/
inductive Runs : List Token → List Int → RollState σ → List Int → RollState σ → Prop
  | nil {stack : List Int} {s : RollState σ} : Runs [] stack s stack s
  | cons {t : Token} {ts : List Token} {stack next last : List Int} {s s' s'' : RollState σ}
      (first : (t.run limits stack).run.run s = (.ok next, s')) (later : Runs ts next s' last s'') :
      Runs (t :: ts) stack s last s''

namespace Runs

theorem of_append (h : Runs limits (ts ++ us) stack s last s'') :
    ∃ next s', Runs limits ts stack s next s' ∧ Runs limits us next s' last s'' := by
  induction ts generalizing stack s with
  | nil => exact ⟨stack, s, .nil, h⟩
  | cons t ts ih =>
    cases h with
    | cons first later =>
      obtain ⟨next, s', hts, hus⟩ := ih later
      exact ⟨next, s', .cons first hts, hus⟩

theorem unique (h : Runs limits ts stack s next s') (h' : Runs limits ts stack s last s'') :
    next = last ∧ s' = s'' := by
  induction h with
  | nil =>
    cases h'
    exact ⟨rfl, rfl⟩
  | cons first _ ih =>
    cases h' with
    | cons first' later' =>
      obtain ⟨⟨⟩, ⟨⟩⟩ := Prod.mk.inj (first.symm.trans first')
      exact ih later'

/-- After a front part of the tokens, a run goes on with the next token where that part ends. -/
theorem run_next (h : Runs limits (before ++ t :: after) [] s last s'')
    (hbefore : Runs limits before [] s stack s') :
    ∃ next later, (t.run limits stack).run.run s' = (.ok next, later) := by
  obtain ⟨stack', mid, hbefore', hrest⟩ := h.of_append
  obtain ⟨rfl, rfl⟩ := hbefore.unique hbefore'
  cases hrest with
  | cons first _ => exact ⟨_, _, first⟩

end Runs

theorem Postfix.run_eq_ok_iff {p : Postfix} {stack last : List Int} {s s'' : RollState σ} :
    (p.run limits stack).run.run s = (.ok last, s'') ↔ Runs limits p.toList stack s last s'' := by
  match p with
  | .single t =>
    constructor
    · intro h
      exact .cons h .nil
    · rintro (_ | ⟨first, _ | _⟩)
      exact first
  | .cons t rest =>
    simp only [run, run_bind_eq_ok_iff]
    constructor
    · rintro ⟨next, s', first, later⟩
      exact .cons first (run_eq_ok_iff.1 later)
    · rintro (_ | ⟨first, later⟩)
      exact ⟨_, _, first, run_eq_ok_iff.2 later⟩

/-- Whatever tokens are left: where the next one fails, the sequence fails. -/
theorem Postfix.run_of_fails {p : Postfix} (hp : p.toList = before ++ t :: after)
    (hbefore : Runs limits before stack s next s')
    (hfails : (t.run limits next).run.run s' = (.error e, s'')) :
    (p.run limits stack).run.run s = (.error e, s'') := by
  induction hbefore generalizing p with
  | nil =>
    cases p with
    | single u =>
      obtain ⟨rfl, -⟩ := List.cons.inj hp
      exact hfails
    | cons u rest =>
      obtain ⟨rfl, -⟩ := List.cons.inj hp
      exact run_bind_of_error hfails
  | cons first _ ih =>
    cases p with
    | single u => simp [toList] at hp
    | cons u rest =>
      obtain ⟨rfl, hrest⟩ := List.cons.inj hp
      exact (run_bind_of_ok first).trans (ih hrest hfails)

/-- Either all tokens are run, or there is a first one that fails. -/
theorem runs_or_fails (ts : List Token) (stack : List Int) (s : RollState σ) :
    (∃ last s', Runs limits ts stack s last s') ∨
      ∃ before t after next s' e s'', ts = before ++ t :: after ∧
        Runs limits before stack s next s' ∧ (t.run limits next).run.run s' = (.error e, s'') := by
  induction ts generalizing stack s with
  | nil => exact .inl ⟨stack, s, .nil⟩
  | cons t ts ih =>
    cases hr : (t.run limits stack).run.run s with
    | mk r s' =>
      cases r with
      | error e => exact .inr ⟨[], t, ts, stack, s, e, s', rfl, .nil, hr⟩
      | ok next =>
        rcases ih next s' with ⟨last, s'', h⟩ | ⟨before, u, after, mid, s₁, e, s₂, rfl, h, hfails⟩
        · exact .inl ⟨last, s'', .cons hr h⟩
        · exact .inr ⟨t :: before, u, after, mid, s₁, e, s₂, rfl, .cons hr h, hfails⟩

/-! ### Heights along a run -/

theorem applyOnStack_of_short (op : Operator) (h : stack.length < 2) :
    applyOnStack op stack = .error (.malformed stack.length) := by
  match stack with
  | [] | [_] => rfl
  | _ :: _ :: _ =>
    simp only [List.length_cons] at h
    omega

theorem applyOnStack_of_ok {op : Operator} (h : applyOnStack op stack = .ok next) :
    2 ≤ stack.length ∧ next.length + 1 = stack.length := by
  rcases Nat.lt_or_ge stack.length 2 with hshort | hlong
  · rw [applyOnStack_of_short op hshort] at h
    cases h
  · have hend := endsIn_applyOnStack (M := fun _ => True) op hlong
    rw [h] at hend
    exact ⟨hlong, hend⟩

/-- A token that is no operator adds one value to the stack. -/
theorem Token.exists_value_of_run (ht : t.isOperator = false)
    (h : (t.run limits stack).run.run s = (.ok next, s')) : ∃ value, next = value :: stack := by
  cases t with
  | operator op => cases ht
  | literal value =>
    cases h
    exact ⟨value, rfl⟩
  | dice count sides keep =>
    obtain ⟨left, s₁, -, h⟩ := run_bind_eq_ok_iff.1 h
    obtain ⟨n, s₂, -, h⟩ := run_bind_eq_ok_iff.1 h
    obtain ⟨total, s₃, -, h⟩ := run_bind_eq_ok_iff.1 h
    cases h
    exact ⟨total, rfl⟩
  | group multiplier body =>
    obtain ⟨left, s₁, -, h⟩ := run_bind_eq_ok_iff.1 h
    obtain ⟨n, s₂, -, h⟩ := run_bind_eq_ok_iff.1 h
    obtain ⟨total, s₃, -, h⟩ := run_bind_eq_ok_iff.1 h
    cases h
    exact ⟨_, rfl⟩

theorem Token.height_of_run (h : (t.run limits stack).run.run s = (.ok next, s')) :
    (t.isOperator = true → 2 ≤ stack.length) ∧
      next.length + operatorCount [t] = stack.length + valueCount [t] := by
  cases ht : t.isOperator with
  | false =>
    obtain ⟨value, rfl⟩ := t.exists_value_of_run ht h
    have hoperators : operatorCount [t] = 0 := by simp [operatorCount, ht]
    have hvalues : valueCount [t] = 1 := by simp [valueCount, ht]
    exact ⟨nofun, by rw [hoperators, hvalues, List.length_cons, Nat.add_zero]⟩
  | true =>
    cases t with
    | operator op =>
      have happly : applyOnStack op stack = .ok next := congrArg Prod.fst h
      obtain ⟨hlong, hlength⟩ := applyOnStack_of_ok happly
      exact ⟨fun _ => hlong, hlength⟩
    | _ => cases ht

theorem Runs.length_add (h : Runs limits ts stack s last s') :
    last.length + operatorCount ts = stack.length + valueCount ts := by
  induction h with
  | nil => rfl
  | @cons t ts stack next last s s' s'' first _ ih =>
    have hfirst := (Token.height_of_run first).2
    have hoperators := operatorCount_append [t] ts
    have hvalues := valueCount_append [t] ts
    rw [List.singleton_append] at hoperators hvalues
    omega

/-- After a run from the empty stack, the stack is as high as the tokens say. -/
theorem Runs.height_eq (h : Runs limits ts [] s last s') : height ts = last.length := by
  have hlength := h.length_add
  rw [List.length_nil] at hlength
  rw [height]
  omega

/-- A sequence all of whose tokens are run finds the two values for each operator. -/
theorem Runs.operands (h : Runs limits ts [] s last s') {op : Operator}
    (hts : ts = before ++ .operator op :: after) :
    operatorCount before + 2 ≤ valueCount before := by
  subst hts
  obtain ⟨stack, s₁, hbefore, hrest⟩ := h.of_append
  cases hrest with
  | cons first _ =>
    have hlong := (Token.height_of_run first).1 rfl
    have hlength := hbefore.length_add
    rw [List.length_nil] at hlength
    omega

/-! ### Values -/

theorem Postfix.value_of_runs {p : Postfix} (h : Runs limits p.toList [] s last s') :
    (p.value limits).run.run s = (settle last, s') :=
  run_bind_of_ok (run_eq_ok_iff.2 h)

theorem Postfix.value_of_fails {p : Postfix} (hp : p.toList = before ++ t :: after)
    (hbefore : Runs limits before [] s next s')
    (hfails : (t.run limits next).run.run s' = (.error e, s'')) :
    (p.value limits).run.run s = (.error e, s'') :=
  run_bind_of_error (run_of_fails hp hbefore hfails)

theorem settle_of_length (h : stack.length ≠ 1) : settle stack = .error (.malformed stack.length) := by
  match stack with
  | [] | _ :: _ :: _ => rfl
  | [_] => exact absurd rfl h

theorem Postfix.runs_of_value {p : Postfix} {v : Int}
    (h : (p.value limits).run.run s = (.ok v, s')) : Runs limits p.toList [] s [v] s' := by
  obtain ⟨stack, s₁, hrun, hsettle⟩ := run_bind_eq_ok_iff.1 h
  obtain ⟨hstack, rfl⟩ := Prod.mk.inj hsettle
  rw [settle_eq_ok_iff.1 hstack] at hrun
  exact run_eq_ok_iff.1 hrun

theorem Postfix.hasShape_of_value {p : Postfix} {v : Int}
    (h : (p.value limits).run.run s = (.ok v, s')) : p.HasShape 0 := by
  have hruns := runs_of_value h
  have hlength := hruns.length_add
  rw [List.length_nil, List.length_singleton] at hlength
  exact ⟨fun _ _ _ heq => hruns.operands heq, by omega⟩

/-! ### Sequences inside -/

variable (limits) in
/-- The sequences that are worked out while a sequence is, each with the state in which that starts: the
sequence itself, the counts and multipliers that it comes to, and each body as often as its multiplier
says. -/
inductive WorksOut : Postfix → RollState σ → Postfix → RollState σ → Prop
  | self {p : Postfix} {s : RollState σ} : WorksOut p s p s
  | count {p count q : Postfix} {sides : Int} {keep : Keep} {before after : List Token}
      {stack : List Int} {s s₁ s' : RollState σ}
      (hp : p.toList = before ++ .dice count sides keep :: after)
      (reached : Runs limits before [] s stack s₁) (inside : WorksOut count s₁ q s') :
      WorksOut p s q s'
  | multiplier {p multiplier body q : Postfix} {before after : List Token} {stack : List Int}
      {s s₁ s' : RollState σ} (hp : p.toList = before ++ .group multiplier body :: after)
      (reached : Runs limits before [] s stack s₁) (inside : WorksOut multiplier s₁ q s') :
      WorksOut p s q s'
  | body {p multiplier body q : Postfix} {before after : List Token} {stack : List Int}
      {s s₁ s₂ s₃ s' : RollState σ} {times sofar : Int} {done : Nat}
      (hp : p.toList = before ++ .group multiplier body :: after)
      (reached : Runs limits before [] s stack s₁)
      (htimes : (multiplier.value limits).run.run s₁ = (.ok times, s₂))
      (hdone : (sumTimes (body.value limits) done 0).run.run s₂ = (.ok sofar, s₃))
      (more : done < times.natAbs) (inside : WorksOut body s₃ q s') : WorksOut p s q s'

theorem value_of_run_dice {count : Postfix} {sides : Int} {keep : Keep}
    (h : ((Token.dice count sides keep).run limits stack).run.run s = (.ok next, s')) :
    ∃ n s₁, (count.value limits).run.run s = (.ok n, s₁) := by
  simp only [Token.run] at h
  rw [← bind_assoc] at h
  obtain ⟨n, s₁, hcount, -⟩ := run_bind_eq_ok_iff.1 h
  exact ⟨n, s₁, hcount⟩

theorem values_of_run_group {multiplier body : Postfix}
    (h : ((Token.group multiplier body).run limits stack).run.run s = (.ok next, s')) :
    ∃ times s₁ total s₂, (multiplier.value limits).run.run s = (.ok times, s₁) ∧
      (sumTimes (body.value limits) times.natAbs 0).run.run s₁ = (.ok total, s₂) := by
  simp only [Token.run] at h
  rw [← bind_assoc] at h
  obtain ⟨times, s₁, htimes, h⟩ := run_bind_eq_ok_iff.1 h
  obtain ⟨total, s₂, htotal, -⟩ := run_bind_eq_ok_iff.1 h
  exact ⟨times, s₁, total, s₂, htimes, htotal⟩

/-- Whatever is worked out on the way to a value has a value itself, and the heights for it. -/
theorem WorksOut.hasShape {p q : Postfix} (h : WorksOut limits p s q s') {v : Int}
    (hv : (p.value limits).run.run s = (.ok v, s'')) : q.HasShape 0 := by
  induction h generalizing v s'' with
  | self => exact Postfix.hasShape_of_value hv
  | count hp reached _ ih =>
    have hruns := Postfix.runs_of_value hv
    rw [hp] at hruns
    obtain ⟨next, later, hrun⟩ := hruns.run_next reached
    obtain ⟨n, s₁, hcount⟩ := value_of_run_dice hrun
    exact ih hcount
  | multiplier hp reached _ ih =>
    have hruns := Postfix.runs_of_value hv
    rw [hp] at hruns
    obtain ⟨next, later, hrun⟩ := hruns.run_next reached
    obtain ⟨times, s₁, -, -, htimes, -⟩ := values_of_run_group hrun
    exact ih htimes
  | body hp reached htimes hdone more _ ih =>
    have hruns := Postfix.runs_of_value hv
    rw [hp] at hruns
    obtain ⟨next, later, hrun⟩ := hruns.run_next reached
    obtain ⟨times', s₁, total, s₂, htimes', htotal⟩ := values_of_run_group hrun
    obtain ⟨⟨⟩, ⟨⟩⟩ := Prod.mk.inj (htimes.symm.trans htimes')
    obtain ⟨value, next, hvalue⟩ := value_of_sumTimes htotal hdone more
    exact ih hvalue

/-! ### How a sequence ends -/

/-- From every state, the stack of a sequence is as high after its first tokens as they say. There is a
value only if each operator of the sequence, and of each sequence that is worked out on the way, stands
at a height of at least two and the height at the end is one. An operator at a lower height is an error
that names the height, and so is another height at the end. If all tokens are run and the height is one,
there is a value. Otherwise the first token that fails gives the error. So no sequence of a wrong height
ever has a value, whatever is rolled. -/
theorem value_follows_height (p : Postfix) (limits : Limits) (s : RollState σ) :
    (∀ before after stack s', p.toList = before ++ after → Runs limits before [] s stack s' →
      height before = stack.length) ∧
    (∀ v last, (p.value limits).run.run s = (.ok v, last) →
      ∀ q s', WorksOut limits p s q s' → q.HasShape 0) ∧
    (∀ before op after stack s' (n : Nat), p.toList = before ++ .operator op :: after →
      Runs limits before [] s stack s' → height before = n → n < 2 →
        (p.value limits).run.run s = (.error (.malformed n), s')) ∧
    (∀ stack last (n : Nat), Runs limits p.toList [] s stack last → height p.toList = n → n ≠ 1 →
      (p.value limits).run.run s = (.error (.malformed n), last)) ∧
    (∀ stack last, Runs limits p.toList [] s stack last → height p.toList = 1 →
      ∃ v, (p.value limits).run.run s = (.ok v, last)) ∧
    (∀ before t after stack s' e last, p.toList = before ++ t :: after →
      Runs limits before [] s stack s' → (t.run limits stack).run.run s' = (.error e, last) →
        (p.value limits).run.run s = (.error e, last)) ∧
    ((∃ stack last, Runs limits p.toList [] s stack last) ∨
      ∃ before t after stack s' e last, p.toList = before ++ t :: after ∧
        Runs limits before [] s stack s' ∧ (t.run limits stack).run.run s' = (.error e, last)) ∧
    ∀ roller : σ, ¬p.HasShape 0 → ∀ v, (p.roll limits roller).1 ≠ .ok v := by
  refine ⟨?_, ?_, ?_, ?_, ?_, ?_, runs_or_fails p.toList [] s, ?_⟩
  · intro before after stack s' _ hbefore
    exact hbefore.height_eq
  · intro v last hv q s' hq
    exact hq.hasShape hv
  · intro before op after stack s' n hp hbefore hheight hn
    have hlength : stack.length = n := by
      rw [hbefore.height_eq] at hheight
      omega
    refine Postfix.value_of_fails hp hbefore ?_
    have hshort := applyOnStack_of_short op (show stack.length < 2 by omega)
    rw [hlength] at hshort
    exact congrArg (fun r => (r, s')) hshort
  · intro stack last n hruns hheight hn
    have hlength : stack.length = n := by
      rw [hruns.height_eq] at hheight
      omega
    rw [Postfix.value_of_runs hruns, settle_of_length (by omega), hlength]
  · intro stack last hruns hheight
    obtain ⟨v, rfl⟩ : ∃ v, stack = [v] := by
      rw [hruns.height_eq] at hheight
      exact List.length_eq_one_iff.1 (by omega)
    exact ⟨v, Postfix.value_of_runs hruns⟩
  · intro before t after stack s' e last hp hbefore hfails
    exact Postfix.value_of_fails hp hbefore hfails
  · intro roller hshape v hv
    exact hshape (Postfix.hasShape_of_value (Prod.ext hv rfl))

end

/-- An operator is an error before any value is rolled for what stands after it. -/
example : ((Postfix.cons (.literal 2) (.cons (.operator .add) (.single (.literal 3)))).roll {}
    (⟨[], 0⟩ : WordList)).1 = .error (.malformed 1) := rfl

end DiceExpr
