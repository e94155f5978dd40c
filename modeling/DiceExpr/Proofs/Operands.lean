import DiceExpr.Proofs.Grammar
import DiceExpr.Proofs.Outcome

/-!
# Conversions at operands

After an operand a conversion holds the sequence of the operand on top of what it held before. Each
part of the operand takes one step to that, an integer as a value and any other part with the value
before it as its count. The step is refused just when the sequence would nest too deep.

## Main statements

* `outcomeItems_first`, `outcomeItems_negated`, `outcomeItems_more`: the steps of an operand.
* `finish_atEnd`: the sequence of an expression is what the conversion after it holds.
-/

namespace DiceExpr

/-! ### Depth by tokens -/

theorem Postfix.depth_le_iff {p : Postfix} {n : Nat} :
    p.depth ≤ n ↔ ∀ t ∈ p.toList, t.depth ≤ n := by
  match p with
  | .single t => simp [depth, toList]
  | .cons t p =>
    have ih := depth_le_iff (p := p) (n := n)
    simp only [depth, toList, List.mem_cons, forall_eq_or_imp, ← ih]
    omega

theorem Postfix.depth_append_le_iff {p q : Postfix} {n : Nat} :
    (p.append q).depth ≤ n ↔ p.depth ≤ n ∧ q.depth ≤ n := by
  simp only [depth_le_iff, toList_append, List.mem_append]
  constructor
  · intro h
    exact ⟨fun t ht => h t (.inl ht), fun t ht => h t (.inr ht)⟩
  · rintro ⟨hp, hq⟩ t (ht | ht)
    · exact hp t ht
    · exact hq t ht

/-- A group that is counted by a number nests one level deeper than its body. -/
theorem Token.depth_group_le_iff (n : Int) (body : Postfix) (bound : Nat) :
    (Token.group (.literal n) body).depth ≤ bound ↔ body.depth < bound := by
  simp only [Token.depth, Postfix.literal, Postfix.depth]
  omega

/-- A part nests no deeper with the count one than with any other. -/
theorem Part.depth_token_le (p : Part) (count : Postfix) :
    (p.token (.literal 1)).depth ≤ (p.token count).depth := by
  cases p with
  | integer n => exact Nat.le_refl _
  | die sides keep =>
    simp only [token, Token.depth, Postfix.literal, Postfix.depth]
    omega
  | group body =>
    simp only [token, Token.depth, Postfix.literal, Postfix.depth]
    omega
  | reference name body =>
    simp only [token, Token.depth, Postfix.literal, Postfix.depth]
    omega

/-! ### Parts and items -/

section

variable (read : List Char → Except ParseError Postfix)
  (expand : String → Except ParseError Postfix)

/-- The items that a part is read from. The body of a group or of a reference comes to the sequence of
the expression in it. -/
inductive Part.Matches : Part → Item → Prop
  | integer (n : Nat) : Matches (.integer n) (.integer n)
  | die (sides : Nat) (keep : Keep) : Matches (.die sides keep) (.die sides keep)
  | group {body : Expression} {text : List Char} (h : read text = .ok body.toPostfix) :
      Matches (.group body) (.group text)
  | reference {name : String} {body : Expression} (h : expand name = .ok body.toPostfix) :
      Matches (.reference name body) (.reference name)

/-- Parts that take the value before them as their count. -/
def Part.IsCounted (p : Part) : Prop := ∀ n, p ≠ .integer n

end

theorem Operand.toPostfix_first {p : Part} (hp : p.IsCounted) (negated : Bool) :
    (Operand.first negated p).toPostfix =
      .single (p.token (.literal (if negated then -1 else 1))) := by
  cases p with
  | integer n => exact absurd rfl (hp n)
  | _ => rfl

theorem Operand.toPostfix_more {p : Part} (hp : p.IsCounted) (before : Operand) :
    (Operand.more before p).toPostfix =
      before.toPostfix.mapLast fun count => p.token (.single count) := by
  cases p with
  | integer n => exact absurd rfl (hp n)
  | _ => rfl

theorem Part.integer_or_isCounted (p : Part) : (∃ n, p = .integer n) ∨ p.IsCounted := by
  cases p with
  | integer n => exact .inl ⟨n, rfl⟩
  | _ => exact .inr (by simp [IsCounted])

theorem Part.depth_count_le {p : Part} (hp : p.IsCounted) (count : Postfix) :
    count.depth ≤ (p.token count).depth := by
  cases p with
  | integer n => exact absurd rfl (hp n)
  | die sides keep =>
    simp only [token, Token.depth]
    omega
  | group body =>
    simp only [token, Token.depth]
    omega
  | reference name body =>
    simp only [token, Token.depth]
    omega

theorem Operand.depth_first_le {negated : Bool} {p : Part} {n : Nat}
    (h : (Operand.first negated p).toPostfix.depth ≤ n) : (p.token (.literal 1)).depth ≤ n := by
  rcases p.integer_or_isCounted with ⟨m, rfl⟩ | hp
  · exact Nat.zero_le n
  · rw [toPostfix_first hp] at h
    exact Nat.le_trans (p.depth_token_le _) h

theorem Operand.depth_more_le {y : Operand} {p : Part} {n : Nat}
    (h : (Operand.more y p).toPostfix.depth ≤ n) :
    y.toPostfix.depth ≤ n ∧ (p.token (.literal 1)).depth ≤ n := by
  rcases p.integer_or_isCounted with ⟨m, rfl⟩ | hp
  · exact ⟨(Postfix.depth_append_le_iff.1 h).1, Nat.zero_le n⟩
  · obtain ⟨ts, t, hlast, hmap⟩ :=
      y.toPostfix.exists_toList_mapLast fun count => p.token (.single count)
    rw [← toPostfix_more hp] at hmap
    rw [Postfix.depth_le_iff, hmap] at h
    have htoken := h (p.token (.single t)) (by simp)
    refine ⟨?_, Nat.le_trans (p.depth_token_le _) htoken⟩
    rw [Postfix.depth_le_iff, hlast]
    intro u hu
    rcases List.mem_append.1 hu with hu | hu
    · exact h u (by simp [hu])
    · rw [List.mem_singleton.1 hu]
      exact Nat.le_trans (Part.depth_count_le hp (.single t)) htoken

namespace Conversion

/-- A conversion after an operand that starts where the conversion stands. -/
def withOperand (c : Conversion) (y : Operand) : Conversion :=
  { c with output := y.toPostfix.toList.reverse ++ c.output, afterValue := true }

def afterOperator (x : Expression) (op : Operator) : Conversion :=
  { output := x.toPostfix.toList.reverse, pending := [op] }

def atEnd : Expression → Conversion
  | .operand y => withOperand {} y
  | .binary left op right => (afterOperator left op).withOperand right

@[simp]
theorem afterValue_atEnd (x : Expression) : (atEnd x).afterValue = true := by
  cases x <;> rfl

theorem output_append_pending_atEnd (x : Expression) :
    (atEnd x).output.reverse ++ (atEnd x).pending.map .operator = x.toPostfix.toList := by
  cases x with
  | operand y => simp [atEnd, withOperand, Expression.toPostfix]
  | binary left op right =>
    simp [atEnd, withOperand, afterOperator, Expression.toPostfix, Postfix.toList]

theorem finish_atEnd (x : Expression) : (atEnd x).finish = .ok x.toPostfix := by
  have htokens := output_append_pending_atEnd x
  simp only [finish, afterValue_atEnd, htokens]
  cases hp : x.toPostfix.toList with
  | nil => exact absurd hp x.toPostfix.toList_ne_nil
  | cons t ts =>
    have hsame : Postfix.ofTokens t ts = x.toPostfix := by
      apply Postfix.toList_injective
      rw [Postfix.toList_ofTokens, hp]
    exact congrArg Except.ok hsame

theorem pushOperator_atEnd (x : Expression) (op : Operator) :
    (atEnd x).pushOperator op = afterOperator x op := by
  have htokens := output_append_pending_atEnd x
  rw [pushOperator_eq, afterOperator, ← htokens]
  simp

theorem takeCount_of_not_afterValue {c : Conversion} (hc : c.afterValue = false) :
    c.takeCount = (.literal 1, c) := by
  simp only [takeCount, hc]

theorem takeCount_pushValue (c : Conversion) (t : Token) :
    (c.pushValue t).takeCount = (.single t, { c with afterValue := true }) := rfl

theorem takeCount_withOperand {c : Conversion} {y : Operand} {ts : List Token} {t : Token}
    (h : y.toPostfix.toList = ts ++ [t]) :
    (c.withOperand y).takeCount =
      (.single t, { c with output := ts.reverse ++ c.output, afterValue := true }) := by
  simp [takeCount, withOperand, h]

end Conversion

/-! ### Steps at the parts of an operand -/

section

variable {limits : Limits} {read : List Char → Except ParseError Postfix}
  {expand : String → Except ParseError Postfix} {c : Conversion} {p : Part} {item : Item}
  {q : Postfix}

theorem Part.Matches.ne_integer (h : p.Matches read expand item) (hp : p.IsCounted) (n : Nat) :
    item ≠ .integer n := by
  cases h with
  | integer m => exact absurd rfl (hp m)
  | _ => simp

theorem Part.Matches.isNegatable (h : p.Matches read expand item) :
    item.lead.isNegatable = true := by
  cases h <;> rfl

theorem outcomeItems_integer (n : Nat) (items : List Item) (c : Conversion) :
    outcomeItems limits read expand (.integer n :: items) c =
      outcomeItems limits read expand items (c.pushValue (.literal n)) := rfl

/-- A counted part takes its count from the conversion, unless it would nest too deep. -/
theorem outcomeItems_counted (h : p.Matches read expand item) (hp : p.IsCounted)
    (items : List Item) (c : Conversion) :
    outcomeItems limits read expand (item :: items) c = .ok q ↔
      (p.token c.takeCount.1).depth ≤ limits.maxDepth ∧
        outcomeItems limits read expand items (c.takeCount.2.pushValue (p.token c.takeCount.1)) =
          .ok q := by
  have hstep : outcomeItems limits read expand (item :: items) c = (do
      let c ← c.takeCount.2.pushNested limits (p.token c.takeCount.1)
      outcomeItems limits read expand items c) := by
    cases h with
    | integer n => exact absurd rfl (hp n)
    | die sides keep => rfl
    | group h =>
      rw [outcomeItems_nested rfl, h]
      rfl
    | reference h =>
      rw [outcomeItems_nested rfl, h]
      rfl
  rw [hstep]
  cases hpush : c.takeCount.2.pushNested limits (p.token c.takeCount.1) with
  | ok d =>
    obtain ⟨hdepth, rfl⟩ := Conversion.pushNested_eq_ok_iff.1 hpush
    exact (and_iff_right hdepth).symm
  | error e =>
    constructor
    · intro h
      cases h
    · rintro ⟨hdepth, -⟩
      rw [Conversion.pushNested_eq_ok_iff.2 ⟨hdepth, rfl⟩] at hpush
      cases hpush

theorem outcomeItems_first (hc : c.afterValue = false) (h : p.Matches read expand item)
    (items : List Item) :
    outcomeItems limits read expand (item :: items) c = .ok q ↔
      (Operand.first false p).toPostfix.depth ≤ limits.maxDepth ∧
        outcomeItems limits read expand items (c.withOperand (.first false p)) = .ok q := by
  rcases p.integer_or_isCounted with ⟨n, rfl⟩ | hp
  · cases h
    have hdepth : (Operand.first false (.integer n)).toPostfix.depth ≤ limits.maxDepth := Nat.zero_le _
    rw [outcomeItems_integer]
    exact (and_iff_right hdepth).symm
  · rw [outcomeItems_counted h hp, Conversion.takeCount_of_not_afterValue hc]
    simp only [Conversion.withOperand, Operand.toPostfix_first hp]
    rfl

theorem outcomeItems_negated (hc : c.afterValue = false) (h : p.Matches read expand item)
    (items : List Item) :
    outcomeItems limits read expand (.operator .sub :: item :: items) c = .ok q ↔
      (Operand.first true p).toPostfix.depth ≤ limits.maxDepth ∧
        outcomeItems limits read expand items (c.withOperand (.first true p)) = .ok q := by
  rcases p.integer_or_isCounted with ⟨n, rfl⟩ | hp
  · cases h
    have hdepth : (Operand.first true (.integer n)).toPostfix.depth ≤ limits.maxDepth := Nat.zero_le _
    rw [outcomeItems_negative hc]
    exact (and_iff_right hdepth).symm
  · rw [outcomeItems_minus hc (h.ne_integer hp), if_pos h.isNegatable, outcomeItems_counted h hp,
      Conversion.takeCount_pushValue]
    simp only [Conversion.withOperand, Operand.toPostfix_first hp]
    rfl

theorem outcomeItems_more {y : Operand} (hy : y.toPostfix.depth ≤ limits.maxDepth)
    (h : p.Matches read expand item) (items : List Item) :
    outcomeItems limits read expand (item :: items) (c.withOperand y) = .ok q ↔
      (Operand.more y p).toPostfix.depth ≤ limits.maxDepth ∧
        outcomeItems limits read expand items (c.withOperand (.more y p)) = .ok q := by
  rcases p.integer_or_isCounted with ⟨n, rfl⟩ | hp
  · cases h
    have hdepth : (Operand.more y (.integer n)).toPostfix.depth ≤ limits.maxDepth :=
      Postfix.depth_append_le_iff.2 ⟨hy, Nat.zero_le _⟩
    have hstate : (c.withOperand y).pushValue (.literal n) =
        c.withOperand (.more y (.integer n)) := by
      simp [Conversion.withOperand, Conversion.pushValue, Operand.toPostfix, Postfix.literal,
        Postfix.toList]
    rw [outcomeItems_integer, hstate]
    exact (and_iff_right hdepth).symm
  · obtain ⟨ts, t, hlast, hmap⟩ :=
      y.toPostfix.exists_toList_mapLast fun count => p.token (.single count)
    rw [← Operand.toPostfix_more hp] at hmap
    have hts : ∀ u ∈ ts, u.depth ≤ limits.maxDepth := by
      intro u hu
      exact Postfix.depth_le_iff.1 hy u (by simp [hlast, hu])
    have hdepth : (Operand.more y p).toPostfix.depth ≤ limits.maxDepth ↔
        (p.token (.single t)).depth ≤ limits.maxDepth := by
      rw [Postfix.depth_le_iff, hmap]
      constructor
      · intro hall
        exact hall _ (by simp)
      · intro ht u hu
        rcases List.mem_append.1 hu with hu | hu
        · exact hts u hu
        · rw [List.mem_singleton.1 hu]
          exact ht
    have hstate : (Conversion.mk (ts.reverse ++ c.output) c.pending true).pushValue
        (p.token (.single t)) = c.withOperand (.more y p) := by
      simp [Conversion.withOperand, Conversion.pushValue, hmap]
    rw [outcomeItems_counted h hp, Conversion.takeCount_withOperand hlast, hdepth, ← hstate]

end

end DiceExpr
