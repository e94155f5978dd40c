import DiceExpr.Proofs.Derivations
import DiceExpr.Proofs.Items
import DiceExpr.Proofs.Operands

/-!
# Reading is derivation

A text is read as an expression just when its lexemes derive one that nests no deeper than the limits
allow, and the result is the sequence of that expression. One direction follows the derivation and
shows that each of its parts is read. The other follows the reading and keeps, at each place, a
derivation of what was read so far.

## Main statements

* `Expression.outcome`: a derived expression is read.
* `Reached.step`, `Reached.derives`: what is read is derived.
* `parse_eq_ok_iff`: reading a whole text.
-/

namespace DiceExpr

open Lexeme

/-! ### What is derived is read -/

section

variable {S : Type} [FormulaStore S] (formulas : S) (limits : Limits)

/-- What the conversion of lexemes comes to, where the texts in them may take up `levels` levels. -/
def outcomeLexemes (levels : Nat) (active : List String) (ls : List Lexeme) (c : Conversion) :
    Except ParseError Postfix :=
  outcomeItems limits (outcomeWithin formulas limits levels active)
    (expansion formulas (outcomeWithin formulas limits levels) active) (Item.read limits ls) c

/-- The items that a part is read from while some formulas are active. -/
def Part.IsRead (levels : Nat) (active : List String) (p : Part) (item : Item) : Prop :=
  p.Matches (outcomeWithin formulas limits levels active)
    (expansion formulas (outcomeWithin formulas limits levels) active) item

theorem outcomeWithin_succ (levels : Nat) (active : List String) (text : List Char) :
    outcomeWithin formulas limits (levels + 1) active text =
      outcomeLexemes formulas limits levels active (lex text) {} := rfl

variable {formulas limits} {levels : Nat} {active : List String}

theorem outcomeLexemes_nil (x : Expression) :
    outcomeLexemes formulas limits levels active [] (.atEnd x) = .ok x.toPostfix := by
  rw [outcomeLexemes, Item.read]
  exact Conversion.finish_atEnd x

theorem exists_level {body : Expression} {n : Nat}
    (h : (Token.group (.literal 1) body.toPostfix).depth ≤ n) :
    ∃ below, n = below + 1 ∧ body.toPostfix.depth ≤ below := by
  simp only [Token.depth, Postfix.literal, Postfix.depth] at h
  exact ⟨n - 1, by omega, by omega⟩

mutual

theorem Expression.outcome (x : Expression) {levels : Nat} {active : List String}
    {ls rest : List Lexeme} {q : Postfix}
    (h : DerivesExpression formulas limits active ls x rest) (hls : IsLexed ls)
    (hlevels : x.toPostfix.depth ≤ levels) (hdepth : x.toPostfix.depth ≤ limits.maxDepth)
    (hrest : Known rest)
    (hq : outcomeLexemes formulas limits levels active rest (.atEnd x) = .ok q) :
    outcomeLexemes formulas limits levels active ls {} = .ok q := by
  cases x with
  | operand y =>
    cases h with
    | operand hy => exact y.outcome hy hls rfl hlevels hdepth hrest hq
  | binary left op right =>
    cases h with
    | @binary _ _ more _ l _ _ _ hx kind hy =>
      simp only [Expression.toPostfix, Postfix.depth_append_le_iff] at hlevels hdepth
      have hmore : IsLexed more := (left.isLexed_rest hx hls).of_cons
      have hright : outcomeLexemes formulas limits levels active more
          (.afterOperator left op) = .ok q :=
        right.outcome hy hmore rfl hlevels.2.1 hdepth.2.1 hrest hq
      have hoperator : outcomeLexemes formulas limits levels active (l :: more)
          (.atEnd left) = .ok q := by
        rw [outcomeLexemes, Item.read_of_stands (.operator kind) (right.known hy),
          outcomeItems_binary, Conversion.pushOperator_atEnd]
        · exact hright
        · exact Conversion.afterValue_atEnd left
      exact left.outcome hx hls hlevels.1 hdepth.1 (known_cons kind nofun) hoperator

theorem Operand.outcome (y : Operand) {levels : Nat} {active : List String}
    {ls rest : List Lexeme} {c : Conversion} {q : Postfix}
    (h : DerivesOperand formulas limits active ls y rest) (hls : IsLexed ls)
    (hc : c.afterValue = false) (hlevels : y.toPostfix.depth ≤ levels)
    (hdepth : y.toPostfix.depth ≤ limits.maxDepth) (hrest : Known rest)
    (hq : outcomeLexemes formulas limits levels active rest (c.withOperand y) = .ok q) :
    outcomeLexemes formulas limits levels active ls c = .ok q := by
  cases y with
  | first negated p =>
    have hp := Operand.depth_first_le hlevels
    have hpdepth := Operand.depth_first_le hdepth
    cases h with
    | first hpart =>
      obtain ⟨item, hitem, hmatches⟩ := p.exists_item hpart hls hp hpdepth
      rw [outcomeLexemes, Item.read_of_stands hitem hrest]
      exact (outcomeItems_first hc hmatches _).2 ⟨hdepth, hq⟩
    | negated kind hpart =>
      obtain ⟨item, hitem, hmatches⟩ := p.exists_item hpart hls.of_cons hp hpdepth
      rw [outcomeLexemes, Item.read_of_stands (.operator kind) hpart.known,
        Item.read_of_stands hitem hrest]
      exact (outcomeItems_negated hc hmatches _).2 ⟨hdepth, hq⟩
  | more y p =>
    cases h with
    | more hy hpart =>
      obtain ⟨hylevels, hp⟩ := Operand.depth_more_le hlevels
      obtain ⟨hydepth, hpdepth⟩ := Operand.depth_more_le hdepth
      obtain ⟨item, hitem, hmatches⟩ :=
        p.exists_item hpart (y.isLexed_rest hy hls) hp hpdepth
      refine y.outcome hy hls hc hylevels hydepth hpart.known ?_
      rw [outcomeLexemes, Item.read_of_stands hitem hrest]
      exact (outcomeItems_more hydepth hmatches _).2 ⟨hdepth, hq⟩

theorem Part.exists_item (p : Part) {levels : Nat} {active : List String}
    {ls rest : List Lexeme} (h : DerivesPart formulas limits active ls p rest)
    (hls : IsLexed ls) (hlevels : (p.token (.literal 1)).depth ≤ levels)
    (hdepth : (p.token (.literal 1)).depth ≤ limits.maxDepth) :
    ∃ item, Item.Stands limits ls item rest ∧ p.IsRead formulas limits levels active item := by
  cases p with
  | integer n =>
    cases h with
    | integer kind => exact ⟨_, .integer kind, .integer _⟩
  | die n keep =>
    cases h with
    | die kind adjacent digits le hkeep =>
      exact ⟨_, .die kind adjacent digits le hkeep, .die _ _⟩
  | group body =>
    cases h with
    | group kind hbody closes =>
      obtain ⟨below, rfl, hbelow⟩ := exists_level hlevels
      obtain ⟨_, hmax, hbodyDepth⟩ := exists_level hdepth
      have hinner := hls.of_cons
      refine ⟨_, .group kind (hbody.span.balanced 0) closes, .group ?_⟩
      rw [outcomeWithin_succ, hinner.lex_before]
      exact body.outcome hbody hinner.before hbelow (by omega) known_nil (outcomeLexemes_nil body)
  | reference name body =>
    cases h with
    | @reference _ _ _ inner f _ kind found inactive lexes hbody =>
      obtain ⟨below, rfl, hbelow⟩ := exists_level hlevels
      obtain ⟨_, hmax, hbodyDepth⟩ := exists_level hdepth
      obtain rfl : lex f.expression.toList = inner := lexes_iff.1 lexes
      refine ⟨_, .reference kind, .reference ?_⟩
      simp only [expansion, found, inactive, ↓reduceIte]
      rw [outcomeWithin_succ]
      exact body.outcome hbody (isLexed_lex _) hbelow (by omega) known_nil (outcomeLexemes_nil body)

end

end

/-! ### What is read is derived -/

section

variable {S : Type} [FormulaStore S] {formulas : S} {limits : Limits} {levels : Nat}
  {active : List String} {text : List Char} {q : Postfix}

/-- What is read at a lower level is derived. -/
def DerivesBelow (formulas : S) (limits : Limits) (levels : Nat) : Prop :=
  ∀ (active : List String) (text : List Char) (q : Postfix),
    outcomeWithin formulas limits levels active text = .ok q →
      ∃ x, DerivesExpression formulas limits active (lex text) x [] ∧ x.toPostfix = q

theorem exists_part {ls rest : List Lexeme} {item : Item}
    (hbelow : DerivesBelow formulas limits levels) (hls : IsLexed ls)
    (h : Item.Stands limits ls item rest) (hoperator : ∀ op, item ≠ .operator op)
    (hpasses : ∀ e, ¬item.Fails (outcomeWithin formulas limits levels active)
      (expansion formulas (outcomeWithin formulas limits levels) active) e) :
    ∃ p, DerivesPart formulas limits active ls p rest ∧
      p.IsRead formulas limits levels active item := by
  cases h with
  | operator kind => exact absurd rfl (hoperator _)
  | integer kind => exact ⟨_, .integer kind, .integer _⟩
  | die kind adjacent digits le hkeep =>
    exact ⟨_, .die kind adjacent digits le hkeep, .die _ _⟩
  | @group l close inner _ kind balanced closes =>
    have hinner := hls.of_cons.lex_before
    cases hr : outcomeWithin formulas limits levels active
        (inner.flatMap source ++ close.gap) with
    | error e => exact absurd (.inl (congrArg some hr)) (hpasses e)
    | ok body =>
      obtain ⟨x, hx, rfl⟩ := hbelow _ _ _ hr
      rw [hinner] at hx
      exact ⟨.group x, .group kind hx closes, .group hr⟩
  | @reference l _ kind =>
    cases hr : expansion formulas (outcomeWithin formulas limits levels) active l.name with
    | error e => exact absurd (.inl (congrArg some hr)) (hpasses e)
    | ok body =>
      obtain ⟨f, found, inactive, hbody⟩ := expansion_eq_ok hr
      obtain ⟨x, hx, rfl⟩ := hbelow _ _ _ hbody
      have lexes := lexes_iff.2 (rfl : lex f.expression.toList = _)
      exact ⟨.reference l.name x, .reference kind found inactive lexes hx, .reference hr⟩

variable (formulas limits active) in
/-- The places in the lexemes `all` where an operand may start, with the conversion there. -/
inductive Begins (all : List Lexeme) : List Lexeme → Conversion → Prop
  | start : Begins all all {}
  | operator {x : Expression} {l : Lexeme} {ls : List Lexeme} {op : Operator}
      (hx : DerivesExpression formulas limits active all x (l :: ls)) (kind : l.kind = .operator op)
      (hdepth : x.toPostfix.depth ≤ limits.maxDepth) : Begins all ls (.afterOperator x op)

variable (formulas limits active) in
/-- The places in the lexemes `all` that reading comes to, with the conversion there: where an operand
may start, and after each of its parts. -/
inductive Reached (all : List Lexeme) : List Lexeme → Conversion → Prop
  | before {ls : List Lexeme} {c : Conversion} (h : Begins formulas limits active all ls c) :
      Reached all ls c
  | within {ls rest : List Lexeme} {c : Conversion} {y : Operand}
      (h : Begins formulas limits active all ls c)
      (hy : DerivesOperand formulas limits active ls y rest)
      (hdepth : y.toPostfix.depth ≤ limits.maxDepth) : Reached all rest (c.withOperand y)

section

variable {all ls rest : List Lexeme} {c : Conversion}

theorem Begins.afterValue (h : Begins formulas limits active all ls c) : c.afterValue = false := by
  cases h <;> rfl

theorem Begins.isLexed (h : Begins formulas limits active all ls c) (hall : IsLexed all) :
    IsLexed ls := by
  cases h with
  | start => exact hall
  | @operator x _ _ _ hx => exact (x.isLexed_rest hx hall).of_cons

theorem Reached.isLexed (h : Reached formulas limits active all ls c) (hall : IsLexed all) :
    IsLexed ls := by
  cases h with
  | before h => exact h.isLexed hall
  | @within _ _ _ y h hy => exact y.isLexed_rest hy (h.isLexed hall)

/-- With an operand where one may start, all that was read is an expression. -/
theorem Begins.exists_expression {y : Operand} (h : Begins formulas limits active all ls c)
    (hy : DerivesOperand formulas limits active ls y rest)
    (hdepth : y.toPostfix.depth ≤ limits.maxDepth) :
    ∃ x, DerivesExpression formulas limits active all x rest ∧ c.withOperand y = .atEnd x ∧
      x.toPostfix.depth ≤ limits.maxDepth := by
  cases h with
  | start => exact ⟨.operand y, .operand hy, rfl, hdepth⟩
  | @operator x l _ op hx kind hleft =>
    refine ⟨.binary x op y, .binary hx kind hy, rfl, ?_⟩
    simp only [Expression.toPostfix, Postfix.depth_append_le_iff]
    exact ⟨hleft, hdepth, Nat.zero_le _⟩

theorem stands_of_outcome {item : Item} {items : List Item}
    (hread : Item.read limits ls = item :: items)
    (hq : outcomeLexemes formulas limits levels active ls c = .ok q) :
    ∃ rest, Item.Stands limits ls item rest ∧ items = Item.read limits rest ∧
      ∀ item' ∈ item :: items, ∀ e, ¬item'.Fails (outcomeWithin formulas limits levels active)
        (expansion formulas (outcomeWithin formulas limits levels) active) e := by
  rw [outcomeLexemes, hread] at hq
  have hpasses := not_fails_of_outcomeItems hq
  rcases Item.stands_of_read hread with ⟨kind, e, rfl, -, -⟩ | ⟨rest, rfl, hstands⟩
  · exact absurd (.inr ⟨kind, rfl⟩) (hpasses _ List.mem_cons_self e)
  · exact ⟨rest, hstands, rfl, hpasses⟩

variable (formulas limits levels active q) in
/-- Reading comes from a place to one further on, and to the same result there. -/
def Advances (all ls : List Lexeme) : Prop :=
  ∃ (later : List Lexeme) (d : Conversion), later.length < ls.length ∧
    Reached formulas limits active all later d ∧
    outcomeLexemes formulas limits levels active later d = .ok q

/-- Where an operand may start, a minus is read together with the part after it. -/
theorem Begins.step_operator {op : Operator} (hbelow : DerivesBelow formulas limits levels)
    (hall : IsLexed all) (h : Begins formulas limits active all ls c)
    (hstands : Item.Stands limits ls (.operator op) rest)
    (hq : outcomeItems limits (outcomeWithin formulas limits levels active)
      (expansion formulas (outcomeWithin formulas limits levels) active)
      (.operator op :: Item.read limits rest) c = .ok q) :
    Advances formulas limits levels active q all ls := by
  have hc := h.afterValue
  cases hread : Item.read limits rest with
  | nil =>
    rw [hread, outcomeItems_misplaced hc (.inr rfl)] at hq
    cases hq
  | cons item items =>
    rw [hread] at hq
    by_cases hop : op = .sub
    · subst hop
      have hpasses := not_fails_of_outcomeItems hq
      rcases Item.stands_of_read hread with ⟨kind, e, rfl, -, -⟩ | ⟨later, rfl, hitem⟩
      · exact absurd (.inr ⟨kind, rfl⟩) (hpasses (.fault kind e) (by simp) e)
      · by_cases hoperator : ∃ op', item = .operator op'
        · obtain ⟨op', rfl⟩ := hoperator
          rw [outcomeItems_minus hc (by simp)] at hq
          cases hq
        · have hlt := hitem.length_lt
          cases hstands with
          | operator kind =>
            obtain ⟨p, hp, hmatches⟩ := exists_part hbelow (h.isLexed hall).of_cons hitem
              (fun op' e => hoperator ⟨op', e⟩) (hpasses item (by simp))
            obtain ⟨hdepth, hafter⟩ := (outcomeItems_negated hc hmatches _).1 hq
            refine ⟨later, _, ?_, .within h (.negated kind hp) hdepth, hafter⟩
            simp only [List.length_cons]
            omega
    · rw [outcomeItems_misplaced hc (.inl hop)] at hq
      cases hq

/-- Each item that is read leads on to another place. -/
theorem Reached.step {item : Item} {items : List Item}
    (hbelow : DerivesBelow formulas limits levels) (hall : IsLexed all)
    (h : Reached formulas limits active all ls c) (hread : Item.read limits ls = item :: items)
    (hq : outcomeLexemes formulas limits levels active ls c = .ok q) :
    Advances formulas limits levels active q all ls := by
  obtain ⟨rest, hstands, rfl, hpasses⟩ := stands_of_outcome hread hq
  have hlt := hstands.length_lt
  rw [outcomeLexemes, hread] at hq
  by_cases hoperator : ∃ op, item = .operator op
  · obtain ⟨op, rfl⟩ := hoperator
    cases h with
    | before h => exact h.step_operator hbelow hall hstands hq
    | within h hy hdepth =>
      obtain ⟨x, hx, hend, hxdepth⟩ := h.exists_expression hy hdepth
      rw [hend, outcomeItems_binary (Conversion.afterValue_atEnd x),
        Conversion.pushOperator_atEnd] at hq
      cases hstands with
      | operator kind => exact ⟨rest, _, hlt, .before (.operator hx kind hxdepth), hq⟩
  · obtain ⟨p, hp, hmatches⟩ := exists_part hbelow (h.isLexed hall) hstands
      (fun op e => hoperator ⟨op, e⟩) (hpasses item List.mem_cons_self)
    cases h with
    | before h =>
      obtain ⟨hdepth, hafter⟩ := (outcomeItems_first h.afterValue hmatches _).1 hq
      exact ⟨rest, _, hlt, .within h (.first hp) hdepth, hafter⟩
    | within h hy hydepth =>
      obtain ⟨hdepth, hafter⟩ := (outcomeItems_more hydepth hmatches _).1 hq
      exact ⟨rest, _, hlt, .within h (.more hy hp) hdepth, hafter⟩

theorem Reached.derives {ls : List Lexeme} {c : Conversion}
    (hbelow : DerivesBelow formulas limits levels) (hall : IsLexed all)
    (h : Reached formulas limits active all ls c)
    (hq : outcomeLexemes formulas limits levels active ls c = .ok q) :
    ∃ x, DerivesExpression formulas limits active all x [] ∧ x.toPostfix = q ∧
      x.toPostfix.depth ≤ limits.maxDepth := by
  cases hread : Item.read limits ls with
  | cons item items =>
    obtain ⟨later, d, hlt, hreached, hafter⟩ := h.step hbelow hall hread hq
    exact hreached.derives hbelow hall hafter
  | nil =>
    obtain rfl := Item.read_eq_nil_iff.1 hread
    rw [outcomeLexemes, hread] at hq
    cases h with
    | before h =>
      cases h with
      | start => cases hq
      | operator => cases hq
    | within h hy hdepth =>
      obtain ⟨x, hx, hend, hxdepth⟩ := h.exists_expression hy hdepth
      rw [hend] at hq
      have hfinish := Conversion.finish_atEnd x
      refine ⟨x, hx, ?_, hxdepth⟩
      exact Except.ok.inj (hfinish.symm.trans hq)
termination_by ls.length

end

theorem derives_of_outcome (hq : outcomeWithin formulas limits levels active text = .ok q) :
    ∃ x, DerivesExpression formulas limits active (lex text) x [] ∧ x.toPostfix = q ∧
      x.toPostfix.depth ≤ limits.maxDepth := by
  induction levels generalizing active text q with
  | zero => cases hq
  | succ levels ih =>
    have hbelow : DerivesBelow formulas limits levels := by
      intro active text q hq
      obtain ⟨x, hx, hsame, -⟩ := ih hq
      exact ⟨x, hx, hsame⟩
    rw [outcomeWithin_succ] at hq
    exact Reached.derives hbelow (isLexed_lex text) (.before .start) hq

theorem outcome_of_derives {x : Expression}
    (h : DerivesExpression formulas limits active (lex text) x [])
    (hlevels : x.toPostfix.depth ≤ levels) (hdepth : x.toPostfix.depth ≤ limits.maxDepth) :
    outcomeWithin formulas limits (levels + 1) active text = .ok x.toPostfix := by
  rw [outcomeWithin_succ]
  exact x.outcome h (isLexed_lex text) hlevels hdepth known_nil (outcomeLexemes_nil x)

end

/-! ### Unambiguity -/

section

variable {S : Type} [FormulaStore S] {formulas : S} {limits : Limits}

theorem toPostfix_unique {active : List String} {text : List Char} {x y : Expression}
    (hx : DerivesExpression formulas limits active (lex text) x [])
    (hy : DerivesExpression formulas limits active (lex text) y []) : x.toPostfix = y.toPostfix := by
  -- With enough depth both are what the text is read as.
  let depth := max x.toPostfix.depth y.toPostfix.depth
  have hxdepth : x.toPostfix.depth ≤ depth := Nat.le_max_left _ _
  have hydepth : y.toPostfix.depth ≤ depth := Nat.le_max_right _ _
  have hxread := outcome_of_derives (x.derives_withDepth hx depth) hxdepth hxdepth
  have hyread := outcome_of_derives (y.derives_withDepth hy depth) hydepth hydepth
  exact Except.ok.inj (hxread.symm.trans hyread)

/-- A text is read just when its lexemes derive an expression that nests no deeper than the limits
allow. The result is the sequence of the expression, and all expressions that the text derives have
the same sequence. -/
theorem parse_eq_ok_iff (formulas : S) (limits : Limits) (text : String) :
    (∀ p, parse formulas limits text = .ok p ↔
      ∃ ls x, Lexes text.toList ls ∧ DerivesExpression formulas limits [] ls x [] ∧
        x.toPostfix = p ∧ p.depth ≤ limits.maxDepth) ∧
    ∀ ls x ls' x', Lexes text.toList ls → DerivesExpression formulas limits [] ls x [] →
      Lexes text.toList ls' → DerivesExpression formulas limits [] ls' x' [] →
        x.toPostfix = x'.toPostfix := by
  constructor
  · intro p
    rw [parse_eq_outcomeWithin]
    constructor
    · intro h
      obtain ⟨x, hx, hsame, hdepth⟩ := derives_of_outcome h
      exact ⟨_, x, lexes_iff.2 rfl, hx, hsame, hsame ▸ hdepth⟩
    · rintro ⟨ls, x, hlex, hx, rfl, hdepth⟩
      rw [← lexes_iff.1 hlex] at hx
      exact outcome_of_derives hx hdepth hdepth
  · intro ls x ls' x' hlex hx hlex' hx'
    rw [← lexes_iff.1 hlex] at hx
    rw [← lexes_iff.1 hlex'] at hx'
    exact toPostfix_unique hx hx'

end

end DiceExpr
