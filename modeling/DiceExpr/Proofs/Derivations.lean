import DiceExpr.Proofs.Grammar
import DiceExpr.Proofs.Grouping

/-!
# Derivations

What holds of every derivation: its lexemes close the groups they open, the names in brackets among
them stand for derived expressions, and of the limits only those on its dice play a part.

## Main statements

* `Expression.exists_span`: the lexemes that an expression takes up.
* `Expression.derives_of_allowed`: limits may be exchanged for others that allow the same dice.
* `Expression.sides_le`: no die has more faces than the limits allow.
-/

namespace DiceExpr

open Lexeme

section

variable {S : Type} [FormulaStore S] {formulas : S} {limits : Limits} {active : List String}

/-! ### First lexemes -/

/-- Lexemes that do not start with a letter without meaning. -/
def Known (ls : List Lexeme) : Prop := ∀ l, ls.head? = some l → l.kind ≠ .unknown

theorem known_nil : Known [] := by simp [Known]

theorem known_cons {l : Lexeme} {ls : List Lexeme} {kind : Kind} (h : l.kind = kind)
    (hkind : kind ≠ .unknown) : Known (l :: ls) := by
  intro l' hl'
  cases hl'
  rw [h]
  exact hkind

theorem DerivesPart.known {active : List String} {ls rest : List Lexeme} {p : Part}
    (h : DerivesPart formulas limits active ls p rest) : Known ls := by
  cases h with
  | integer kind => exact known_cons kind nofun
  | die kind => exact known_cons kind nofun
  | group kind => exact known_cons kind nofun
  | reference kind => exact known_cons kind nofun

theorem Operand.known (y : Operand) {active : List String} {ls rest : List Lexeme}
    (h : DerivesOperand formulas limits active ls y rest) : Known ls := by
  cases y with
  | first negated p =>
    cases h with
    | first hp => exact hp.known
    | negated kind => exact known_cons kind nofun
  | more before p =>
    cases h with
    | more hy => exact before.known hy

theorem DerivesPart.ne_nil {active : List String} {ls rest : List Lexeme} {p : Part}
    (h : DerivesPart formulas limits active ls p rest) : ls ≠ [] := by
  cases h <;> exact List.cons_ne_nil _ _

theorem Operand.ne_nil (y : Operand) {active : List String} {ls rest : List Lexeme}
    (h : DerivesOperand formulas limits active ls y rest) : ls ≠ [] := by
  cases y with
  | first negated p =>
    cases h with
    | first hp => exact hp.ne_nil
    | negated => exact List.cons_ne_nil _ _
  | more before p =>
    cases h with
    | more hy => exact before.ne_nil hy

theorem Expression.ne_nil (x : Expression) {active : List String} {ls rest : List Lexeme}
    (h : DerivesExpression formulas limits active ls x rest) : ls ≠ [] := by
  cases x with
  | operand y =>
    cases h with
    | operand hy => exact y.ne_nil hy
  | binary left op right =>
    cases h with
    | binary hx => exact left.ne_nil hx

/-! ### Spans -/

variable (formulas limits active) in
/-- Whether the formula of a name is there, is not active, and has an expression. -/
def Resolves (name : String) : Prop :=
  ∃ f x, FormulaStore.find? formulas name = some f ∧ f.name ∉ active ∧
    DerivesExpression formulas limits (f.name :: active) (lex f.expression.toList) x []

variable (formulas limits active) in
/-- Lexemes that close the groups and the brackets they open, that all have a meaning, and whose names
in brackets resolve. -/
structure Span (ls : List Lexeme) : Prop where
  balanced : Balanced ls
  closed : ∀ l ∈ ls, l.kind ≠ .unclosedBracket
  known : ∀ l ∈ ls, l.kind ≠ .unknown
  resolves : ∀ l ∈ ls, l.kind = .formula → Resolves formulas limits active l.name

namespace Span

theorem nil : Span formulas limits active [] := ⟨.nil, by simp, by simp, by simp⟩

theorem append {ls more : List Lexeme} (h : Span formulas limits active ls)
    (hmore : Span formulas limits active more) : Span formulas limits active (ls ++ more) where
  balanced := h.balanced.append hmore.balanced
  closed := List.forall_mem_append.2 ⟨h.closed, hmore.closed⟩
  known := List.forall_mem_append.2 ⟨h.known, hmore.known⟩
  resolves := List.forall_mem_append.2 ⟨h.resolves, hmore.resolves⟩

theorem reference {l : Lexeme} (kind : l.kind = .formula)
    (h : Resolves formulas limits active l.name) : Span formulas limits active [l] where
  balanced := .single kind nofun nofun
  closed := by simp [kind]
  known := by simp [kind]
  resolves := List.forall_mem_singleton.2 fun _ => h

theorem single {l : Lexeme} {kind : Kind} (h : l.kind = kind) (hopen : kind ≠ .openParen)
    (hclose : kind ≠ .closeParen) (hbracket : kind ≠ .unclosedBracket) (hknown : kind ≠ .unknown)
    (hformula : kind ≠ .formula) : Span formulas limits active [l] where
  balanced := .single h hopen hclose
  closed := by simpa [h] using hbracket
  known := by simpa [h] using hknown
  resolves := by simp [h, hformula]

theorem group {ls : List Lexeme} {l close : Lexeme} (h : Span formulas limits active ls)
    (hopen : l.kind = .openParen) (hclose : close.kind = .closeParen) :
    Span formulas limits active (l :: (ls ++ [close])) where
  balanced := h.balanced.group hopen hclose
  closed := by simpa [hopen, hclose, or_imp, forall_and] using h.closed
  known := by simpa [hopen, hclose, or_imp, forall_and] using h.known
  resolves := by simpa [hopen, hclose, or_imp, forall_and] using h.resolves

end Span

variable (formulas active) in
theorem DerivesCount.exists_span {ls rest : List Lexeme} {n : Nat}
    (h : DerivesCount limits ls n rest) :
    ∃ used, ls = used ++ rest ∧ Span formulas limits active used := by
  cases h with
  | one => exact ⟨[], rfl, .nil⟩
  | given _ kind => exact ⟨[_], rfl, .single kind nofun nofun nofun nofun nofun⟩

variable (formulas active) in
theorem DerivesKeep.exists_span {ls rest : List Lexeme} {keep : Keep}
    (h : DerivesKeep limits ls keep rest) :
    ∃ used, ls = used ++ rest ∧ Span formulas limits active used := by
  cases h with
  | all => exact ⟨[], rfl, .nil⟩
  | highest _ kind count =>
    obtain ⟨used, rfl, hused⟩ := count.exists_span formulas active
    exact ⟨_ :: used, rfl, .append (.single kind nofun nofun nofun nofun nofun) hused⟩
  | lowest _ kind count =>
    obtain ⟨used, rfl, hused⟩ := count.exists_span formulas active
    exact ⟨_ :: used, rfl, .append (.single kind nofun nofun nofun nofun nofun) hused⟩

mutual

theorem Expression.exists_span (x : Expression) {active : List String} {ls rest : List Lexeme}
    (h : DerivesExpression formulas limits active ls x rest) :
    ∃ used, ls = used ++ rest ∧ Span formulas limits active used := by
  cases x with
  | operand y =>
    cases h with
    | operand hy => exact y.exists_span hy
  | binary left op right =>
    cases h with
    | binary hx kind hy =>
      obtain ⟨used, rfl, hused⟩ := left.exists_span hx
      obtain ⟨more, rfl, hmore⟩ := right.exists_span hy
      have hop := Span.append (.single kind nofun nofun nofun nofun nofun) hmore
      exact ⟨used ++ ([_] ++ more), by simp, hused.append hop⟩

theorem Operand.exists_span (y : Operand) {active : List String} {ls rest : List Lexeme}
    (h : DerivesOperand formulas limits active ls y rest) :
    ∃ used, ls = used ++ rest ∧ Span formulas limits active used := by
  cases y with
  | first negated p =>
    cases h with
    | first hp => exact p.exists_span hp
    | negated kind hp =>
      obtain ⟨used, rfl, hused⟩ := p.exists_span hp
      exact ⟨_ :: used, rfl, .append (.single kind nofun nofun nofun nofun nofun) hused⟩
  | more before p =>
    cases h with
    | more hy hp =>
      obtain ⟨used, rfl, hused⟩ := before.exists_span hy
      obtain ⟨more, rfl, hmore⟩ := p.exists_span hp
      exact ⟨used ++ more, by simp, hused.append hmore⟩

theorem Part.exists_span (p : Part) {active : List String} {ls rest : List Lexeme}
    (h : DerivesPart formulas limits active ls p rest) :
    ∃ used, ls = used ++ rest ∧ Span formulas limits active used := by
  cases p with
  | integer n =>
    cases h with
    | integer kind => exact ⟨[_], rfl, .single kind nofun nofun nofun nofun nofun⟩
  | die n keep =>
    cases h with
    | die kind _ digits _ hkeep =>
      obtain ⟨used, rfl, hused⟩ := hkeep.exists_span formulas active
      have hdigits := Span.append (.single digits nofun nofun nofun nofun nofun) hused
      exact ⟨_ :: _ :: used, rfl, .append (.single kind nofun nofun nofun nofun nofun) hdigits⟩
  | group body =>
    cases h with
    | group kind hbody closes =>
      obtain ⟨used, rfl, hused⟩ := body.exists_span hbody
      rw [List.append_nil]
      exact ⟨_ :: (used ++ [_]), by simp, hused.group kind closes⟩
  | reference name body =>
    cases h with
    | reference kind found inactive lexes hbody =>
      rw [← lexes_iff.1 lexes] at hbody
      exact ⟨[_], rfl, .reference kind ⟨_, body, found, inactive, hbody⟩⟩

end

theorem DerivesExpression.span {ls : List Lexeme} {x : Expression}
    (h : DerivesExpression formulas limits active ls x []) : Span formulas limits active ls := by
  obtain ⟨used, rfl, hspan⟩ := x.exists_span h
  rw [List.append_nil]
  exact hspan

theorem Expression.isLexed_rest (x : Expression) {ls rest : List Lexeme}
    (h : DerivesExpression formulas limits active ls x rest) (hls : IsLexed ls) : IsLexed rest := by
  obtain ⟨used, rfl, -⟩ := x.exists_span h
  exact hls.of_append

theorem Operand.isLexed_rest (y : Operand) {ls rest : List Lexeme}
    (h : DerivesOperand formulas limits active ls y rest) (hls : IsLexed ls) : IsLexed rest := by
  obtain ⟨used, rfl, -⟩ := y.exists_span h
  exact hls.of_append

end

/-! ### Other limits -/

mutual

/-- The dice of an expression, with those in parentheses and under names. -/
def Expression.dice : Expression → List (Int × Keep)
  | .operand y => y.dice
  | .binary left _ right => left.dice ++ right.dice

def Operand.dice : Operand → List (Int × Keep)
  | .first _ part => part.dice
  | .more before part => before.dice ++ part.dice

def Part.dice : Part → List (Int × Keep)
  | .integer _ => []
  | .die sides keep => [(sides, keep)]
  | .group body => body.dice
  | .reference _ body => body.dice

end

section

variable {S : Type} [FormulaStore S] {formulas : S} {limits limits' : Limits}

variable (limits limits') in
/-- Whether a die that some limits allow is allowed under others. -/
structure AllowedToo (d : Int × Keep) : Prop where
  sides : d.1 ≤ limits.maxSides → d.1 ≤ limits'.maxSides
  keep : ∀ {ls rest : List Lexeme}, DerivesKeep limits ls d.2 rest → DerivesKeep limits' ls d.2 rest

theorem DerivesCount.of_le {ls rest : List Lexeme} {n : Nat} (h : DerivesCount limits ls n rest)
    (hn : n ≤ limits.maxDice → n ≤ limits'.maxDice) : DerivesCount limits' ls n rest := by
  cases h with
  | one none => exact .one none
  | given adjacent kind le => exact .given adjacent kind (hn le)

theorem DerivesKeep.of_le {ls rest : List Lexeme} {keep : Keep} (h : DerivesKeep limits ls keep rest)
    (hkeep : ∀ n, keep = .highest n ∨ keep = .lowest n →
      n ≤ limits.maxDice → n ≤ limits'.maxDice) : DerivesKeep limits' ls keep rest := by
  cases h with
  | all none => exact .all none
  | highest adjacent kind count => exact .highest adjacent kind (count.of_le (hkeep _ (.inl rfl)))
  | lowest adjacent kind count => exact .lowest adjacent kind (count.of_le (hkeep _ (.inr rfl)))

mutual

theorem Expression.derives_of_allowed (x : Expression) {active : List String}
    {ls rest : List Lexeme} (h : DerivesExpression formulas limits active ls x rest)
    (hdice : ∀ d ∈ x.dice, AllowedToo limits limits' d) :
    DerivesExpression formulas limits' active ls x rest := by
  cases x with
  | operand y =>
    cases h with
    | operand hy => exact .operand (y.derives_of_allowed hy hdice)
  | binary left op right =>
    obtain ⟨hleft, hright⟩ := List.forall_mem_append.1 hdice
    cases h with
    | binary hx kind hy =>
      exact .binary (left.derives_of_allowed hx hleft) kind (right.derives_of_allowed hy hright)

theorem Operand.derives_of_allowed (y : Operand) {active : List String} {ls rest : List Lexeme}
    (h : DerivesOperand formulas limits active ls y rest)
    (hdice : ∀ d ∈ y.dice, AllowedToo limits limits' d) :
    DerivesOperand formulas limits' active ls y rest := by
  cases y with
  | first negated p =>
    cases h with
    | first hp => exact .first (p.derives_of_allowed hp hdice)
    | negated kind hp => exact .negated kind (p.derives_of_allowed hp hdice)
  | more before p =>
    obtain ⟨hbefore, hpart⟩ := List.forall_mem_append.1 hdice
    cases h with
    | more hy hp =>
      exact .more (before.derives_of_allowed hy hbefore) (p.derives_of_allowed hp hpart)

theorem Part.derives_of_allowed (p : Part) {active : List String} {ls rest : List Lexeme}
    (h : DerivesPart formulas limits active ls p rest)
    (hdice : ∀ d ∈ p.dice, AllowedToo limits limits' d) :
    DerivesPart formulas limits' active ls p rest := by
  cases p with
  | integer n =>
    cases h with
    | integer kind => exact .integer kind
  | die n keep =>
    cases h with
    | die kind adjacent digits le hkeep =>
      have hdie := hdice _ List.mem_cons_self
      have hsides := hdie.sides (Int.ofNat_le.2 le)
      exact .die kind adjacent digits (Int.ofNat_le.1 hsides) (hdie.keep hkeep)
  | group body =>
    cases h with
    | group kind hbody closes => exact .group kind (body.derives_of_allowed hbody hdice) closes
  | reference name body =>
    cases h with
    | reference kind found inactive lexes hbody =>
      exact .reference kind found inactive lexes (body.derives_of_allowed hbody hdice)

end

theorem Expression.derives_withDepth (x : Expression) {active : List String}
    {ls rest : List Lexeme} (h : DerivesExpression formulas limits active ls x rest) (depth : Nat) :
    DerivesExpression formulas { limits with maxDepth := depth } active ls x rest :=
  x.derives_of_allowed h fun _ _ => ⟨id, fun hkeep => hkeep.of_le fun _ _ => id⟩

mutual

theorem Expression.sides_le (x : Expression) {active : List String} {ls rest : List Lexeme}
    (h : DerivesExpression formulas limits active ls x rest) :
    ∀ d ∈ x.dice, d.1 ≤ limits.maxSides := by
  cases x with
  | operand y =>
    cases h with
    | operand hy => exact y.sides_le hy
  | binary left op right =>
    cases h with
    | binary hx kind hy => exact List.forall_mem_append.2 ⟨left.sides_le hx, right.sides_le hy⟩

theorem Operand.sides_le (y : Operand) {active : List String} {ls rest : List Lexeme}
    (h : DerivesOperand formulas limits active ls y rest) :
    ∀ d ∈ y.dice, d.1 ≤ limits.maxSides := by
  cases y with
  | first negated p =>
    cases h with
    | first hp => exact p.sides_le hp
    | negated kind hp => exact p.sides_le hp
  | more before p =>
    cases h with
    | more hy hp => exact List.forall_mem_append.2 ⟨before.sides_le hy, p.sides_le hp⟩

theorem Part.sides_le (p : Part) {active : List String} {ls rest : List Lexeme}
    (h : DerivesPart formulas limits active ls p rest) : ∀ d ∈ p.dice, d.1 ≤ limits.maxSides := by
  cases p with
  | integer n => simp [Part.dice]
  | die n keep =>
    cases h with
    | die kind adjacent digits le hkeep =>
      intro d hd
      rw [List.mem_singleton.1 hd]
      exact Int.ofNat_le.2 le
  | group body =>
    cases h with
    | group kind hbody closes => exact body.sides_le hbody
  | reference name body =>
    cases h with
    | reference kind found inactive lexes hbody => exact body.sides_le hbody

end

end

end DiceExpr
