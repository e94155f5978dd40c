import DiceExpr.Proofs.Grammar

/-!
# Tokens inside tokens

A die holds the sequence of its count, and a group those of its multiplier and its body, so a sequence
has tokens at many depths.

## Main statements

* `Postfix.mem_subtokens_iff`, `Postfix.mem_diceWithin_iff`: what is inside a sequence is inside one of
  its tokens.
-/

namespace DiceExpr

mutual

/-- A token with all tokens inside it. -/
def Token.subtokens : Token → List Token
  | .literal value => [.literal value]
  | .operator op => [.operator op]
  | .dice count sides keep => .dice count sides keep :: count.subtokens
  | .group multiplier body => .group multiplier body :: (multiplier.subtokens ++ body.subtokens)

def Postfix.subtokens : Postfix → List Token
  | .single t => t.subtokens
  | .cons t rest => t.subtokens ++ rest.subtokens

end

theorem Postfix.mem_subtokens_iff {p : Postfix} {u : Token} :
    u ∈ p.subtokens ↔ ∃ t ∈ p.toList, u ∈ t.subtokens := by
  match p with
  | .single t => simp [subtokens, toList]
  | .cons t rest => simp [subtokens, toList, mem_subtokens_iff (p := rest)]

/-! ### Dice -/

/-- The number of faces and the keep rule of a die. -/
def Token.die? : Token → Option (Int × Keep)
  | .dice _ sides keep => some (sides, keep)
  | _ => none

/-- The dice at any depth. -/
def Token.diceWithin (t : Token) : List (Int × Keep) := t.subtokens.filterMap die?

def Postfix.diceWithin (p : Postfix) : List (Int × Keep) := p.subtokens.filterMap Token.die?

section

variable {d : Int × Keep}

@[simp]
theorem Token.diceWithin_literal (n : Int) : (Token.literal n).diceWithin = [] := rfl

@[simp]
theorem Token.diceWithin_operator (op : Operator) : (Token.operator op).diceWithin = [] := rfl

@[simp]
theorem Token.diceWithin_dice (count : Postfix) (sides : Int) (keep : Keep) :
    (Token.dice count sides keep).diceWithin = (sides, keep) :: count.diceWithin := rfl

@[simp]
theorem Token.diceWithin_group (multiplier body : Postfix) :
    (Token.group multiplier body).diceWithin = multiplier.diceWithin ++ body.diceWithin :=
  List.filterMap_append

theorem Postfix.mem_diceWithin_iff {p : Postfix} :
    d ∈ p.diceWithin ↔ ∃ t ∈ p.toList, d ∈ t.diceWithin := by
  simp only [diceWithin, Token.diceWithin, List.mem_filterMap, mem_subtokens_iff]
  constructor
  · rintro ⟨u, ⟨t, ht, hu⟩, hd⟩
    exact ⟨t, ht, u, hu, hd⟩
  · rintro ⟨t, ht, u, hu, hd⟩
    exact ⟨u, ⟨t, ht, hu⟩, hd⟩

@[simp]
theorem Postfix.diceWithin_single (t : Token) : (single t).diceWithin = t.diceWithin := rfl

@[simp]
theorem Postfix.diceWithin_cons (t : Token) (rest : Postfix) :
    (cons t rest).diceWithin = t.diceWithin ++ rest.diceWithin :=
  List.filterMap_append

@[simp]
theorem Postfix.mem_diceWithin_append {p q : Postfix} :
    d ∈ (p.append q).diceWithin ↔ d ∈ p.diceWithin ∨ d ∈ q.diceWithin := by
  simp only [mem_diceWithin_iff, toList_append, List.mem_append, or_and_right, exists_or]

end

end DiceExpr
