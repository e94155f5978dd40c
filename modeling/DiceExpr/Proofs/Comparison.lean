import Mathlib.Data.List.Forall2
import DiceExpr.Proofs.Outcome

/-!
# Readings compared

Two readings go the same way as long as they meet like items. One of them may be the more demanding: it
refuses a body, a die or a depth that the other lets pass. Then it refuses the whole text as well, and
for the same reason, or it comes to what the other comes to.

## Main statements

* `outcomeItems_refines`: a reading that refuses more comes to the same or to such a refusal.
* `outcomeItems_congr`: a result hangs on items only by what their bodies come to.
-/

namespace DiceExpr

/-! ### Results -/

/-- Results that are the same, unless the first is an error of some kind. -/
def Refines {α : Type} (kind : ParseError → Prop) (r r' : Except ParseError α) : Prop :=
  r = r' ∨ ∃ e, r = .error e ∧ kind e

namespace Refines

variable {α β : Type} {kind : ParseError → Prop} {r r' : Except ParseError α}

theorem refl (r : Except ParseError α) : Refines kind r r := .inl rfl

theorem of_error {e : ParseError} (h : kind e) : Refines kind (.error e) r' := .inr ⟨e, rfl, h⟩

theorem bind {f g : α → Except ParseError β} (h : Refines kind r r')
    (hnext : ∀ a, Refines kind (f a) (g a)) : Refines kind (r >>= f) (r' >>= g) := by
  rcases h with rfl | ⟨e, rfl, he⟩
  · cases r with
    | ok a => exact hnext a
    | error e => exact .refl _
  · exact .of_error he

theorem map (h : Refines kind r r') (f : α → β) : Refines kind (r.map f) (r'.map f) := by
  rcases h with rfl | ⟨e, rfl, he⟩
  · exact .refl _
  · exact .of_error he

theorem atMost {n bound bound' : Nat} {e : ParseError} (hle : bound ≤ bound') (h : Refines kind r r')
    (he : bound < n → n ≤ bound' → kind e) :
    Refines kind (if n ≤ bound then r else .error e) (if n ≤ bound' then r' else .error e) := by
  by_cases hbound : n ≤ bound
  · rw [if_pos hbound, if_pos (Nat.le_trans hbound hle)]
    exact h
  · rw [if_neg hbound]
    split
    · next hbound' => exact .of_error (he (Nat.not_le.1 hbound) hbound')
    · exact .refl _

theorem eq_ok {a : α} (h : Refines kind (.ok a) r') : r' = .ok a := by
  rcases h with rfl | ⟨e, he, -⟩
  · rfl
  · cases he

theorem eq (h : Refines kind r r') (hnone : ∀ e, r = .error e → ¬kind e) : r = r' := by
  rcases h with rfl | ⟨e, rfl, he⟩
  · rfl
  · exact absurd he (hnone e rfl)

end Refines

/-! ### Items -/

section

variable (kind : ParseError → Prop) (read read' : List Char → Except ParseError Postfix)
  (expand expand' : String → Except ParseError Postfix)

/-- Items that differ at most in their bodies, where the first body may be refused for more. -/
inductive Item.Refined : Item → Item → Prop
  | same {item : Item} (h : item.outcome? read expand = none) : Refined item item
  | body {item item' : Item} {r r' : Except ParseError Postfix}
      (h : item.outcome? read expand = some r) (h' : item'.outcome? read' expand' = some r')
      (hr : Refines kind r r') : Refined item item'

/-- Items that go the same way, where the first may end at a die that is refused. -/
inductive ItemsRefined : List Item → List Item → Prop
  | nil : ItemsRefined [] []
  | cons {item item' : Item} {rest rest' : List Item}
      (h : item.Refined kind read read' expand expand' item') (hrest : ItemsRefined rest rest') :
      ItemsRefined (item :: rest) (item' :: rest')
  | stops {e : ParseError} {item' : Item} {rest' : List Item} (he : kind e)
      (hlead : item'.lead = .die) : ItemsRefined [.fault .die e] (item' :: rest')

variable {limits limits' : Limits} {kind read read' expand expand'}

theorem Item.Refined.ne_integer {item item' : Item}
    (h : item.Refined kind read read' expand expand' item') (hitem : ∀ n, item ≠ .integer n)
    (n : Nat) : item' ≠ .integer n := by
  cases h with
  | same => exact hitem n
  | body _ h' => exact ne_integer_of_outcome h' n

theorem Item.Refined.isNegatable_eq {item item' : Item}
    (h : item.Refined kind read read' expand expand' item') :
    item.lead.isNegatable = item'.lead.isNegatable := by
  cases h with
  | same => rfl
  | body h h' => rw [isNegatable_of_outcome h, isNegatable_of_outcome h']

theorem outcomeItems_minus_refines {item item' : Item} {rest rest' : List Item} {c : Conversion}
    (hc : c.afterValue = false) (hitem : item.Refined kind read read' expand expand' item')
    (hrest : ∀ c, Refines kind (outcomeItems limits read expand rest c)
      (outcomeItems limits' read' expand' rest' c))
    (hall : ∀ c, Refines kind (outcomeItems limits read expand (item :: rest) c)
      (outcomeItems limits' read' expand' (item' :: rest') c)) :
    Refines kind (outcomeItems limits read expand (.operator .sub :: item :: rest) c)
      (outcomeItems limits' read' expand' (.operator .sub :: item' :: rest') c) := by
  by_cases h : ∃ n, item = .integer n
  · obtain ⟨n, rfl⟩ := h
    cases hitem with
    | body h => cases h
    | same =>
      rw [outcomeItems_negative hc, outcomeItems_negative hc]
      exact hrest _
  · have hne : ∀ n, item ≠ .integer n := fun n e => h ⟨n, e⟩
    rw [outcomeItems_minus hc hne, outcomeItems_minus hc (hitem.ne_integer hne),
      hitem.isNegatable_eq]
    split
    · exact hall _
    · exact .refl _

theorem outcomeItems_refines
    (hpush : ∀ c t, Refines kind (Conversion.pushNested c limits t) (c.pushNested limits' t))
    {items items' : List Item} (h : ItemsRefined kind read read' expand expand' items items')
    (c : Conversion) :
    Refines kind (outcomeItems limits read expand items c)
      (outcomeItems limits' read' expand' items' c) := by
  cases h with
  | nil => exact .refl _
  | stops he hlead => exact .of_error he
  | @cons item item' rest rest' hitem hrest =>
    cases hitem with
    | body h h' hr =>
      rw [outcomeItems_nested h, outcomeItems_nested h']
      refine hr.bind fun body => ?_
      exact (hpush _ _).bind fun c => outcomeItems_refines hpush hrest c
    | same h =>
      cases item with
      | operator op =>
        cases hc : c.afterValue with
        | true =>
          rw [outcomeItems_binary hc, outcomeItems_binary hc]
          exact outcomeItems_refines hpush hrest _
        | false =>
          by_cases hop : op = .sub
          · subst hop
            cases hrest with
            | nil =>
              rw [outcomeItems_misplaced hc (.inr rfl), outcomeItems_misplaced hc (.inr rfl)]
              exact .refl _
            | cons hitem hlater =>
              exact outcomeItems_minus_refines hc hitem (outcomeItems_refines hpush hlater)
                (outcomeItems_refines hpush (.cons hitem hlater))
            | @stops e _ _ he hlead =>
              have hfault : ∀ n, Item.fault .die e ≠ .integer n := nofun
              rw [outcomeItems_minus hc hfault]
              exact .of_error he
          · rw [outcomeItems_misplaced hc (.inl hop), outcomeItems_misplaced hc (.inl hop)]
            exact .refl _
      | integer n => exact outcomeItems_refines hpush hrest _
      | die sides keep => exact (hpush _ _).bind fun c => outcomeItems_refines hpush hrest c
      | fault kind error => exact .refl _
      | group text => cases h
      | reference name => cases h
termination_by items.length

end

/-! ### Items whose bodies come to the same -/

section

variable (read read' : List Char → Except ParseError Postfix)
  (expand expand' : String → Except ParseError Postfix)

/-- Items that differ at most in what their bodies are, and not in what these come to. -/
inductive Item.Alike : Item → Item → Prop
  | same {item : Item} (h : item.outcome? read expand = none) : Alike item item
  | body {item item' : Item} {r : Except ParseError Postfix}
      (h : item.outcome? read expand = some r) (h' : item'.outcome? read' expand' = some r) :
      Alike item item'

variable {limits : Limits} {read read' expand expand'}

theorem Item.Alike.refl (item : Item) : Alike read read expand expand item item := by
  cases h : item.outcome? read expand with
  | none => exact .same h
  | some r => exact .body h h

theorem itemsRefined_of_alike {kind : ParseError → Prop} {items items' : List Item}
    (h : List.Forall₂ (Item.Alike read read' expand expand') items items') :
    ItemsRefined kind read read' expand expand' items items' := by
  induction h with
  | nil => exact .nil
  | cons hitem _ ih =>
    cases hitem with
    | same h => exact .cons (.same h) ih
    | body h h' => exact .cons (.body h h' (.refl _)) ih

theorem outcomeItems_congr {items items' : List Item}
    (h : List.Forall₂ (Item.Alike read read' expand expand') items items') (c : Conversion) :
    outcomeItems limits read expand items c = outcomeItems limits read' expand' items' c := by
  have hrefines : Refines (fun _ => False) (outcomeItems limits read expand items c)
      (outcomeItems limits read' expand' items' c) :=
    outcomeItems_refines (fun _ _ => .refl _) (itemsRefined_of_alike h) c
  exact hrefines.eq fun _ _ => id

end

end DiceExpr
