import DiceExpr.Proofs.Outcome
import DiceExpr.Proofs.Subtokens

/-!
# The shape of what is read

In a sequence that is read each operator finds two values before it that no other operator takes. What is
left over at the end is one value, and one more for each integer that stands right after a value in the
text. The bodies of groups come from texts of their own, and the counts of dice and groups are single
values.

## Main statements

* `Shaped.step`: each item keeps the output, the operators that wait and the values in balance.
* `Made.step`: each item makes its token of a single value and of a body of its own.
* `shape_of_outcome`: the shape of what a text is read as, and of the sequences inside.
-/

namespace DiceExpr

/-! ### Values and operators -/

def Token.isOperator : Token → Bool
  | .operator _ => true
  | _ => false

def operatorCount (ts : List Token) : Nat := ts.countP Token.isOperator

def valueCount (ts : List Token) : Nat := ts.countP fun t => !t.isOperator

theorem operatorCount_cons (t : Token) (ts : List Token) :
    operatorCount (t :: ts) = operatorCount ts + if t.isOperator then 1 else 0 :=
  List.countP_cons

theorem valueCount_cons (t : Token) (ts : List Token) :
    valueCount (t :: ts) = valueCount ts + if t.isOperator then 0 else 1 := by
  rw [valueCount, List.countP_cons]
  cases t.isOperator <;> rfl

theorem operatorCount_append (ts us : List Token) :
    operatorCount (ts ++ us) = operatorCount ts + operatorCount us :=
  List.countP_append

theorem valueCount_append (ts us : List Token) :
    valueCount (ts ++ us) = valueCount ts + valueCount us :=
  List.countP_append

theorem operatorCount_reverse (ts : List Token) : operatorCount ts.reverse = operatorCount ts :=
  List.countP_reverse

theorem valueCount_reverse (ts : List Token) : valueCount ts.reverse = valueCount ts :=
  List.countP_reverse

/-- Tokens, newest first, in which each operator stands after two values that are left for it. -/
def Supplied : List Token → Prop
  | [] => True
  | t :: earlier =>
    (t.isOperator = true → operatorCount earlier + 2 ≤ valueCount earlier) ∧ Supplied earlier

theorem Supplied.of_append {later earlier : List Token} (h : Supplied (later ++ earlier)) :
    Supplied earlier := by
  induction later with
  | nil => exact h
  | cons t later ih => exact ih h.2

/-- A sequence in which each operator stands after two values that are left for it, and `1 + extra`
values are left at the end. -/
structure Postfix.HasShape (p : Postfix) (extra : Nat) : Prop where
  operands : ∀ before op after, p.toList = before ++ .operator op :: after →
    operatorCount before + 2 ≤ valueCount before
  total : valueCount p.toList = operatorCount p.toList + 1 + extra

/-- A sequence of one token that is no operator. -/
def Postfix.IsValue (p : Postfix) : Prop := ∃ t, p = .single t ∧ t.isOperator = false

theorem Postfix.IsValue.hasShape {p : Postfix} (h : p.IsValue) : p.HasShape 0 := by
  obtain ⟨t, rfl, ht⟩ := h
  constructor
  · intro before op after htokens
    have hmem : Token.operator op ∈ (single t).toList := by simp [htokens]
    rw [← List.mem_singleton.1 hmem] at ht
    cases ht
  · simp [toList, operatorCount, valueCount, ht]

/-! ### Integers after values -/

namespace Item

/-- How many integers among items stand right after a value, where a value or none stands before. -/
def looseAfter (afterValue : Bool) : List Item → Nat
  | [] => 0
  | operator _ :: rest => looseAfter false rest
  | integer _ :: rest => looseAfter true rest + afterValue.toNat
  | _ :: rest => looseAfter true rest

theorem looseAfter_of_ne_integer {item : Item} (h : ∀ n, item ≠ integer n) (afterValue : Bool)
    (rest : List Item) :
    looseAfter afterValue (item :: rest) = looseAfter true (item :: rest) := by
  cases item with
  | integer n => exact absurd rfl (h n)
  | _ => rfl

theorem looseAfter_of_makes {read : List Char → Except ParseError Postfix}
    {expand : String → Except ParseError Postfix} {item : Item} {count : Postfix} {t : Token}
    (h : item.Makes read expand count t) (afterValue : Bool) (rest : List Item) :
    looseAfter afterValue (item :: rest) = looseAfter true rest := by
  cases h with
  | die => rfl
  | nested h =>
    cases item with
    | group => rfl
    | reference => rfl
    | _ => cases h

end Item

/-- How many integers of a text stand right after a value. Integers in the texts inside do not count. -/
def looseIntegers (limits : Limits) (text : List Char) : Nat :=
  Item.looseAfter false (items limits text)

/-! ### Shape along a conversion -/

section

variable {limits : Limits} {read : List Char → Except ParseError Postfix}
  {expand : String → Except ParseError Postfix}

theorem Item.Makes.isOperator_eq {item : Item} {count : Postfix} {t : Token}
    (h : item.Makes read expand count t) : t.isOperator = false := by
  cases h <;> rfl

/-- A conversion of the items `all` with the rest of them still to come. Its values are as many as its
operators, those that wait included, with one more after a value, and with the integers so far that stand
right after a value. -/
structure Shaped (all rest : List Item) (c : Conversion) : Prop where
  supplied : Supplied c.output
  count : valueCount c.output + Item.looseAfter c.afterValue rest =
    operatorCount c.output + c.pending.length + c.afterValue.toNat + Item.looseAfter false all
  enough : operatorCount c.output + c.pending.length + c.afterValue.toNat ≤ valueCount c.output
  waiting : c.pending.length ≤ 1
  last : c.afterValue = true → ∃ t earlier, c.output = t :: earlier ∧ t.isOperator = false
  start : c.afterValue = false → c.pending = [] → c.output = []

namespace Shaped

variable {all rest later : List Item} {c d : Conversion} {t u : Token} {earlier : List Token}

theorem init (all : List Item) : Shaped all all {} := by
  refine ⟨trivial, ?_, by decide, by decide, nofun, fun _ _ => rfl⟩
  simp [valueCount, operatorCount]

/-- The operators that wait may stand where they wait, if that is after a value. -/
theorem settled (h : Shaped all rest c) (hc : c.afterValue = true) :
    Supplied (c.pending.reverse.map .operator ++ c.output) ∧
      operatorCount (c.pending.reverse.map .operator ++ c.output) =
        operatorCount c.output + c.pending.length ∧
      valueCount (c.pending.reverse.map .operator ++ c.output) = valueCount c.output := by
  have henough := h.enough
  have hwaiting := h.waiting
  rw [hc, Bool.toNat_true] at henough
  match hp : c.pending with
  | [] => exact ⟨h.supplied, rfl, rfl⟩
  | [op] =>
    rw [hp, List.length_singleton] at henough
    have hoperands : operatorCount c.output + 2 ≤ valueCount c.output := by omega
    exact ⟨⟨fun _ => hoperands, h.supplied⟩, operatorCount_cons _ _, valueCount_cons _ _⟩
  | _ :: _ :: _ =>
    rw [hp, List.length_cons, List.length_cons] at hwaiting
    omega

theorem pushOperator (op : Operator) (h : Shaped all rest c) (hc : c.afterValue = true)
    (hloose : Item.looseAfter true rest = Item.looseAfter false later) :
    Shaped all later (c.pushOperator op) := by
  obtain ⟨hsupplied, hoperators, hvalues⟩ := h.settled hc
  have hcount := h.count
  have henough := h.enough
  rw [hc, Bool.toNat_true] at hcount henough
  rw [Conversion.pushOperator_eq]
  refine ⟨hsupplied, ?_, ?_, Nat.le_refl 1, nofun, nofun⟩
  · simp only [List.length_singleton, Bool.toNat_false]
    omega
  · simp only [List.length_singleton, Bool.toNat_false]
    omega

theorem pushValue (h : Shaped all rest c) (ht : t.isOperator = false)
    (hloose : Item.looseAfter c.afterValue rest = Item.looseAfter true later + c.afterValue.toNat) :
    Shaped all later (c.pushValue t) := by
  have hcount := h.count
  have henough := h.enough
  have hoperators : operatorCount (t :: c.output) = operatorCount c.output := by
    simp [operatorCount_cons, ht]
  have hvalues : valueCount (t :: c.output) = valueCount c.output + 1 := by
    simp [valueCount_cons, ht]
  refine ⟨⟨by simp [ht], h.supplied⟩, ?_, ?_, h.waiting, fun _ => ⟨t, c.output, rfl, ht⟩, nofun⟩
  · simp only [Conversion.pushValue, Bool.toNat_true]
    omega
  · simp only [Conversion.pushValue, Bool.toNat_true]
    omega

/-- A value that takes the value before it as its count stands in its place. -/
theorem replaceLast (h : Shaped all rest c) (hc : c.afterValue = true)
    (houtput : c.output = u :: earlier) (ht : t.isOperator = false)
    (hloose : Item.looseAfter true rest = Item.looseAfter true later) :
    Shaped all later (Conversion.pushValue { c with output := earlier } t) := by
  obtain ⟨u', earlier', houtput', hu⟩ := h.last hc
  obtain ⟨rfl, rfl⟩ := List.cons.inj (houtput.symm.trans houtput')
  have hcount := h.count
  have henough := h.enough
  have hsupplied := h.supplied
  rw [houtput] at hcount henough hsupplied
  rw [hc, Bool.toNat_true] at hcount henough
  have hoperators : operatorCount (t :: earlier) = operatorCount (u :: earlier) := by
    simp [operatorCount_cons, ht, hu]
  have hvalues : valueCount (t :: earlier) = valueCount (u :: earlier) := by
    simp [valueCount_cons, ht, hu]
  refine ⟨⟨by simp [ht], hsupplied.2⟩, ?_, ?_, h.waiting, fun _ => ⟨t, earlier, rfl, ht⟩, nofun⟩
  · simp only [Conversion.pushValue, Bool.toNat_true]
    omega
  · simp only [Conversion.pushValue, Bool.toNat_true]
    omega

theorem pushToken {item : Item} (h : Shaped all (item :: rest) c)
    (ht : item.Makes read expand c.takeCount.1 t) :
    Shaped all rest (c.takeCount.2.pushValue t) := by
  have hvalue := ht.isOperator_eq
  have hloose := Item.looseAfter_of_makes ht
  rcases c.takeCount_cases with ⟨u, earlier, hc, houtput, htake⟩ | ⟨hc, htake⟩
  · rw [htake]
    exact h.replaceLast hc houtput hvalue (hloose true rest)
  · rw [htake]
    have hfalse : c.afterValue = false := by
      rcases hc with hc | hc
      · exact hc
      · cases hafter : c.afterValue with
        | false => rfl
        | true =>
          obtain ⟨u, earlier, houtput, -⟩ := h.last hafter
          rw [hc] at houtput
          cases houtput
    apply h.pushValue hvalue
    rw [hfalse, hloose false rest]
    rfl

theorem step {items : List Item} (hs : Conversion.Step limits read expand items c later d)
    (h : Shaped all items c) : Shaped all later d := by
  cases hs with
  | binary hc => exact h.pushOperator _ hc rfl
  | negative hc =>
    apply h.pushValue rfl
    rw [hc]
    rfl
  | minus hc hitem hlead =>
    apply h.pushValue rfl
    rw [hc]
    exact Item.looseAfter_of_ne_integer hitem false _
  | integer => exact h.pushValue rfl rfl
  | token ht hdepth => exact h.pushToken ht

theorem isValue_count (h : Shaped all rest c) : c.takeCount.1.IsValue := by
  rcases c.takeCount_cases with ⟨u, earlier, hc, houtput, htake⟩ | ⟨-, htake⟩
  · obtain ⟨u', earlier', houtput', hu⟩ := h.last hc
    obtain ⟨rfl, rfl⟩ := List.cons.inj (houtput.symm.trans houtput')
    rw [htake]
    exact ⟨u, rfl, hu⟩
  · rw [htake]
    exact ⟨_, rfl, rfl⟩

theorem hasShape_of_finish {p : Postfix} (h : Shaped all [] d) (hp : d.finish = .ok p) :
    p.HasShape (Item.looseAfter false all) := by
  obtain ⟨htokens, hwaits⟩ := Conversion.toList_of_finish hp
  have hafter : d.afterValue = true := by
    cases hd : d.afterValue with
    | true => rfl
    | false =>
      have hpending := hwaits hd
      rw [hpending, h.start hd hpending] at htokens
      exact absurd htokens p.toList_ne_nil
  obtain ⟨hsupplied, hoperators, hvalues⟩ := h.settled hafter
  have hreverse : p.toList.reverse = d.pending.reverse.map .operator ++ d.output := by
    rw [htokens]
    simp
  have hcount := h.count
  rw [hafter, Bool.toNat_true] at hcount
  rw [← hreverse] at hsupplied hoperators hvalues
  rw [operatorCount_reverse] at hoperators
  rw [valueCount_reverse] at hvalues
  constructor
  · intro before op after heq
    rw [heq, List.reverse_append, List.reverse_cons, List.append_assoc, List.singleton_append]
      at hsupplied
    have hoperands := hsupplied.of_append.1 rfl
    rwa [operatorCount_reverse, valueCount_reverse] at hoperands
  · simp only [Item.looseAfter] at hcount
    omega

end Shaped

/-! ### Tokens inside along a conversion -/

/-- A die or a group whose count is a value and whose body is of some kind. -/
def Token.IsMade (IsBody : Postfix → Prop) : Token → Prop
  | .dice count _ _ => count.IsValue
  | .group multiplier body => multiplier.IsValue ∧ IsBody body
  | _ => True

variable (read expand) in
/-- A conversion in which all tokens, at any depth, are made as they should, and so are the tokens of the
bodies still to come. -/
structure Made (IsBody : Postfix → Prop) (rest : List Item) (c : Conversion) : Prop where
  inside : ∀ t ∈ c.output, ∀ u ∈ t.subtokens, u.IsMade IsBody
  bodies : ∀ item ∈ rest, ∀ body, item.outcome? read expand = some (.ok body) →
    IsBody body ∧ ∀ u ∈ body.subtokens, u.IsMade IsBody

namespace Made

variable {IsBody : Postfix → Prop} {all rest later : List Item} {c d : Conversion} {t : Token}

theorem of_suffix (h : Made read expand IsBody rest c) (hlater : later <:+ rest) :
    Made read expand IsBody later c :=
  ⟨h.inside, fun item hitem => h.bodies item (hlater.subset hitem)⟩

theorem pushValue (h : Made read expand IsBody rest c) (ht : ∀ u ∈ t.subtokens, u.IsMade IsBody) :
    Made read expand IsBody rest (c.pushValue t) :=
  ⟨List.forall_mem_cons.2 ⟨ht, h.inside⟩, h.bodies⟩

theorem pushLiteral (n : Int) (h : Made read expand IsBody rest c) :
    Made read expand IsBody rest (c.pushValue (.literal n)) := by
  apply h.pushValue
  intro u hu
  rw [List.mem_singleton.1 hu]
  trivial

theorem count (h : Made read expand IsBody rest c) :
    ∀ u ∈ c.takeCount.1.subtokens, u.IsMade IsBody := by
  rcases c.takeCount_cases with ⟨u, earlier, -, houtput, htake⟩ | ⟨-, htake⟩
  · rw [htake]
    exact h.inside u (by simp [houtput])
  · rw [htake]
    intro u hu
    rw [List.mem_singleton.1 hu]
    trivial

theorem takeCount (h : Made read expand IsBody rest c) :
    Made read expand IsBody rest c.takeCount.2 := by
  refine ⟨fun t ht => h.inside t ?_, h.bodies⟩
  exact Conversion.mem_of_mem_takeCount ht

theorem pushToken {item : Item} (hshaped : Shaped all (item :: rest) c)
    (h : Made read expand IsBody (item :: rest) c) (ht : item.Makes read expand c.takeCount.1 t) :
    Made read expand IsBody rest (c.takeCount.2.pushValue t) := by
  have hvalue := hshaped.isValue_count
  have hcount := h.count
  apply (h.takeCount.of_suffix (List.suffix_cons _ _)).pushValue
  cases ht with
  | die sides keep => exact List.forall_mem_cons.2 ⟨hvalue, hcount⟩
  | nested hbody =>
    obtain ⟨hisBody, hinside⟩ := h.bodies _ List.mem_cons_self _ hbody
    exact List.forall_mem_cons.2 ⟨⟨hvalue, hisBody⟩, List.forall_mem_append.2 ⟨hcount, hinside⟩⟩

theorem step {items : List Item} (hs : Conversion.Step limits read expand items c later d)
    (hshaped : Shaped all items c) (h : Made read expand IsBody items c) :
    Made read expand IsBody later d := by
  cases hs with
  | @binary op _ _ hc =>
    refine ⟨?_, (h.of_suffix (List.suffix_cons _ _)).bodies⟩
    rw [Conversion.pushOperator_eq]
    intro t ht u hu
    rcases List.mem_append.1 ht with ht | ht
    · obtain ⟨op', -, rfl⟩ := List.mem_map.1 ht
      rw [List.mem_singleton.1 hu]
      trivial
    · exact h.inside t ht u hu
  | negative => exact (h.of_suffix ⟨[_, _], rfl⟩).pushLiteral _
  | minus => exact (h.of_suffix (List.suffix_cons _ _)).pushLiteral _
  | integer => exact (h.of_suffix (List.suffix_cons _ _)).pushLiteral _
  | token ht => exact h.pushToken hshaped ht

theorem of_finish {p : Postfix} (h : Made read expand IsBody [] d) (hp : d.finish = .ok p) :
    ∀ u ∈ p.subtokens, u.IsMade IsBody := by
  intro u hu
  obtain ⟨t, ht, hu⟩ := Postfix.mem_subtokens_iff.1 hu
  rw [(Conversion.toList_of_finish hp).1] at ht
  rcases List.mem_append.1 ht with ht | ht
  · exact h.inside t (List.mem_reverse.1 ht) u hu
  · obtain ⟨op, -, rfl⟩ := List.mem_map.1 ht
    rw [List.mem_singleton.1 hu]
    trivial

end Made

theorem shape_of_outcomeItems {IsBody : Postfix → Prop} {all : List Item} {p : Postfix}
    (hbodies : ∀ item ∈ all, ∀ body, item.outcome? read expand = some (.ok body) →
      IsBody body ∧ ∀ u ∈ body.subtokens, u.IsMade IsBody)
    (h : outcomeItems limits read expand all {} = .ok p) :
    p.HasShape (Item.looseAfter false all) ∧ ∀ u ∈ p.subtokens, u.IsMade IsBody := by
  have hstart : Shaped all all {} ∧ Made read expand IsBody all {} := ⟨.init all, nofun, hbodies⟩
  rcases outcomeItems_run (fun rest c => Shaped all rest c ∧ Made read expand IsBody rest c) h hstart
    (fun hs hboth => ⟨hboth.1.step hs, hboth.2.step hs hboth.1⟩) with
    ⟨d, ⟨hshaped, hmade⟩, hfinish⟩ | ⟨later, d, e, -, -, herror⟩
  · exact ⟨hshaped.hasShape_of_finish hfinish, hmade.of_finish hfinish⟩
  · cases herror

end

/-! ### Texts within texts -/

section

variable {S : Type} [FormulaStore S] (formulas : S) (limits : Limits)

/-- The texts that a text is read through: itself, the texts in parentheses, and the expressions of the
names in brackets. -/
inductive Visits (text : List Char) : List Char → Prop
  | self : Visits text text
  | group {outer body : List Char} (h : Visits text outer) (hitem : .group body ∈ items limits outer) :
      Visits text body
  | reference {outer : List Char} {name : String} {f : Formula} (h : Visits text outer)
      (hitem : .reference name ∈ items limits outer)
      (found : FormulaStore.find? formulas name = some f) : Visits text f.expression.toList

/-- Whether a text is read as a sequence at some level, while some formulas are active. -/
def ReadsAs (text : List Char) (p : Postfix) : Prop :=
  ∃ levels active, outcomeWithin formulas limits levels active text = .ok p

/-- A sequence that one of the texts within a text is read as, with the shape that this text gives it. -/
def IsBodyOf (text : List Char) (body : Postfix) : Prop :=
  ∃ inner, Visits formulas limits text inner ∧ ReadsAs formulas limits inner body ∧
    body.HasShape (looseIntegers limits inner)

variable {formulas limits}

theorem shape_of_outcome {levels : Nat} {active : List String} {text inner : List Char} {p : Postfix}
    (hvisits : Visits formulas limits text inner)
    (h : outcomeWithin formulas limits levels active inner = .ok p) :
    p.HasShape (looseIntegers limits inner) ∧
      ∀ u ∈ p.subtokens, u.IsMade (IsBodyOf formulas limits text) := by
  induction levels generalizing active inner p with
  | zero => cases h
  | succ levels ih =>
    refine shape_of_outcomeItems ?_ h
    intro item hitem body hbody
    cases item with
    | group t =>
      have hread := Option.some.inj hbody
      have hinner := hvisits.group hitem
      obtain ⟨hshape, hinside⟩ := ih hinner hread
      exact ⟨⟨t, hinner, ⟨levels, active, hread⟩, hshape⟩, hinside⟩
    | reference name =>
      obtain ⟨f, found, -, hread⟩ := expansion_eq_ok (Option.some.inj hbody)
      have hinner := hvisits.reference hitem found
      obtain ⟨hshape, hinside⟩ := ih hinner hread
      exact ⟨⟨_, hinner, ⟨levels, f.name :: active, hread⟩, hshape⟩, hinside⟩
    | operator => cases hbody
    | integer => cases hbody
    | die => cases hbody
    | fault => cases hbody

end

end DiceExpr
