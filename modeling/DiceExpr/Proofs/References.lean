import Mathlib.Logic.Relation
import DiceExpr.Proofs.Comparison
import DiceExpr.Proofs.Reading

/-!
# References between formulas

A formula refers to the names that stand in brackets in its expression. Which names a text reaches in
this way, and which of them lie on a cycle, is a matter of the store alone. Reading refuses a formula
when it is active, which is a matter of the way that led to it. The two agree: a text is read only if
all the names it reaches are there and lie on no cycle, and a formula that is refused is not there or
lies on a cycle.

## Main statements

* `Resolves.transGen`: names that are reached from a name resolve while it is active.
* `blamed_of_outcome`: the formula that an error names is at fault.
* `outcomeWithin_congr`: names that are not reached do not matter.
* `parse_references`: the statement for whole texts.
-/

namespace DiceExpr

open Lexeme Relation

/-- Whether a name stands in brackets in a text. -/
def Mentions (text : List Char) (name : String) : Prop :=
  ∃ l ∈ lex text, l.kind = .formula ∧ l.name = name

theorem mentions_of_group {limits : Limits} {text body : List Char}
    (h : .group body ∈ items limits text) {name : String} (hname : Mentions body name) :
    Mentions text name := by
  rcases Item.stands_of_mem_read h with ⟨kind, e, hfault, -⟩ | ⟨before, here, rest, hhere, hstands⟩
  · cases hfault
  · have hlexed := isLexed_lex text
    rw [hhere] at hlexed
    cases hstands with
    | group =>
      obtain ⟨l, hl, kind, hname⟩ := hname
      rw [hlexed.of_append.of_cons.lex_before] at hl
      exact ⟨l, by simp [hhere, hl], kind, hname⟩

theorem mentions_of_reference {limits : Limits} {text : List Char} {name : String}
    (h : .reference name ∈ items limits text) : Mentions text name := by
  rcases Item.stands_of_mem_read h with ⟨kind, e, hfault, -⟩ | ⟨before, here, rest, hhere, hstands⟩
  · cases hfault
  · cases hstands with
    | @reference l _ kind => exact ⟨l, by simp [hhere], kind, rfl⟩

section

variable {S : Type} [FormulaStore S] (formulas : S)

/-- Whether the formula of a name mentions another name. -/
def Refers (name other : String) : Prop :=
  ∃ f, FormulaStore.find? formulas name = some f ∧ Mentions f.expression.toList other

/-- Whether a text mentions a name, or one that leads to it. -/
def Reaches (text : List Char) (name : String) : Prop :=
  ∃ first, Mentions text first ∧ ReflTransGen (Refers formulas) first name

variable {formulas}

theorem Reaches.of_mentions {text : List Char} {name : String} (h : Mentions text name) :
    Reaches formulas text name := ⟨name, h, .refl⟩

theorem Reaches.of_group {limits : Limits} {text body : List Char} {name : String}
    (h : .group body ∈ items limits text) (hname : Reaches formulas body name) :
    Reaches formulas text name := by
  obtain ⟨first, hfirst, hpath⟩ := hname
  exact ⟨first, mentions_of_group h hfirst, hpath⟩

theorem transGen_of_reaches {name other : String} {f : Formula}
    (found : FormulaStore.find? formulas name = some f)
    (h : Reaches formulas f.expression.toList other) : TransGen (Refers formulas) name other := by
  obtain ⟨first, hfirst, hpath⟩ := h
  exact TransGen.head' ⟨f, found, hfirst⟩ hpath

theorem Reaches.of_formula {text : List Char} {name other : String} {f : Formula}
    (hname : Mentions text name) (found : FormulaStore.find? formulas name = some f)
    (h : Reaches formulas f.expression.toList other) : Reaches formulas text other :=
  ⟨name, hname, (transGen_of_reaches found h).to_reflTransGen⟩

end

/-! ### Names that are read -/

section

variable {S : Type} [FormulaStore S] [LawfulFormulaStore S] {formulas : S} {limits : Limits}
  {active : List String} {name other : String}

theorem Resolves.not_mem_active (h : Resolves formulas limits active name) : name ∉ active := by
  obtain ⟨f, -, found, inactive, -⟩ := h
  rw [← LawfulFormulaStore.name_of_find? formulas found]
  exact inactive

theorem Resolves.step (h : Resolves formulas limits active name)
    (hrefers : Refers formulas name other) : Resolves formulas limits (name :: active) other := by
  obtain ⟨f, x, found, -, hx⟩ := h
  obtain ⟨g, foundAgain, l, hl, kind, rfl⟩ := hrefers
  obtain rfl : f = g := Option.some.inj (found.symm.trans foundAgain)
  rw [LawfulFormulaStore.name_of_find? formulas found] at hx
  exact hx.span.resolves l hl kind

/-- What a formula leads to resolves while the formula is active, with everything that was so before. -/
theorem Resolves.transGen (h : Resolves formulas limits active name)
    (hpath : TransGen (Refers formulas) name other) :
    ∃ now, name ∈ now ∧ active ⊆ now ∧ Resolves formulas limits now other := by
  induction hpath with
  | single hrefers =>
    exact ⟨name :: active, List.mem_cons_self, List.subset_cons_self _ _, h.step hrefers⟩
  | tail _ hrefers ih =>
    obtain ⟨now, hname, hactive, hnow⟩ := ih
    refine ⟨_ :: now, List.mem_cons_of_mem _ hname, ?_, hnow.step hrefers⟩
    exact List.subset_cons_of_subset _ hactive

theorem Resolves.not_cyclic (h : Resolves formulas limits active name) :
    ¬TransGen (Refers formulas) name name := by
  intro hcycle
  obtain ⟨now, hname, -, hnow⟩ := h.transGen hcycle
  exact hnow.not_mem_active hname

theorem resolves_of_reaches {text : List Char} {x : Expression}
    (hx : DerivesExpression formulas limits active (lex text) x [])
    (h : Reaches formulas text name) :
    ∃ now, active ⊆ now ∧ Resolves formulas limits now name := by
  obtain ⟨first, ⟨l, hl, kind, rfl⟩, hpath⟩ := h
  have hfirst := hx.span.resolves l hl kind
  rcases reflTransGen_iff_eq_or_transGen.1 hpath with rfl | hpath
  · exact ⟨active, List.Subset.refl _, hfirst⟩
  · obtain ⟨now, -, hactive, hnow⟩ := hfirst.transGen hpath
    exact ⟨now, hactive, hnow⟩

end

/-! ### Formulas that are refused -/

section

variable {S : Type} [FormulaStore S] {formulas : S} {limits : Limits} {active : List String}
  {name : String}

variable (formulas active) in
/-- The formula that an error names is reached by a text, and is not there, or is active or lies on a
cycle. -/
inductive Blamed (text : List Char) : ParseError → Prop
  | unknown {name : String} (reached : Reaches formulas text name)
      (absent : FormulaStore.find? formulas name = none) : Blamed text (.unknownFormula name)
  | selfReferential {name : String} (reached : Reaches formulas text name)
      (again : name ∈ active ∨ TransGen (Refers formulas) name name) :
      Blamed text (.selfReferentialFormula name)

theorem Blamed.of_group {text body : List Char} {e : ParseError}
    (h : .group body ∈ items limits text) (he : Blamed formulas active body e) :
    Blamed formulas active text e := by
  cases he with
  | unknown reached absent => exact .unknown (reached.of_group h) absent
  | selfReferential reached again => exact .selfReferential (reached.of_group h) again

theorem Blamed.of_formula {text : List Char} {f : Formula} {e : ParseError}
    (hname : Mentions text name) (found : FormulaStore.find? formulas name = some f)
    (he : Blamed formulas (name :: active) f.expression.toList e) :
    Blamed formulas active text e := by
  cases he with
  | unknown reached absent => exact .unknown (.of_formula hname found reached) absent
  | selfReferential reached again =>
    refine .selfReferential (.of_formula hname found reached) ?_
    rcases again with hother | hcycle
    · rcases List.mem_cons.1 hother with rfl | hother
      · exact .inr (transGen_of_reaches found reached)
      · exact .inl hother
    · exact .inr hcycle

theorem blamed_of_expansion [LawfulFormulaStore S]
    {read : List String → List Char → Except ParseError Postfix} {text : List Char} {e : ParseError}
    (hname : Mentions text name)
    (hread : ∀ {active : List String} {text : List Char},
      read active text = .error e → Blamed formulas active text e)
    (h : expansion formulas read active name = .error e) : Blamed formulas active text e := by
  unfold expansion at h
  split at h
  · next absent =>
    cases h
    exact .unknown (.of_mentions hname) absent
  · next f found =>
    have hf : f.name = name := LawfulFormulaStore.name_of_find? formulas found
    rw [hf] at h
    split at h
    · next hmem =>
      cases h
      exact .selfReferential (.of_mentions hname) (.inl hmem)
    · exact .of_formula hname found (hread h)

theorem blamed_of_outcome [LawfulFormulaStore S] {levels : Nat} {text : List Char} {e : ParseError}
    (h : outcomeWithin formulas limits levels active text = .error e) (he : e.IsOfFormula) :
    Blamed formulas active text e := by
  induction levels generalizing active text with
  | zero =>
    cases h
    simp [ParseError.IsOfFormula] at he
  | succ levels ih =>
    rcases error_of_outcomeItems h with ⟨item, hitem, hfails⟩ | horder
    · rcases hfails with hbody | ⟨kind, rfl⟩
      · cases item with
        | group body => exact (ih (Option.some.inj hbody)).of_group hitem
        | reference name =>
          exact blamed_of_expansion (mentions_of_reference hitem) ih (Option.some.inj hbody)
        | operator => cases hbody
        | integer => cases hbody
        | die => cases hbody
        | fault => cases hbody
      · exact absurd he (Item.not_isOfFormula_of_mem_read hitem)
    · rcases horder with rfl | rfl | ⟨op, rfl⟩ <;> simp [ParseError.IsOfFormula] at he

end

/-! ### What is not reached -/

section

variable {S T : Type} [FormulaStore S] [FormulaStore T] {formulas : S} {others : T} {limits : Limits}

theorem expansion_congr {read now : List String → List Char → Except ParseError Postfix}
    {active active' : List String} {name : String}
    (hfind : FormulaStore.find? formulas name = FormulaStore.find? others name)
    (hactive : ∀ f, FormulaStore.find? formulas name = some f → (f.name ∈ active ↔ f.name ∈ active'))
    (hread : ∀ f, FormulaStore.find? formulas name = some f →
      read (f.name :: active) f.expression.toList = now (f.name :: active') f.expression.toList) :
    expansion formulas read active name = expansion others now active' name := by
  unfold expansion
  rw [← hfind]
  cases found : FormulaStore.find? formulas name with
  | none => rfl
  | some f => simp only [hread f found, hactive f found]

/-- What a text comes to hangs only on the names that it reaches: on their formulas and on which of them
are active. -/
theorem outcomeWithin_congr (levels : Nat) {active active' : List String} {text : List Char}
    (hfind : ∀ name, Reaches formulas text name →
      FormulaStore.find? formulas name = FormulaStore.find? others name)
    (hactive : ∀ name, Reaches formulas text name → ∀ f, FormulaStore.find? formulas name = some f →
      (f.name ∈ active ↔ f.name ∈ active')) :
    outcomeWithin formulas limits levels active text =
      outcomeWithin others limits levels active' text := by
  induction levels generalizing active active' text with
  | zero => rfl
  | succ levels ih =>
    have hgroup (body : List Char) (h : .group body ∈ items limits text) :
        outcomeWithin formulas limits levels active body =
          outcomeWithin others limits levels active' body := by
      apply ih
      · intro name hname
        exact hfind name (hname.of_group h)
      · intro name hname
        exact hactive name (hname.of_group h)
    have hreference (name : String) (h : .reference name ∈ items limits text) :
        expansion formulas (outcomeWithin formulas limits levels) active name =
          expansion others (outcomeWithin others limits levels) active' name := by
      have hname := mentions_of_reference h
      apply expansion_congr (hfind name (.of_mentions hname)) (hactive name (.of_mentions hname))
      intro f found
      apply ih
      · intro other hother
        exact hfind other (.of_formula hname found hother)
      · intro other hother g hg
        simp only [List.mem_cons, hactive other (.of_formula hname found hother) g hg]
    refine outcomeItems_congr (List.forall₂_same.2 ?_) {}
    intro item hitem
    cases item with
    | group body => exact .body rfl (congrArg some (hgroup body hitem).symm)
    | reference name => exact .body rfl (congrArg some (hreference name hitem).symm)
    | operator => exact .same rfl
    | integer => exact .same rfl
    | die => exact .same rfl
    | fault => exact .same rfl

end

/-! ### Whole texts -/

/-- A text is read only if all names that it reaches are there and lie on no cycle. A formula that is
refused as part of itself lies on a cycle that the text reaches, and one that is refused as unknown is
reached and not there. So neither happens where all names that are reached are there and lie on no
cycle. -/
theorem parse_references (formulas : Formulas) (limits : Limits) (text : String) :
    (∀ p, parse formulas limits text = .ok p → ∀ name, Reaches formulas text.toList name →
      (∃ f, formulas.find? name = some f) ∧ ¬TransGen (Refers formulas) name name) ∧
    (∀ name, parse formulas limits text = .error (.selfReferentialFormula name) →
      Reaches formulas text.toList name ∧ TransGen (Refers formulas) name name) ∧
    (∀ name, parse formulas limits text = .error (.unknownFormula name) →
      Reaches formulas text.toList name ∧ formulas.find? name = none) ∧
    ((∀ name, Reaches formulas text.toList name →
        (∃ f, formulas.find? name = some f) ∧ ¬TransGen (Refers formulas) name name) →
      ∀ name, parse formulas limits text ≠ .error (.selfReferentialFormula name) ∧
        parse formulas limits text ≠ .error (.unknownFormula name)) := by
  rw [parse_eq_outcomeWithin]
  have hself (name : String)
      (h : outcomeWithin formulas limits (limits.maxDepth + 1) [] text.toList =
        .error (.selfReferentialFormula name)) :
      Reaches formulas text.toList name ∧ TransGen (Refers formulas) name name := by
    cases blamed_of_outcome h ⟨name, .inr rfl⟩ with
    | selfReferential reached again => exact ⟨reached, again.resolve_left (by simp)⟩
  have hunknown (name : String)
      (h : outcomeWithin formulas limits (limits.maxDepth + 1) [] text.toList =
        .error (.unknownFormula name)) :
      Reaches formulas text.toList name ∧ formulas.find? name = none := by
    cases blamed_of_outcome h ⟨name, .inl rfl⟩ with
    | unknown reached absent => exact ⟨reached, absent⟩
  refine ⟨?_, hself, hunknown, ?_⟩
  · intro p h name hname
    obtain ⟨x, hx, -⟩ := derives_of_outcome h
    obtain ⟨now, -, hnow⟩ := resolves_of_reaches hx hname
    obtain ⟨f, -, found, -⟩ := id hnow
    exact ⟨⟨f, found⟩, hnow.not_cyclic⟩
  · intro hclosed name
    constructor
    · intro h
      obtain ⟨reached, hcycle⟩ := hself name h
      exact (hclosed name reached).2 hcycle
    · intro h
      obtain ⟨reached, absent⟩ := hunknown name h
      obtain ⟨f, found⟩ := (hclosed name reached).1
      rw [absent] at found
      cases found

end DiceExpr
