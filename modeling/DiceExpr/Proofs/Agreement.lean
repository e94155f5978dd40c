import DiceExpr.Proofs.References
import DiceExpr.Proofs.Values

/-!
# Formulas that are not reached

What a text comes to hangs on the formulas that it reaches and on no other. Two stores that agree on
these are as good as one for the text: it is read as the same or refused for the same reason, and rolled
with the same dice. A formula that the text does not reach can be saved, changed or erased at will.

## Main statements

* `AgreeFor.alike`: stores that agree on what a text reaches are alike for the text.
* `alike_of_reached`: the statement for stores of any kind, and what follows for saved formulas.
-/

namespace DiceExpr

section

variable {S T : Type} [FormulaStore S] [FormulaStore T]

/-- Two stores have the same formula, or none, under every name that a text reaches. -/
def AgreeFor (s : S) (t : T) (text : List Char) : Prop :=
  ∀ name, Reaches s text name → FormulaStore.find? s name = FormulaStore.find? t name

/-- A text comes to the same with two stores: it is read as the same or refused for the same reason, and
from every roller, also one that records what it is asked for, it has the same value or error and leaves
the roller in the same state. -/
structure Alike (s : S) (t : T) (limits : Limits) (text : String) : Prop where
  parse : DiceExpr.parse s limits text = DiceExpr.parse t limits text
  evaluate : ∀ (σ : Type) [Roller σ] (roller : σ),
    ((Engine.mk s limits roller).evaluate text).result =
        ((Engine.mk t limits roller).evaluate text).result ∧
      ((Engine.mk s limits roller).evaluate text).engine.roller =
        ((Engine.mk t limits roller).evaluate text).engine.roller

variable {s : S} {t : T} {limits : Limits} {text : String}

theorem Alike.of_parse (h : DiceExpr.parse s limits text = DiceExpr.parse t limits text) :
    Alike s t limits text := by
  refine ⟨h, fun σ _ roller => ?_⟩
  simp only [evaluate_eq, Engine.parse, h, and_self]

theorem AgreeFor.alike (h : AgreeFor s t text.toList) : Alike s t limits text := by
  apply Alike.of_parse
  rw [parse_eq_outcomeWithin, parse_eq_outcomeWithin]
  exact outcomeWithin_congr _ h fun _ _ _ _ => Iff.rfl

/-- Formulas found under one name are told apart by their expressions alone. -/
theorem find?_eq_of_expression [LawfulFormulaStore S] [LawfulFormulaStore T] {name : String}
    (h : (FormulaStore.find? s name).map Formula.expression =
      (FormulaStore.find? t name).map Formula.expression) :
    FormulaStore.find? s name = FormulaStore.find? t name := by
  cases hs : FormulaStore.find? s name with
  | none =>
    rw [hs, Option.map_none, eq_comm, Option.map_eq_none_iff] at h
    exact h.symm
  | some f =>
    rw [hs, Option.map_some, eq_comm, Option.map_eq_some_iff] at h
    obtain ⟨g, ht, hexpression⟩ := h
    have hname : f.name = g.name :=
      (LawfulFormulaStore.name_of_find? s hs).trans (LawfulFormulaStore.name_of_find? t ht).symm
    obtain ⟨fname, fexpression⟩ := f
    obtain ⟨gname, gexpression⟩ := g
    obtain rfl : fname = gname := hname
    obtain rfl : gexpression = fexpression := hexpression
    exact ht.symm

end

/-! ### Saved formulas -/

section

variable {s : Formulas} {text : List Char}

theorem agreeFor_insert {f : Formula} (h : ¬Reaches s text f.name) : AgreeFor s (s.insert f) text := by
  intro name hname
  have hne : name ≠ f.name := by
    rintro rfl
    exact h hname
  exact ((Formulas.find?_insert s f name).trans (if_neg hne)).symm

theorem agreeFor_erase {gone : String} (h : ¬Reaches s text gone) : AgreeFor s (s.erase gone) text := by
  intro name hname
  have hne : name ≠ gone := by
    rintro rfl
    exact h hname
  exact ((Formulas.find?_erase s gone name).trans (if_neg hne)).symm

/-- Formulas under names that are new to a store do not touch a text that reaches only formulas of the
store. -/
theorem agreeFor_insertMany {fs : List Formula}
    (hfound : ∀ name, Reaches s text name → ∃ f, s.find? name = some f)
    (hnew : ∀ f ∈ fs, s.find? f.name = none) : AgreeFor s (s.insertMany fs) text := by
  intro name hname
  obtain ⟨f, hf⟩ := hfound name hname
  have hnone : fs.reverse.find? (·.name = name) = none := by
    rw [List.find?_eq_none]
    intro g hg heq
    have habsent := hnew g (List.mem_reverse.1 hg)
    rw [decide_eq_true_eq] at heq
    rw [heq, hf] at habsent
    cases habsent
  have hfind : (s.insertMany fs).find? name = s.find? name := by
    rw [Formulas.find?_insertMany, hnone, Option.none_or]
  exact hfind.symm

end

/-! ### Whole texts -/

/-- With stores that agree on the names that a text reaches, the text comes to the same. Of stores whose
formulas have the names that they are found under, it is enough that the expressions agree. So a formula
that is not reached may be put in, changed or erased, and a text that is read is read as the same after
formulas under new names have been put in. -/
theorem alike_of_reached (limits : Limits) (text : String) :
    (∀ (S T : Type) [FormulaStore S] [FormulaStore T] (s : S) (t : T),
      (∀ name, Reaches s text.toList name →
        FormulaStore.find? s name = FormulaStore.find? t name) →
      Alike s t limits text) ∧
    (∀ (S T : Type) [FormulaStore S] [FormulaStore T] [LawfulFormulaStore S] [LawfulFormulaStore T]
      (s : S) (t : T),
      (∀ name, Reaches s text.toList name →
        (FormulaStore.find? s name).map Formula.expression =
          (FormulaStore.find? t name).map Formula.expression) →
      Alike s t limits text) ∧
    (∀ (s : Formulas) (f : Formula), ¬Reaches s text.toList f.name →
      Alike s (s.insert f) limits text) ∧
    (∀ (s : Formulas) (gone : String), ¬Reaches s text.toList gone →
      Alike s (s.erase gone) limits text) ∧
    ∀ (s : Formulas) (fs : List Formula) (p : Postfix), parse s limits text = .ok p →
      (∀ f ∈ fs, s.find? f.name = none) → parse (s.insertMany fs) limits text = .ok p := by
  refine ⟨fun S T _ _ s t hagree => AgreeFor.alike hagree, ?_,
    fun s f h => (agreeFor_insert h).alike, fun s gone h => (agreeFor_erase h).alike, ?_⟩
  · intro S T _ _ _ _ s t hagree
    exact AgreeFor.alike fun name hname => find?_eq_of_expression (hagree name hname)
  · intro s fs p hp hnew
    obtain ⟨x, hx, -⟩ := derives_of_outcome ((parse_eq_outcomeWithin s limits text).symm.trans hp)
    have hfound : ∀ name, Reaches s text.toList name → ∃ f, s.find? name = some f := by
      intro name hname
      obtain ⟨now, -, f, -, found, -⟩ := resolves_of_reaches hx hname
      exact ⟨f, found⟩
    have halike : Alike s (s.insertMany fs) limits text := (agreeFor_insertMany hfound hnew).alike
    exact halike.parse.symm.trans hp

/-- A group of a name that leads to dice is read as the same after a formula that names it was put in. -/
theorem alike_of_reached_new :
    parse (Formulas.ofList [⟨"a", "[b]"⟩, ⟨"b", "2d6"⟩]) {} "3[a]" =
        .ok (.single (.group (.single (.literal 3))
          (.single (.group (.single (.literal 1)) (.single (.dice (.single (.literal 2)) 6 .all)))))) ∧
      (Formulas.ofList [⟨"a", "[b]"⟩, ⟨"b", "2d6"⟩]).find? "c" = none ∧
      parse ((Formulas.ofList [⟨"a", "[b]"⟩, ⟨"b", "2d6"⟩]).insertMany [⟨"c", "[a]"⟩]) {} "3[a]" =
        .ok (.single (.group (.single (.literal 3))
          (.single (.group (.single (.literal 1)) (.single (.dice (.single (.literal 2)) 6 .all)))))) := by
  have hparse : parse (Formulas.ofList [⟨"a", "[b]"⟩, ⟨"b", "2d6"⟩]) {} "3[a]" =
      .ok (.single (.group (.single (.literal 3))
        (.single (.group (.single (.literal 1))
          (.single (.dice (.single (.literal 2)) 6 .all)))))) := by
    decide +kernel
  have hnew : (Formulas.ofList [⟨"a", "[b]"⟩, ⟨"b", "2d6"⟩]).find? "c" = none := by decide
  have hkept := (alike_of_reached {} "3[a]").2.2.2.2 _ [⟨"c", "[a]"⟩] _ hparse (by simpa using hnew)
  exact ⟨hparse, hnew, hkept⟩

end DiceExpr
