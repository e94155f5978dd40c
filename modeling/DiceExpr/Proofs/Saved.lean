import DiceExpr.Proofs.Expansion
import DiceExpr.Proofs.Listing

/-!
# Saved formulas

A formula is saved under its name, and no other name is touched. A reader that comes to the name in
brackets reads the expression one level further down and while the formula is active. Neither makes a
difference but at the limit of depth: an expression that is read by itself does not lead back to its
name, and one that led back would not be read by itself either.

## Main statements

* `lex_bracketed`: a name in brackets is a single lexeme.
* `outcomeWithin_reference`: what a reference by itself comes to.
* `expansion_eq_ok_iff`: a reference is read just when the expression is, but for one level.
* `define_usable`: what is saved by a line, and when a reference to it can be read.
-/

namespace DiceExpr

open Lexeme Dialogue

theorem lex_bracketed {name : String} (h : ']' ∉ name.toList) :
    lex ("[" ++ name ++ "]").toList = [⟨[], .formula, '[', name.toList ++ [']']⟩] := by
  have hnext : next? ("[" ++ name ++ "]").toList =
      some (⟨[], .formula, '[', name.toList ++ [']']⟩, []) := by
    refine next?_eq_some_iff.2 ⟨?_, List.forall_mem_nil _, ⟨name.toList, rfl, h⟩, trivial⟩
    simp [source, text]
  rw [lex_of_next? hnext, lex_nil]

/-! ### A reference by itself -/

section

variable {S : Type} [FormulaStore S] {formulas : S} {limits : Limits}

/-- A reference by itself is a group of one time what the name stands for. -/
theorem outcomeWithin_reference {l : Lexeme} {text : List Char} (hlex : lex text = [l])
    (kind : l.kind = .formula) (levels : Nat) (active : List String) :
    outcomeWithin formulas limits (levels + 1) active text =
      (expansion formulas (outcomeWithin formulas limits levels) active l.name >>= fun body =>
        if body.depth < limits.maxDepth then .ok (.single (.group (.literal 1) body))
        else .error (.tooDeep limits.maxDepth)) := by
  have hitems : items limits text = [.reference l.name] := by
    simp only [items, hlex, Item.read, kind]
  rw [outcomeWithin, hitems, outcomeItems_nested rfl]
  congr 1
  funext body
  change (({} : Conversion).pushNested limits (.group (.literal 1) body) >>=
    outcomeItems limits _ _ []) = _
  simp only [Conversion.pushNested, Token.depth_group_le_iff]
  split <;> rfl

theorem outcomeWithin_reference_eq_ok_iff {l : Lexeme} {text : List Char} {q : Postfix}
    (hlex : lex text = [l]) (kind : l.kind = .formula) (levels : Nat) (active : List String) :
    outcomeWithin formulas limits (levels + 1) active text = .ok q ↔
      ∃ body, expansion formulas (outcomeWithin formulas limits levels) active l.name = .ok body ∧
        body.depth < limits.maxDepth ∧ q = .single (.group (.literal 1) body) := by
  rw [outcomeWithin_reference hlex kind]
  constructor
  · intro h
    cases hbody : expansion formulas (outcomeWithin formulas limits levels) active l.name with
    | error e =>
      rw [hbody] at h
      cases h
    | ok body =>
      rw [hbody] at h
      change (if body.depth < limits.maxDepth then _ else _) = _ at h
      split at h
      · next hdepth => exact ⟨body, rfl, hdepth, (Except.ok.inj h).symm⟩
      · cases h
  · rintro ⟨body, hbody, hdepth, rfl⟩
    rw [hbody]
    exact if_pos hdepth

variable [LawfulFormulaStore S] {name : String} {f : Formula}

/-- A formula that can be read while it is active does not lead back to itself. -/
theorem outcomeWithin_inactive {p : Postfix} {levels : Nat}
    (h : outcomeWithin formulas limits levels [f.name] f.expression.toList = .ok p) :
    outcomeWithin formulas limits levels [] f.expression.toList = .ok p := by
  obtain ⟨x, hx, -, -⟩ := derives_of_outcome h
  rw [← h]
  apply outcomeWithin_congr
  · intro other _
    rfl
  · intro other hreached g hg
    -- Whatever is reached resolves while the formula is active, so it is another one.
    obtain ⟨now, hactive, hnow⟩ := resolves_of_reaches hx hreached
    have hne : g.name ≠ f.name := by
      intro heq
      have hother : other ∈ now := hactive (by
        rw [← LawfulFormulaStore.name_of_find? formulas hg, heq]
        exact List.mem_singleton_self _)
      exact hnow.not_mem_active hother
    simp [hne]

/-- What a name stands for is read just when its expression is read by itself, if either nests less
deep than the limits allow. -/
theorem expansion_eq_ok_iff {p : Postfix} (found : FormulaStore.find? formulas name = some f) :
    (expansion formulas (outcomeWithin formulas limits limits.maxDepth) [] name = .ok p ∧
        p.depth < limits.maxDepth) ↔
      parse formulas limits f.expression = .ok p ∧ p.depth < limits.maxDepth := by
  rw [parse_eq_outcomeWithin]
  constructor
  · rintro ⟨h, hdepth⟩
    obtain ⟨g, hg, -, hread⟩ := expansion_eq_ok h
    obtain rfl : f = g := Option.some.inj (found.symm.trans hg)
    obtain ⟨x, hx, rfl, hbound⟩ := derives_of_outcome (outcomeWithin_inactive hread)
    exact ⟨outcome_of_derives hx hbound hbound, hdepth⟩
  · rintro ⟨h, hdepth⟩
    obtain ⟨x, hx, rfl, hbound⟩ := derives_of_outcome h
    rw [expansion_eq_outcomeWithin found hx]
    -- The reference takes a level, so the expression is read with one less.
    have hlevels : x.toPostfix.depth ≤ limits.maxDepth - 1 := by omega
    have hread := outcome_of_derives hx hlevels hbound
    rw [Nat.sub_add_cancel (by omega)] at hread
    exact ⟨hread, hdepth⟩

end

/-! ### What a definition does -/

section

variable {σ : Type} (e : Engine σ) (f : Formula)

theorem limits_define : (e.define f).2.limits = e.limits := by
  unfold Engine.define
  dsimp only
  split <;> rfl

theorem define_eq_none_iff :
    (e.define f).1 = none ↔ ∃ p, (e.define f).2.parse f.expression = .ok p := by
  unfold Engine.define
  dsimp only
  split
  · next p hp => simp [hp]
  · next why hwhy => simp [hwhy]

/-- A line that defines a formula saves it under its name and touches no other name. The name in
brackets is a single lexeme. It can be read just when there was no warning and the expression nests less
deep than the limits allow, and then it is a group of one time the expression. -/
theorem define_usable {line : List Char} {f : Formula} (h : definition? line = some f) :
    (e.define f).2.formulas.find? f.name = some f ∧
    (∀ name, name ≠ f.name → (e.define f).2.formulas.find? name = e.formulas.find? name) ∧
    (∃ l, lex ("[" ++ f.name ++ "]").toList = [l] ∧ l.kind = .formula ∧ l.name = f.name) ∧
    ∀ q, (e.define f).2.parse ("[" ++ f.name ++ "]") = .ok q ↔
      (e.define f).1 = none ∧ ∃ p, (e.define f).2.parse f.expression = .ok p ∧
        p.depth < e.limits.maxDepth ∧ q = .single (.group (.literal 1) p) := by
  have hlex := lex_bracketed (isDefinition_of_definition? h).isListable.name
  have hname : (Lexeme.mk [] .formula '[' (f.name.toList ++ [']'])).name = f.name := by
    simp [Lexeme.name]
  have hfind (name : String) : (e.define f).2.formulas.find? name =
      if name = f.name then some f else e.formulas.find? name := by
    rw [formulas_define, Formulas.find?_insert]
  have found : (e.define f).2.formulas.find? f.name = some f := by rw [hfind, if_pos rfl]
  refine ⟨found, ?_, ⟨_, hlex, rfl, hname⟩, ?_⟩
  · intro name hne
    rw [hfind, if_neg hne]
  · intro q
    rw [define_eq_none_iff]
    simp only [Engine.parse, limits_define]
    rw [parse_eq_outcomeWithin, outcomeWithin_reference_eq_ok_iff hlex rfl, hname]
    constructor
    · rintro ⟨p, hexpansion, hdepth, rfl⟩
      obtain ⟨hp, -⟩ := (expansion_eq_ok_iff found).1 ⟨hexpansion, hdepth⟩
      exact ⟨⟨p, hp⟩, p, hp, hdepth, rfl⟩
    · rintro ⟨-, p, hp, hdepth, rfl⟩
      obtain ⟨hexpansion, -⟩ := (expansion_eq_ok_iff found).2 ⟨hp, hdepth⟩
      exact ⟨p, hexpansion, hdepth, rfl⟩

theorem define_usable_hit :
    definition? "[hit] = d20+5 ".toList = some ⟨"hit", "d20+5"⟩ ∧
      ((Engine.mk Formulas.empty { maxDepth := 2 } ()).define ⟨"hit", "d20+5"⟩).2.parse
          ("[" ++ "hit" ++ "]") =
        .ok (.single (.group (.literal 1) (.cons (.dice (.literal 1) 20 .all)
          (.cons (.literal 5) (.single (.operator .add)))))) := by
  have hline : definition? "[hit] = d20+5 ".toList = some ⟨"hit", "d20+5"⟩ := by decide +kernel
  refine ⟨hline, ?_⟩
  obtain ⟨-, -, -, hparse⟩ := define_usable (Engine.mk Formulas.empty { maxDepth := 2 } ()) hline
  refine (hparse _).2 ⟨?_, _, ?_, ?_, rfl⟩
  · decide +kernel
  · decide +kernel
  · decide

end

end DiceExpr
