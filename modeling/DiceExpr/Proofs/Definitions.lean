import DiceExpr.Dialogue
import DiceExpr.Proofs.Lexing

/-!
# Definitions of formulas

Which lines define a formula, and which one, is said by how a line is put together. The line that shows
a formula defines the formula again, as long as its name has no closing bracket and its expression no
white space at its ends. That is so of every formula that a line defines.

## Main statements

* `definition?_eq_some_iff`: the lines that define a formula.
* `definition?_trim_render`: the line that shows a formula defines it.
-/

namespace DiceExpr

open Text

/-- A line that is a name in brackets, an equals sign and an expression defines the formula of that name
with the expression, without the white space at its ends. -/
def IsDefinition (line : List Char) (f : Formula) : Prop :=
  ∃ name gap expression, line = '[' :: (name ++ ']' :: (gap ++ '=' :: expression)) ∧ ']' ∉ name ∧
    (∀ c ∈ gap, isSpace c = true) ∧ f = ⟨String.ofList name, String.ofList (trim expression)⟩

theorem isDefinition_of_definition? {line : List Char} {f : Formula} (h : definition? line = some f) :
    IsDefinition line f := by
  unfold definition? at h
  split at h
  · next line =>
    split at h
    · cases h
    · next close after hclose =>
      split at h
      · next expression hequals =>
        have hbracket : close = ']' := by simpa [isNameChar] using Lexeme.eq_false_of_dropWhile hclose
        have hline := List.takeWhile_append_dropWhile (p := isNameChar) (l := line)
        have hafter := List.takeWhile_append_dropWhile (p := isSpace) (l := after)
        rw [trimStart] at hequals
        rw [hequals] at hafter
        rw [hclose, hbracket, ← hafter] at hline
        refine ⟨line.takeWhile isNameChar, after.takeWhile isSpace, expression, ?_,
          Lexeme.not_mem_takeWhile_isNameChar line, ?_, (Option.some.inj h).symm⟩
        · rw [hline]
        · exact List.all_eq_true.1 List.all_takeWhile
      · cases h
  · cases h

theorem IsDefinition.definition? {line : List Char} {f : Formula} (h : IsDefinition line f) :
    definition? line = some f := by
  obtain ⟨name, gap, expression, rfl, hname, hgap, rfl⟩ := h
  have hspan := Lexeme.span_append (']' :: (gap ++ '=' :: expression)) (Lexeme.mem_isNameChar hname)
    (by simp [isNameChar])
  have hafter : trimStart (gap ++ '=' :: expression) = '=' :: expression := by
    rw [trimStart, List.dropWhile_append_of_pos hgap]
    exact List.dropWhile_cons_of_neg (by decide)
  simp only [DiceExpr.definition?, hspan, hafter]

theorem definition?_eq_some_iff {line : List Char} {f : Formula} :
    definition? line = some f ↔ IsDefinition line f :=
  ⟨isDefinition_of_definition?, IsDefinition.definition?⟩

/-! ### Formulas that are shown -/

/-- A formula that is read back from the line that shows it. -/
structure Formula.IsListable (f : Formula) : Prop where
  name : ']' ∉ f.name.toList
  expression : IsTrimmed f.expression.toList

theorem IsDefinition.isListable {line : List Char} {f : Formula} (h : IsDefinition line f) :
    f.IsListable := by
  obtain ⟨name, gap, expression, -, hname, -, rfl⟩ := h
  constructor
  · rwa [String.toList_ofList]
  · rw [String.toList_ofList]
    exact isTrimmed_trim expression

theorem toList_render (f : Formula) :
    f.render.toList =
      '[' :: (f.name.toList ++ ']' :: ([' '] ++ '=' :: ' ' :: f.expression.toList)) := by
  simp [Formula.render, toString]

/-- An expression that is shown after a blank is the same without it, also if it is empty and the blank
at the end of the line is lost. -/
theorem trim_trimEnd_space_cons {expression : List Char} (h : IsTrimmed expression) :
    trim (trimEnd (' ' :: expression)) = expression := by
  cases expression with
  | nil => rfl
  | cons c cs =>
    have hkept : trimEnd (' ' :: c :: cs) = ' ' :: c :: cs := by
      apply trimEnd_eq_self
      rw [List.getLast?_cons_cons]
      exact h.last
    rw [hkept, trim_space_cons _ rfl, h.trim_eq]

theorem trim_render (f : Formula) :
    trim f.render.toList =
      '[' :: (f.name.toList ++ ']' :: ([' '] ++ '=' :: trimEnd (' ' :: f.expression.toList))) := by
  have hstart : trimStart f.render.toList = f.render.toList := by
    apply trimStart_eq_self
    rw [toList_render]
    intro c hc
    cases hc
    rfl
  have hend := trimEnd_append_cons ('[' :: (f.name.toList ++ [']', ' '])) (' ' :: f.expression.toList)
    (c := '=') rfl
  rw [trim, hstart, toList_render]
  simpa using hend

theorem definition?_trim_render {f : Formula} (h : f.IsListable) :
    definition? (trim f.render.toList) = some f := by
  have hgap : ∀ c ∈ [' '], isSpace c = true := List.forall_mem_singleton.2 rfl
  refine definition?_eq_some_iff.2 ⟨f.name.toList, [' '], _, trim_render f, h.name, hgap, ?_⟩
  simp only [trim_trimEnd_space_cons h.expression, String.ofList_toList]

theorem newline_not_mem_render {line : List Char} {f : Formula} (h : IsDefinition line f)
    (hline : '\n' ∉ line) : '\n' ∉ f.render.toList := by
  obtain ⟨name, gap, expression, rfl, -, -, rfl⟩ := h
  rw [toList_render, String.toList_ofList, String.toList_ofList]
  have hexpression : '\n' ∉ trim expression := by
    intro hmem
    have hwhole := mem_of_mem_trim hmem
    simp [hwhole] at hline
  simp only [List.mem_cons, List.mem_append, not_or] at hline
  simp [hexpression, hline]

end DiceExpr
