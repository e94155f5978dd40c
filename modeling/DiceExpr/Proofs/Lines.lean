import DiceExpr.Proofs.Definitions
import DiceExpr.Proofs.Spelling

/-!
# Lines of a dialogue

A dialogue looks for a definition before it reads an expression, and it takes all white space off the
ends of a line, where expressions are put between spaces and tabs only. Neither gets in the way of an
expression. What follows the name in a definition is no lexeme of an expression, be it the equals sign or
white space of another kind. For the same reason there is no such white space around an expression, so a
line that can be read is evaluated.

## Main statements

* `exists_unknown_of_definition`: some character of a definition starts no lexeme.
* `parse_trim`: an expression is read as the same without the white space around it.
* `answer_of_evaluated`: the answer to a line that is evaluated.
* `definition_not_expression`: a line that defines a formula cannot be read, and a line that can be read
  is evaluated.
-/

namespace DiceExpr

open Lexeme Text

/-! ### White space -/

theorem isSpace_eq_false_of_isDigit {c : Char} (h : c.isDigit = true) : isSpace c = false := by
  obtain ⟨hlow, hhigh⟩ : 48 ≤ c.toNat ∧ c.toNat ≤ 57 := Char.isDigit_iff_toNat.1 h
  have hne : ∀ n, n < 48 ∨ 57 < n → c.toNat ≠ n := by omega
  simp only [isSpace]
  grind

theorem isSpace_of_isBlank {c : Char} (h : isBlank c = true) : isSpace c = true := by
  simp only [isBlank, Bool.or_eq_true, decide_eq_true_eq] at h
  rcases h with rfl | rfl <;> rfl

theorem startsNothing_of_isSpace {c : Char} (h : isSpace c = true) (hblank : isBlank c = false) :
    StartsNothing c := by
  refine ⟨hblank, ?_, ?_⟩
  · cases hdigit : c.isDigit with
    | false => rfl
    | true =>
      rw [isSpace_eq_false_of_isDigit hdigit] at h
      cases h
  · intro hmem
    have hnone : ['d', 'D', 'h', 'H', 'l', 'L', '+', '-', '*', '/', '(', ')', '['].all
        (fun d => !isSpace d) = true := rfl
    have hspace := List.all_eq_true.1 hnone c hmem
    rw [h] at hspace
    cases hspace

theorem lex_of_startsNothing {gap : List Char} {c : Char} (hgap : ∀ c ∈ gap, isBlank c = true)
    (h : StartsNothing c) (rest : List Char) :
    lex (gap ++ c :: rest) = ⟨gap, .unknown, c, []⟩ :: lex rest :=
  lex_of_next? (next?_eq_some_iff.2 ⟨by simp [source, text], hgap, ⟨c, rfl, h⟩, trivial⟩)

/-- The text of a lexeme of an expression does not end with white space. -/
theorem Lexeme.Kind.Matches.exists_last {kind : Kind} {text : List Char} (h : kind.Matches text)
    (hclosed : kind ≠ .unclosedBracket) (hknown : kind ≠ .unknown) :
    ∃ before last, text = before ++ [last] ∧ isSpace last = false := by
  cases kind with
  | integer =>
    obtain ⟨hne, hdigits⟩ := h
    have hlast := hdigits _ (List.getLast_mem hne)
    exact ⟨_, _, (List.dropLast_append_getLast hne).symm, isSpace_eq_false_of_isDigit hlast⟩
  | formula =>
    obtain ⟨name, rfl, -⟩ := h
    exact ⟨'[' :: name, ']', rfl, rfl⟩
  | unclosedBracket => exact absurd rfl hclosed
  | unknown => exact absurd rfl hknown
  | die => rcases h with rfl | rfl <;> exact ⟨[], _, rfl, rfl⟩
  | highest => rcases h with rfl | rfl <;> exact ⟨[], _, rfl, rfl⟩
  | lowest => rcases h with rfl | rfl <;> exact ⟨[], _, rfl, rfl⟩
  | operator op =>
    cases h
    cases op <;> exact ⟨[], _, rfl, rfl⟩
  | openParen => exact ⟨[], _, h, rfl⟩
  | closeParen => exact ⟨[], _, h, rfl⟩

/-! ### Definitions -/

/-- Between the name and the expression of a definition, the first character that is no blank starts
no lexeme. -/
theorem exists_unknown_of_gap {blanks gap : List Char} (hblanks : ∀ c ∈ blanks, isBlank c = true)
    (hgap : ∀ c ∈ gap, isSpace c = true) (expression : List Char) :
    ∃ l ∈ lex (blanks ++ (gap ++ '=' :: expression)), l.kind = .unknown := by
  induction gap generalizing blanks with
  | nil =>
    have hequals : StartsNothing '=' := ⟨by decide, by decide, by decide⟩
    rw [List.nil_append, lex_of_startsNothing hblanks hequals]
    exact ⟨_, List.mem_cons_self, rfl⟩
  | cons c gap ih =>
    obtain ⟨hc, hrest⟩ := List.forall_mem_cons.1 hgap
    cases hblank : isBlank c with
    | true =>
      have hlonger : ∀ d ∈ blanks ++ [c], isBlank d = true :=
        List.forall_mem_append.2 ⟨hblanks, List.forall_mem_singleton.2 hblank⟩
      have hmore := ih hlonger hrest
      rwa [List.append_assoc] at hmore
    | false =>
      rw [List.cons_append, lex_of_startsNothing hblanks (startsNothing_of_isSpace hc hblank)]
      exact ⟨_, List.mem_cons_self, rfl⟩

theorem exists_unknown_of_definition {line : List Char} {f : Formula} (h : IsDefinition line f) :
    ∃ l ∈ lex line, l.kind = .unknown := by
  obtain ⟨name, gap, expression, rfl, hname, hgap, -⟩ := h
  obtain ⟨l, hl, hkind⟩ := exists_unknown_of_gap (List.forall_mem_nil _) hgap expression
  have hnext : next? ('[' :: (name ++ ']' :: (gap ++ '=' :: expression))) =
      some (⟨[], .formula, '[', name ++ [']']⟩, gap ++ '=' :: expression) :=
    next?_eq_some_iff.2 ⟨by simp [source, text], List.forall_mem_nil _, ⟨name, rfl, hname⟩, trivial⟩
  rw [lex_of_next? hnext]
  exact ⟨l, List.mem_cons_of_mem _ hl, hkind⟩

/-! ### Expressions on lines -/

section

variable {S : Type} [FormulaStore S] {formulas : S} {limits : Limits} {p : Postfix}
  {line text : List Char}

theorem exists_derivation_of_line (h : parse formulas limits (String.ofList text) = .ok p) :
    ∃ x, DerivesExpression formulas limits [] (lex text) x [] := by
  obtain ⟨x, hx, -⟩ := exists_derivation h
  rw [String.toList_ofList] at hx
  exact ⟨x, hx⟩

theorem ne_unknown_of_parse (h : parse formulas limits (String.ofList text) = .ok p) :
    ∀ l ∈ lex text, l.kind ≠ .unknown := by
  obtain ⟨x, hx⟩ := exists_derivation_of_line h
  exact hx.span.known

theorem exists_lead_of_parse (h : parse formulas limits (String.ofList text) = .ok p) :
    ∃ blanks, (∀ c ∈ blanks, isBlank c = true) ∧ text = blanks ++ trimStart text := by
  obtain ⟨x, hx⟩ := exists_derivation_of_line h
  obtain ⟨l, ls, hlex⟩ := List.exists_cons_of_ne_nil (x.ne_nil hx)
  obtain ⟨rest, hnext, -⟩ := lex_eq_cons_iff.1 hlex
  obtain ⟨rfl, hgap, matched, -⟩ := next?_eq_some_iff.1 hnext
  refine ⟨l.gap, hgap, ?_⟩
  have hhead : isSpace l.head = false := by
    cases hspace : isSpace l.head with
    | false => rfl
    | true =>
      exfalso
      have hstart := startsNothing_of_isSpace hspace matched.not_blank
      have hunknown := lex_of_startsNothing hgap hstart (l.tail ++ rest)
      have hwhole : l.source ++ rest = l.gap ++ l.head :: (l.tail ++ rest) := List.append_assoc _ _ _
      rw [← hwhole] at hunknown
      exact ne_unknown_of_parse h _ (hunknown ▸ List.mem_cons_self) rfl
  have hspaces : ∀ c ∈ l.gap, isSpace c = true := fun c hc => isSpace_of_isBlank (hgap c hc)
  rw [source, List.append_assoc, trimStart, List.dropWhile_append_of_pos hspaces]
  rw [Lexeme.text, List.cons_append, List.dropWhile_cons_of_neg (by simp [hhead])]

theorem exists_trail_of_parse (h : parse formulas limits (String.ofList text) = .ok p) :
    ∃ blanks, (∀ c ∈ blanks, isBlank c = true) ∧ text = trimEnd text ++ blanks := by
  obtain ⟨x, hx⟩ := exists_derivation_of_line h
  obtain ⟨ls, l, hlex⟩ : ∃ ls l, lex text = ls ++ [l] :=
    ⟨_, _, (List.dropLast_append_getLast (x.ne_nil hx)).symm⟩
  have hmem : l ∈ lex text := hlex ▸ List.mem_append_right ls (List.mem_singleton_self l)
  obtain ⟨rest, htext, hlast⟩ := exists_rest_of_lex hlex
  obtain ⟨blanks, hnext, hnil⟩ := lex_eq_cons_iff.1 hlast
  obtain ⟨rfl, -, matched, -⟩ := next?_eq_some_iff.1 hnext
  obtain ⟨before, c, hc, hspace⟩ := matched.exists_last (hx.span.closed l hmem) (hx.span.known l hmem)
  have hblanks := lex_eq_nil_iff.1 hnil
  have hnone : trimEnd blanks = [] := by
    rw [trimEnd, List.reverse_eq_nil_iff, List.dropWhile_eq_nil_iff]
    exact fun d hd => isSpace_of_isBlank (hblanks d (List.mem_reverse.1 hd))
  refine ⟨blanks, hblanks, ?_⟩
  -- The last lexeme ends with `c`, and the white space that is taken off comes after it.
  have hwhole : text = (ls.flatMap source ++ l.gap ++ before) ++ c :: blanks := by
    rw [htext, source, hc]
    simp
  rw [hwhole, trimEnd_append_cons _ _ hspace, hnone]
  simp

theorem parse_trimStart (h : parse formulas limits (String.ofList text) = .ok p) :
    parse formulas limits (String.ofList (trimStart text)) = .ok p := by
  obtain ⟨blanks, hblanks, hwhole⟩ := exists_lead_of_parse h
  refine parse_of_corresponds ?_ h
  rw [String.toList_ofList, String.toList_ofList]
  have hsame := corresponds_lead hblanks (trimStart text)
  rw [← hwhole] at hsame
  exact hsame.symm

theorem parse_trimEnd (h : parse formulas limits (String.ofList text) = .ok p) :
    parse formulas limits (String.ofList (trimEnd text)) = .ok p := by
  obtain ⟨blanks, hblanks, hwhole⟩ := exists_trail_of_parse h
  refine parse_of_corresponds ?_ h
  rw [String.toList_ofList, String.toList_ofList]
  have hsame := corresponds_trail hblanks (trimEnd text) none
  rw [← hwhole] at hsame
  exact hsame.symm

theorem parse_trim (h : parse formulas limits (String.ofList text) = .ok p) :
    parse formulas limits (String.ofList (trim text)) = .ok p :=
  parse_trimEnd (parse_trimStart h)

theorem definition?_eq_none_of_parse (h : parse formulas limits (String.ofList text) = .ok p) :
    definition? text = none := by
  cases hf : definition? text with
  | none => rfl
  | some f =>
    obtain ⟨l, hl, hkind⟩ := exists_unknown_of_definition (definition?_eq_some_iff.1 hf)
    exact absurd hkind (ne_unknown_of_parse h l hl)

theorem ne_nil_of_parse (h : parse formulas limits (String.ofList text) = .ok p) : text ≠ [] := by
  obtain ⟨x, hx⟩ := exists_derivation_of_line h
  rintro rfl
  exact x.ne_nil hx lex_nil

theorem ne_list_of_parse (h : parse formulas limits (String.ofList text) = .ok p) :
    text ≠ [':', 'l', 'i', 's', 't'] := by
  rintro rfl
  have hcolon : StartsNothing ':' := ⟨by decide, by decide, by decide⟩
  have hlex := lex_of_startsNothing (List.forall_mem_nil _) hcolon ['l', 'i', 's', 't']
  exact ne_unknown_of_parse h _ (hlex ▸ List.mem_cons_self) rfl

end

/-! ### Answers -/

namespace Dialogue

variable {σ : Type} [Roller σ]

/-- What is printed of an evaluation: the total, or why there is none. -/
def replyTo (evaluation : Evaluation σ) : Reply :=
  match evaluation.result with
  | .ok total => { output := [toString total] }
  | .error why => { errors := [s!"Error: {why.message}"] }

theorem answer_of_evaluated {line : List Char} (e : Engine σ) (hne : trim line ≠ [])
    (hlist : trim line ≠ [':', 'l', 'i', 's', 't']) (hdefinition : definition? (trim line) = none) :
    answer e line =
      (replyTo (e.evaluate (String.ofList (trim line))),
        (e.evaluate (String.ofList (trim line))).engine) := by
  have hempty : (trim line).isEmpty = false := List.isEmpty_eq_false_iff.2 hne
  simp only [answer, hlist, hdefinition, hempty, replyTo, Bool.false_eq_true, ↓reduceIte]
  cases (e.evaluate (String.ofList (trim line))).result <;> rfl

end Dialogue

/-- A line that defines a formula cannot be read as an expression. A line that can be read is read as the
same without the white space at its ends, and it is what a dialogue evaluates. -/
theorem definition_not_expression {S : Type} [FormulaStore S] (formulas : S) (limits : Limits)
    (line : List Char) :
    (∀ f, definition? line = some f →
      ∃ why, parse formulas limits (String.ofList line) = .error why) ∧
    ∀ p, parse formulas limits (String.ofList line) = .ok p →
      parse formulas limits (String.ofList (trim line)) = .ok p ∧
      trim line ≠ [] ∧ trim line ≠ [':', 'l', 'i', 's', 't'] ∧ definition? (trim line) = none ∧
      ∀ {σ : Type} [Roller σ] (e : Engine σ), Dialogue.answer e line =
        (Dialogue.replyTo (e.evaluate (String.ofList (trim line))),
          (e.evaluate (String.ofList (trim line))).engine) := by
  constructor
  · intro f hf
    cases hparse : parse formulas limits (String.ofList line) with
    | error why => exact ⟨why, rfl⟩
    | ok p =>
      rw [definition?_eq_none_of_parse hparse] at hf
      cases hf
  · intro p hp
    have htrim := parse_trim hp
    have hne := ne_nil_of_parse htrim
    have hlist := ne_list_of_parse htrim
    have hdefinition := definition?_eq_none_of_parse htrim
    exact ⟨htrim, hne, hlist, hdefinition, fun e => Dialogue.answer_of_evaluated e hne hlist hdefinition⟩

/-- The brackets of a definition and those of a reference are told apart by what comes after them. -/
theorem definition_not_expression_brackets :
    (∃ why, parse Formulas.empty {} (String.ofList "[hit]\u2003= 1d20".toList) = .error why) ∧
      parse (Formulas.empty.insert ⟨"hit", "1d20"⟩) {} (String.ofList (trim " [hit]\t".toList)) =
        .ok (.single (.group (.literal 1) (.single (.dice (.literal 1) 20 .all)))) := by
  have hdefinition : definition? "[hit]\u2003= 1d20".toList = some ⟨"hit", "1d20"⟩ := by
    decide +kernel
  have hparse : parse (Formulas.empty.insert ⟨"hit", "1d20"⟩) {} (String.ofList " [hit]\t".toList) =
      .ok (.single (.group (.literal 1) (.single (.dice (.literal 1) 20 .all)))) := by
    decide +kernel
  exact ⟨(definition_not_expression Formulas.empty {} _).1 _ hdefinition,
    ((definition_not_expression _ {} _).2 _ hparse).1⟩

end DiceExpr
