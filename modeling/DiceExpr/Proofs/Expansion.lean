import DiceExpr.Proofs.References
import DiceExpr.Proofs.Values

/-!
# Formulas written out

A reference to a formula whose expression can be read by itself may be written out: the name in
brackets may be replaced by the expression in parentheses. Both are read as a group with the same body.
The formula is active only while the reference is read, but its expression does not lead back to it, so
that makes no difference.

## Main statements

* `readDie_append`: a die does not depend on a reference or a group after it.
* `itemsAlike_writtenOut`: the items before and after a reference is written out are alike.
* `outcomeWithin_writtenOut`: so is what they come to, however deep the reference stands in groups.
* `parse_writtenOut`: the statement for whole texts.
-/

namespace DiceExpr

open Lexeme

/-- A lexeme that no die takes up and no keep rule is refused for. -/
def Lexeme.IsInert (l : Lexeme) : Prop := l.kind = .formula ∨ l.kind = .openParen

/-! ### Dice before other items -/

theorem Lexeme.IsInert.ne_integer {l : Lexeme} (h : l.IsInert) : l.kind ≠ .integer := by
  rcases h with h | h <;> simp [h]

namespace Item

variable {limits : Limits} {l : Lexeme}

theorem readKeepCount_append (hl : l.IsInert) (ls more : List Lexeme) :
    readKeepCount limits (ls ++ l :: more) =
      (readKeepCount limits ls).map fun (n, rest) => (n, rest ++ l :: more) := by
  cases ls with
  | nil =>
    simp only [List.nil_append, readKeepCount, hl.ne_integer, and_false, ↓reduceIte]
    rfl
  | cons m ls =>
    simp only [List.cons_append, readKeepCount]
    split
    · split <;> rfl
    · rfl

theorem readKeep_append (hl : l.IsInert) (ls more : List Lexeme) :
    readKeep limits (ls ++ l :: more) =
      (readKeep limits ls).map fun (keep, rest) => (keep, rest ++ l :: more) := by
  cases ls with
  | nil =>
    simp only [List.nil_append, readKeep]
    split
    · rcases hl with h | h <;> simp only [h] <;> rfl
    · rfl
  | cons m ls =>
    simp only [List.cons_append, readKeep]
    split
    · split
      · rw [readKeepCount_append hl]
        cases readKeepCount limits ls <;> rfl
      · rw [readKeepCount_append hl]
        cases readKeepCount limits ls <;> rfl
      · split <;> rfl
      · rfl
    · rfl

theorem readDie_append (hl : l.IsInert) (ls more : List Lexeme) :
    readDie limits (ls ++ l :: more) =
      (readDie limits ls).map fun (sides, keep, rest) => (sides, keep, rest ++ l :: more) := by
  cases ls with
  | nil =>
    simp only [List.nil_append, readDie, hl.ne_integer, and_false, ↓reduceIte]
    rfl
  | cons m ls =>
    simp only [List.cons_append, readDie]
    split
    · split
      · rw [readKeep_append hl]
        cases readKeep limits ls <;> rfl
      · rfl
    · rfl

end Item

/-! ### Lexemes written out -/

/-- The lexemes of a reference and those that may stand for it: an expression in parentheses. -/
structure WrittenOut (reference opening closing : Lexeme) (body : List Lexeme) : Prop where
  reference_kind : reference.kind = .formula
  opening_kind : opening.kind = .openParen
  closing_kind : closing.kind = .closeParen
  balanced : Balanced body

section

variable {limits : Limits} {reference opening closing : Lexeme} {body : List Lexeme}

theorem WrittenOut.balanced_group (h : WrittenOut reference opening closing body) :
    Balanced (opening :: (body ++ [closing])) :=
  h.balanced.group h.opening_kind h.closing_kind

theorem WrittenOut.balanced_reference (h : WrittenOut reference opening closing body) :
    Balanced [reference] :=
  .single h.reference_kind nofun nofun

/-- A group that holds a reference: it ends after the reference, or not at all. -/
theorem readGroup_around (h : WrittenOut reference opening closing body) {opened : Nat}
    {ls : List Lexeme} (hopen : openAfter 0 ls = some opened) (more : List Lexeme) :
    (Item.readGroup 0 (ls ++ reference :: more) = none ∧
      Item.readGroup 0 (ls ++ opening :: (body ++ closing :: more)) = none) ∨
    ∃ inner close rest, more = inner ++ close :: rest ∧ close.kind = .closeParen ∧
      Item.readGroup 0 (ls ++ reference :: more) =
        some ((ls ++ reference :: inner).flatMap source ++ close.gap, rest) ∧
      Item.readGroup 0 (ls ++ opening :: (body ++ closing :: more)) =
        some ((ls ++ opening :: (body ++ closing :: inner)).flatMap source ++ close.gap, rest) := by
  have hreference := openAfter_append 0 ls [reference]
  rw [hopen, Option.bind_some, h.balanced_reference opened] at hreference
  have hgroup := openAfter_append 0 ls (opening :: (body ++ [closing]))
  rw [hopen, Option.bind_some, h.balanced_group opened] at hgroup
  have hread := readGroup_append hreference more
  have hwritten := readGroup_append hgroup more
  simp only [List.append_assoc, List.cons_append, List.nil_append] at hread hwritten
  cases hr : Item.readGroup opened more with
  | none =>
    rw [hr] at hread hwritten
    exact .inl ⟨hread, hwritten⟩
  | some r =>
    obtain ⟨text, rest⟩ := r
    obtain ⟨inner, close, rfl, hclose, -, rfl⟩ := readGroup_eq_some_iff.1 hr
    rw [hr] at hread hwritten
    refine .inr ⟨inner, close, rest, rfl, hclose, ?_, ?_⟩
    · rw [hread]
      simp
    · rw [hwritten]
      simp

section

variable {read : List Char → Except ParseError Postfix} {expand : String → Except ParseError Postfix}

theorem forall₂_alike_refl (items : List Item) :
    List.Forall₂ (Item.Alike read read expand expand) items items :=
  List.forall₂_same.2 fun item _ => .refl item

variable (read reference opening closing body) in
/-- Texts come to the same before and after a reference in them is written out. -/
def ReadsAlike : Prop :=
  ∀ (text written : List Char) (ls more : List Lexeme), lex text = ls ++ reference :: more →
    lex written = ls ++ opening :: (body ++ closing :: more) → read text = read written

variable (limits read expand reference opening closing body) in
/-- The items read from lexemes are alike before and after a reference is written out that stands after
`ls` and before `more`. -/
def ItemsAlike (more ls : List Lexeme) : Prop :=
  List.Forall₂ (Item.Alike read read expand expand) (Item.read limits (ls ++ reference :: more))
    (Item.read limits (ls ++ opening :: (body ++ closing :: more)))

theorem itemsAlike_nil (h : WrittenOut reference opening closing body)
    (hbody : expand reference.name = read (body.flatMap source ++ closing.gap))
    (more : List Lexeme) :
    ItemsAlike limits reference opening closing body read expand more [] := by
  have hgroup : Item.readGroup 0 (body ++ closing :: more) =
      some (body.flatMap source ++ closing.gap, more) :=
    readGroup_eq_some_iff.2 ⟨body, closing, rfl, h.closing_kind, h.balanced 0, rfl⟩
  simp only [ItemsAlike, List.nil_append]
  rw [Item.read_openParen h.opening_kind, hgroup, Item.read]
  simp only [h.reference_kind]
  exact .cons (.body rfl (congrArg some hbody.symm)) (forall₂_alike_refl _)

section

variable {l : Lexeme} {ls more : List Lexeme}

theorem itemsAlike_die (h : WrittenOut reference opening closing body) (hl : l.kind = .die)
    (hrest : ∀ used rest, ls = used ++ rest →
      ItemsAlike limits reference opening closing body read expand more rest) :
    ItemsAlike limits reference opening closing body read expand more (l :: ls) := by
  simp only [ItemsAlike, List.cons_append]
  rw [Item.read_die hl, Item.read_die hl, Item.readDie_append (.inl h.reference_kind),
    Item.readDie_append (.inr h.opening_kind)]
  cases hd : Item.readDie limits ls with
  | error e => exact forall₂_alike_refl _
  | ok r =>
    obtain ⟨sides, keep, rest⟩ := r
    obtain ⟨first, used, hused⟩ := (Item.stands_of_readDie hl hd).exists_used
    exact .cons (.refl _) (hrest used rest (List.cons.inj hused).2)

/-- A group is alike: either it ends before the reference, or the reference is in it. -/
theorem itemsAlike_group (h : WrittenOut reference opening closing body)
    (hread : ReadsAlike reference opening closing body read) (hl : l.kind = .openParen)
    (hls : IsLexed (ls ++ reference :: more))
    (hls' : IsLexed (ls ++ opening :: (body ++ closing :: more)))
    (hrest : ∀ used rest, ls = used ++ rest →
      ItemsAlike limits reference opening closing body read expand more rest) :
    ItemsAlike limits reference opening closing body read expand more (l :: ls) := by
  simp only [ItemsAlike, List.cons_append]
  rw [Item.read_openParen hl, Item.read_openParen hl]
  cases ho : openAfter 0 ls with
  | none =>
    obtain ⟨inner, close, rest, rfl, hclose, hopen⟩ := exists_close_of_openAfter ho
    have hgroup (tail : List Lexeme) : Item.readGroup 0 (inner ++ close :: rest ++ tail) =
        some (inner.flatMap source ++ close.gap, rest ++ tail) :=
      readGroup_eq_some_iff.2 ⟨inner, close, by simp, hclose, hopen, rfl⟩
    rw [hgroup, hgroup]
    exact .cons (.refl _) (hrest (inner ++ [close]) rest (by simp))
  | some opened =>
    rcases readGroup_around h ho more with
      ⟨hnone, hnone'⟩ | ⟨inner, close, rest, rfl, hclose, hgroup, hgroup'⟩
    · rw [hnone, hnone']
      exact forall₂_alike_refl _
    · have hinner : IsLexed ((ls ++ reference :: inner) ++ close :: rest) := by simpa using hls
      have hinner' : IsLexed ((ls ++ opening :: (body ++ closing :: inner)) ++ close :: rest) := by
        simpa using hls'
      have hsame := hread _ _ ls inner hinner.lex_before hinner'.lex_before
      rw [hgroup, hgroup']
      exact .cons (.body rfl (congrArg some hsame.symm)) (forall₂_alike_refl _)

end

theorem itemsAlike_writtenOut {ls more : List Lexeme}
    (h : WrittenOut reference opening closing body)
    (hbody : expand reference.name = read (body.flatMap source ++ closing.gap))
    (hread : ReadsAlike reference opening closing body read)
    (hls : IsLexed (ls ++ reference :: more))
    (hls' : IsLexed (ls ++ opening :: (body ++ closing :: more))) :
    ItemsAlike limits reference opening closing body read expand more ls := by
  match ls with
  | [] => exact itemsAlike_nil h hbody more
  | l :: ls =>
    have hrest (used rest : List Lexeme) (hused : ls = used ++ rest) :
        ItemsAlike limits reference opening closing body read expand more rest := by
      subst hused
      rw [List.cons_append, List.append_assoc] at hls hls'
      exact itemsAlike_writtenOut h hbody hread hls.of_cons.of_append hls'.of_cons.of_append
    have hafter := hrest [] ls rfl
    cases hl : l.kind with
    | die => exact itemsAlike_die h hl hrest
    | openParen => exact itemsAlike_group h hread hl hls.of_cons hls'.of_cons hrest
    | operator op =>
      simp only [ItemsAlike, List.cons_append, Item.read, hl]
      exact .cons (.refl _) hafter
    | integer =>
      simp only [ItemsAlike, List.cons_append, Item.read, hl]
      exact .cons (.refl _) hafter
    | formula =>
      simp only [ItemsAlike, List.cons_append, Item.read, hl]
      exact .cons (.refl _) hafter
    | closeParen | unclosedBracket | highest | lowest | unknown =>
      simp only [ItemsAlike, List.cons_append, Item.read, hl]
      exact forall₂_alike_refl _
termination_by ls.length

end

/-- A text comes to the same after a reference in it is written out, if the reference by itself comes to
the same as what is written for it. -/
theorem outcomeWithin_writtenOut {S : Type} [FormulaStore S] {formulas : S}
    (h : WrittenOut reference opening closing body)
    (hbody : ∀ levels, expansion formulas (outcomeWithin formulas limits levels) [] reference.name =
      outcomeWithin formulas limits levels [] (body.flatMap source ++ closing.gap)) (levels : Nat) :
    ReadsAlike reference opening closing body (outcomeWithin formulas limits levels []) := by
  induction levels with
  | zero =>
    intro text written ls more hlex hlex'
    rfl
  | succ levels ih =>
    intro text written ls more hlex hlex'
    have hls : IsLexed (ls ++ reference :: more) := ⟨text, [], hlex⟩
    have hls' : IsLexed (ls ++ opening :: (body ++ closing :: more)) := ⟨written, [], hlex'⟩
    simp only [outcomeWithin, items, hlex, hlex']
    exact outcomeItems_congr (itemsAlike_writtenOut h (hbody levels) ih hls hls') {}

end

/-! ### References by themselves -/

section

variable {S : Type} [FormulaStore S] [LawfulFormulaStore S] {formulas : S} {limits : Limits}
  {name : String} {f : Formula} {x : Expression}

theorem not_reaches_of_derives (found : FormulaStore.find? formulas name = some f)
    (hx : DerivesExpression formulas limits [] (lex f.expression.toList) x []) :
    ¬Reaches formulas f.expression.toList name := by
  intro hreached
  obtain ⟨now, -, hnow⟩ := resolves_of_reaches hx hreached
  exact hnow.not_cyclic (transGen_of_reaches found hreached)

theorem expansion_eq_outcomeWithin (found : FormulaStore.find? formulas name = some f)
    (hx : DerivesExpression formulas limits [] (lex f.expression.toList) x []) (levels : Nat) :
    expansion formulas (outcomeWithin formulas limits levels) [] name =
      outcomeWithin formulas limits levels [] f.expression.toList := by
  have hname : f.name = name := LawfulFormulaStore.name_of_find? formulas found
  have hsame : outcomeWithin formulas limits levels [f.name] f.expression.toList =
      outcomeWithin formulas limits levels [] f.expression.toList := by
    apply outcomeWithin_congr
    · intro other _
      rfl
    · intro other hreached g hg
      have hne : g.name ≠ f.name := by
        intro heq
        rw [← LawfulFormulaStore.name_of_find? formulas hg, heq, hname] at hreached
        exact not_reaches_of_derives found hx hreached
      simp [hne]
  simp only [expansion, found, List.not_mem_nil, ↓reduceIte]
  exact hsame

end

/-! ### Texts written out -/

/-- Whether a name in brackets that stands between two texts is a lexeme of the whole. -/
def StandsBetween (name before after : String) : Prop :=
  ∃ ls l more, lex (before ++ "[" ++ name ++ "]" ++ after).toList = ls ++ l :: more ∧
    ls.flatMap source ++ l.gap = before.toList ∧ l.kind = .formula ∧ l.name = name

theorem head_not_digit {blanks rest : List Char} {c : Char} (h : ∀ b ∈ blanks, isBlank b = true)
    (hc : c.isDigit = false) :
    ∀ d, (blanks ++ c :: rest).head? = some d → d.isDigit = false := by
  intro d hd
  cases blanks with
  | nil =>
    cases hd
    exact hc
  | cons b blanks =>
    cases hd
    exact isDigit_of_isBlank (h _ List.mem_cons_self)

theorem lex_openParen {gap : List Char} (h : ∀ c ∈ gap, isBlank c = true) (rest : List Char) :
    lex (gap ++ '(' :: rest) = ⟨gap, .openParen, '(', []⟩ :: lex rest := by
  apply lex_of_next?
  exact next?_eq_some_iff.2 ⟨by simp [source, text], h, rfl, trivial⟩

theorem lex_closeParen {gap : List Char} (h : ∀ c ∈ gap, isBlank c = true) (rest : List Char) :
    lex (gap ++ ')' :: rest) = ⟨gap, .closeParen, ')', []⟩ :: lex rest := by
  apply lex_of_next?
  exact next?_eq_some_iff.2 ⟨by simp [source, text], h, rfl, trivial⟩

/-- An expression that is put in parentheses keeps its lexemes. Blanks at its end then stand before the
closing parenthesis. -/
theorem lex_parenthesized {text : List Char} (rest : List Char)
    (hclosed : ∀ l ∈ lex text, l.kind ≠ .unclosedBracket) :
    ∃ blanks, text = (lex text).flatMap source ++ blanks ∧
      lex (text ++ ')' :: rest) = lex text ++ ⟨blanks, .closeParen, ')', []⟩ :: lex rest := by
  obtain ⟨blanks, hall, htext⟩ := lex_source text
  have hblanks : ∀ c ∈ blanks, isBlank c = true := List.all_eq_true.1 hall
  have hnil : lex blanks = [] := lex_eq_nil_iff.2 hblanks
  have hlex : lex ((lex text).flatMap source ++ blanks) = lex text ++ lex blanks := by
    rw [htext, hnil, List.append_nil]
  have hdigit : ∀ c, (blanks ++ ')' :: rest).head? = some c → c.isDigit = false :=
    head_not_digit hblanks rfl
  have hafter := lex_append hlex hclosed hdigit
  rw [lex_closeParen hblanks, ← List.append_assoc, htext] at hafter
  exact ⟨blanks, htext.symm, hafter⟩

theorem text_of_formula {l : Lexeme} (matched : l.kind.Matches l.text) (kind : l.kind = .formula) :
    l.text = '[' :: (l.name.toList ++ [']']) := by
  rw [kind] at matched
  obtain ⟨inside, htext, -⟩ := matched
  obtain ⟨hhead, htail⟩ := List.cons.inj htext
  have hname : l.name.toList = inside := by
    simp only [name, htail, List.dropLast_concat, String.toList_ofList]
  rw [htext, hname]

theorem lex_writtenOut {name before after expression : String} (h : StandsBetween name before after)
    (hbalanced : Balanced (lex expression.toList))
    (hclosed : ∀ l ∈ lex expression.toList, l.kind ≠ .unclosedBracket) :
    ∃ ls reference opening closing more, reference.name = name ∧
      WrittenOut reference opening closing (lex expression.toList) ∧
      (lex expression.toList).flatMap source ++ closing.gap = expression.toList ∧
      lex (before ++ "[" ++ name ++ "]" ++ after).toList = ls ++ reference :: more ∧
      lex (before ++ "(" ++ expression ++ ")" ++ after).toList =
        ls ++ opening :: (lex expression.toList ++ closing :: more) := by
  obtain ⟨ls, l, more, hlex, hbefore, kind, hname⟩ := h
  obtain ⟨rest, hrest, hmore⟩ := exists_rest_of_lex hlex
  obtain ⟨later, hnext, hlater⟩ := lex_eq_cons_iff.1 hmore
  obtain ⟨rfl, hgap, matched, -⟩ := next?_eq_some_iff.1 hnext
  -- What comes after the reference is the second text.
  have hafter : later = after.toList := by
    have htext := text_of_formula matched kind
    rw [hname] at htext
    simp only [String.toList_append, ← hbefore, source, htext] at hrest
    simpa using hrest.symm
  subst hafter
  obtain ⟨blanks, hexpression, hclosing⟩ := lex_parenthesized after.toList hclosed
  have hopening : lex (ls.flatMap source ++
      (l.gap ++ '(' :: (expression.toList ++ ')' :: after.toList))) =
      ls ++ lex (l.gap ++ '(' :: (expression.toList ++ ')' :: after.toList)) := by
    rw [hrest, ← hmore] at hlex
    exact lex_append hlex (ne_unclosedBracket (hlex.trans (by rw [hmore])) (List.cons_ne_nil l more))
      (head_not_digit hgap rfl)
  rw [lex_openParen hgap, hclosing, hlater] at hopening
  refine ⟨ls, l, ⟨l.gap, .openParen, '(', []⟩, ⟨blanks, .closeParen, ')', []⟩, more, hname,
    ⟨kind, rfl, rfl, hbalanced⟩, hexpression.symm, hlex, ?_⟩
  rw [← hopening]
  simp [← hbefore]

/-- A reference to a formula may be written out as the expression of the formula in parentheses, if that
can be read by itself: the text is read as the same, or refused for the same reason, and evaluating it
gives the same from every roller and leaves the roller where it left it before. -/
theorem parse_writtenOut {S : Type} [FormulaStore S] [LawfulFormulaStore S] (formulas : S)
    (limits : Limits) {name before after : String} {f : Formula} {p : Postfix}
    (hname : StandsBetween name before after) (found : FormulaStore.find? formulas name = some f)
    (hp : parse formulas limits f.expression = .ok p) :
    parse formulas limits (before ++ "(" ++ f.expression ++ ")" ++ after) =
      parse formulas limits (before ++ "[" ++ name ++ "]" ++ after) ∧
    ∀ (σ : Type) [Roller σ] (roller : σ),
      ((Engine.mk formulas limits roller).evaluate
          (before ++ "(" ++ f.expression ++ ")" ++ after)).result =
        ((Engine.mk formulas limits roller).evaluate
          (before ++ "[" ++ name ++ "]" ++ after)).result ∧
      ((Engine.mk formulas limits roller).evaluate
          (before ++ "(" ++ f.expression ++ ")" ++ after)).engine =
        ((Engine.mk formulas limits roller).evaluate
          (before ++ "[" ++ name ++ "]" ++ after)).engine := by
  rw [parse_eq_outcomeWithin] at hp
  obtain ⟨x, hx, -⟩ := derives_of_outcome hp
  obtain ⟨ls, reference, opening, closing, more, rfl, hwritten, hbody, hlex, hlex'⟩ :=
    lex_writtenOut hname hx.span.balanced hx.span.closed
  have hexpansion := expansion_eq_outcomeWithin found hx
  rw [← hbody] at hexpansion
  have hparse : parse formulas limits (before ++ "(" ++ f.expression ++ ")" ++ after) =
      parse formulas limits (before ++ "[" ++ reference.name ++ "]" ++ after) := by
    rw [parse_eq_outcomeWithin, parse_eq_outcomeWithin]
    exact (outcomeWithin_writtenOut hwritten hexpansion _ _ _ ls more hlex hlex').symm
  exact ⟨hparse, fun σ _ roller => evaluate_congr hparse⟩

theorem parse_writtenOut_inGroup :
    StandsBetween "two" "-(1+" ")" ∧
      FormulaStore.find? (Formulas.empty.insert ⟨"two", "2d6 "⟩) "two" = some ⟨"two", "2d6 "⟩ ∧
      parse (Formulas.empty.insert ⟨"two", "2d6 "⟩) {} "2d6 " =
        .ok (.single (.dice (.literal 2) 6 .all)) ∧
      parse (Formulas.empty.insert ⟨"two", "2d6 "⟩) {} ("-(1+" ++ "(" ++ "2d6 " ++ ")" ++ ")") =
        parse (Formulas.empty.insert ⟨"two", "2d6 "⟩) {} ("-(1+" ++ "[" ++ "two" ++ "]" ++ ")") := by
  have hname : StandsBetween "two" "-(1+" ")" := by
    refine ⟨[⟨[], .operator .sub, '-', []⟩, ⟨[], .openParen, '(', []⟩, ⟨[], .integer, '1', []⟩,
      ⟨[], .operator .add, '+', []⟩], ⟨[], .formula, '[', ['t', 'w', 'o', ']']⟩,
      [⟨[], .closeParen, ')', []⟩], ?_, ?_, rfl, ?_⟩ <;> decide +kernel
  generalize hformulas : Formulas.empty.insert ⟨"two", "2d6 "⟩ = formulas
  have found : FormulaStore.find? formulas "two" = some ⟨"two", "2d6 "⟩ := by
    rw [← hformulas]
    exact (Formulas.find?_insert _ _ _).trans (if_pos rfl)
  have hp : parse formulas {} "2d6 " = .ok (.single (.dice (.literal 2) 6 .all)) := by
    rw [← hformulas]
    decide +kernel
  exact ⟨hname, found, hp, (parse_writtenOut formulas {} hname found hp).1⟩

end DiceExpr
