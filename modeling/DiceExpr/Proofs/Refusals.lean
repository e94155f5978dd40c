import DiceExpr.Proofs.Comparison
import DiceExpr.Proofs.Reading
import DiceExpr.Proofs.Subtokens

/-!
# Reading under smaller limits

What is read under some limits is read as the same under larger ones. Under smaller ones it is still read
if its sequence fits them, and otherwise it is refused for one of the bounds that were lowered.

Nesting is watched in two places: the level of a body before the body is read, and the depth of each die
and group once it is made. Together they refuse a sequence just when it nests too deep.

## Main statements

* `outcomeWithin_refines`: smaller limits give the same result or a refusal that the larger ones spare.
* `Postfix.Fits`, `parse_of_fits`: a sequence that fits smaller limits is read under them.
* `parse_limits_exact`: the statement for whole texts.
-/

namespace DiceExpr

/-- Limits that allow nothing that others forbid. -/
structure Limits.Within (small large : Limits) : Prop where
  dice : small.maxDice ≤ large.maxDice
  sides : small.maxSides ≤ large.maxSides
  depth : small.maxDepth ≤ large.maxDepth

/-- The refusals that one of two limits makes and the other spares. -/
inductive Limits.Separates (small large : Limits) : ParseError → Prop
  | dice {n : Nat} (h : small.maxDice < n) (h' : n ≤ large.maxDice) :
      Separates small large (.tooManyDice n)
  | sides {n : Nat} (h : small.maxSides < n) (h' : n ≤ large.maxSides) :
      Separates small large (.tooManySides n)
  | depth (h : small.maxDepth < large.maxDepth) : Separates small large (.tooDeep small.maxDepth)

section

variable {small large : Limits}

/-! ### Dice -/

namespace Item

theorem readKeepCount_refines (h : small.Within large) (ls : List Lexeme) :
    Refines (small.Separates large) (readKeepCount small ls) (readKeepCount large ls) := by
  cases ls with
  | nil => exact .refl _
  | cons l ls =>
    simp only [readKeepCount]
    split
    · exact .atMost h.dice (.refl _) .dice
    · exact .refl _

theorem readKeep_refines (h : small.Within large) (ls : List Lexeme) :
    Refines (small.Separates large) (readKeep small ls) (readKeep large ls) := by
  cases ls with
  | nil => exact .refl _
  | cons l ls =>
    have hcount := readKeepCount_refines h ls
    simp only [readKeep]
    split
    · split
      · exact hcount.map _
      · exact hcount.map _
      · exact .refl _
      · exact .refl _
    · exact .refl _

theorem readDie_refines (h : small.Within large) (ls : List Lexeme) :
    Refines (small.Separates large) (readDie small ls) (readDie large ls) := by
  cases ls with
  | nil => exact .refl _
  | cons l ls =>
    simp only [readDie]
    split
    · exact .atMost h.sides ((readKeep_refines h ls).map _) .sides
    · exact .refl _

theorem lead_of_read_die {l : Lexeme} (hl : l.kind = .die) (limits : Limits)
    (ls : List Lexeme) :
    ∃ item rest, read limits (l :: ls) = item :: rest ∧ item.lead = .die := by
  rw [read_die hl]
  cases readDie limits ls with
  | ok r => exact ⟨_, _, rfl, rfl⟩
  | error e => exact ⟨_, _, rfl, rfl⟩

end Item

/-! ### Items -/

section

variable {kind : ParseError → Prop} {read read' : List Char → Except ParseError Postfix}
  {expand expand' : String → Except ParseError Postfix}

theorem Item.read_refined (h : small.Within large) (hkind : ∀ e, small.Separates large e → kind e)
    (hread : ∀ text, Refines kind (read text) (read' text))
    (hexpand : ∀ name, Refines kind (expand name) (expand' name)) (ls : List Lexeme) :
    ItemsRefined kind read read' expand expand' (Item.read small ls) (Item.read large ls) := by
  match ls with
  | [] =>
    rw [Item.read, Item.read]
    exact .nil
  | l :: ls =>
    cases hl : l.kind with
    | operator op =>
      simp only [Item.read, hl]
      exact .cons (.same rfl) (Item.read_refined h hkind hread hexpand ls)
    | integer =>
      simp only [Item.read, hl]
      exact .cons (.same rfl) (Item.read_refined h hkind hread hexpand ls)
    | formula =>
      simp only [Item.read, hl]
      exact .cons (.body rfl rfl (hexpand _)) (Item.read_refined h hkind hread hexpand ls)
    | die =>
      rcases readDie_refines h ls with hsame | ⟨e, he, hseparates⟩
      · rw [read_die hl, read_die hl, ← hsame]
        cases hdie : readDie small ls with
        | error e => exact .cons (.same rfl) .nil
        | ok r =>
          obtain ⟨sides, keep, rest⟩ := r
          have hlt := length_lt_of_readDie hdie
          exact .cons (.same rfl) (Item.read_refined h hkind hread hexpand rest)
      · obtain ⟨item, rest, hitems, hlead⟩ := Item.lead_of_read_die hl large ls
        rw [hitems, read_die hl, he]
        exact .stops (hkind e hseparates) hlead
    | openParen =>
      rw [read_openParen hl, read_openParen hl]
      cases hgroup : readGroup 0 ls with
      | none => exact .cons (.same rfl) .nil
      | some r =>
        obtain ⟨body, rest⟩ := r
        have hlt := length_lt_of_readGroup hgroup
        exact .cons (.body rfl rfl (hread _)) (Item.read_refined h hkind hread hexpand rest)
    | closeParen | unclosedBracket | highest | lowest | unknown =>
      simp only [Item.read, hl]
      exact .cons (.same rfl) .nil
termination_by ls.length

end

/-! ### Texts -/

section

variable {S : Type} [FormulaStore S] {formulas : S} {kind : ParseError → Prop}

theorem pushNested_refines (h : small.Within large) (hkind : ∀ e, small.Separates large e → kind e)
    (c : Conversion) (t : Token) : Refines kind (c.pushNested small t) (c.pushNested large t) := by
  have hle := h.depth
  simp only [Conversion.pushNested]
  by_cases hsmall : t.depth ≤ small.maxDepth
  · have hlarge : t.depth ≤ large.maxDepth := by omega
    rw [if_pos hsmall, if_pos hlarge]
    exact .refl _
  · rw [if_neg hsmall]
    by_cases heq : small.maxDepth = large.maxDepth
    · rw [heq] at hsmall ⊢
      rw [if_neg hsmall]
      exact .refl _
    · exact .of_error (hkind _ (.depth (by omega)))

variable (formulas) in
theorem expansion_refines {read read' : List String → List Char → Except ParseError Postfix}
    (h : ∀ active text, Refines kind (read active text) (read' active text)) (active : List String)
    (name : String) : Refines kind (expansion formulas read active name)
      (expansion formulas read' active name) := by
  unfold expansion
  split
  · exact .refl _
  · split
    · exact .refl _
    · exact h _ _

variable (formulas) in
/-- With smaller limits, and with fewer levels where that may be an error of the kind, a text comes to the
same or to an error of the kind. -/
theorem outcomeWithin_refines (h : small.Within large)
    (hkind : ∀ e, small.Separates large e → kind e) {levels levels' : Nat} (hle : levels ≤ levels')
    (hlevels : levels < levels' → kind (.tooDeep small.maxDepth)) (active : List String)
    (text : List Char) :
    Refines kind (outcomeWithin formulas small levels active text)
      (outcomeWithin formulas large levels' active text) := by
  induction levels generalizing levels' active text with
  | zero =>
    have hdepth := h.depth
    cases levels' with
    | succ levels' => exact .of_error (hlevels (by omega))
    | zero =>
      by_cases heq : small.maxDepth = large.maxDepth
      · simp only [outcomeWithin, heq]
        exact .refl _
      · exact .of_error (hkind _ (.depth (by omega)))
  | succ levels ih =>
    obtain ⟨levels', rfl⟩ : ∃ n, levels' = n + 1 := ⟨levels' - 1, by omega⟩
    have hbodies (active : List String) (text : List Char) :
        Refines kind (outcomeWithin formulas small levels active text)
          (outcomeWithin formulas large levels' active text) :=
      ih (by omega) (fun hlt => hlevels (by omega)) active text
    have hitems := Item.read_refined h hkind (hbodies active)
      (expansion_refines formulas hbodies active) (lex text)
    exact outcomeItems_refines (pushNested_refines h hkind) hitems {}

theorem parse_refines (formulas : S) (h : small.Within large) (text : String) :
    Refines (small.Separates large) (parse formulas small text) (parse formulas large text) := by
  have hdepth := h.depth
  rw [parse_eq_outcomeWithin, parse_eq_outcomeWithin]
  refine outcomeWithin_refines formulas h (fun _ => id) (by omega) (fun hlt => ?_) [] text.toList
  exact .depth (by omega)

end

end

/-! ### Sequences that fit -/

mutual

theorem Expression.mem_diceWithin_toPostfix (x : Expression) {d : Int × Keep} :
    d ∈ x.toPostfix.diceWithin ↔ d ∈ x.dice := by
  cases x with
  | operand y => exact y.mem_diceWithin_toPostfix
  | binary left op right =>
    simp [Expression.toPostfix, Expression.dice, left.mem_diceWithin_toPostfix,
      right.mem_diceWithin_toPostfix]

theorem Operand.mem_diceWithin_toPostfix (y : Operand) {d : Int × Keep} :
    d ∈ y.toPostfix.diceWithin ↔ d ∈ y.dice := by
  cases y with
  | first negated p =>
    rcases p.integer_or_isCounted with ⟨n, rfl⟩ | hp
    · simp [Operand.toPostfix, Operand.dice, Part.dice, Postfix.literal]
    · rw [Operand.toPostfix_first hp, Postfix.diceWithin_single, p.mem_diceWithin_token hp]
      simp [Operand.dice, Postfix.literal]
  | more before p =>
    have hbefore := before.mem_diceWithin_toPostfix (d := d)
    rcases p.integer_or_isCounted with ⟨n, rfl⟩ | hp
    · simp [Operand.toPostfix, Operand.dice, Part.dice, Postfix.literal, hbefore]
    · obtain ⟨ts, t, hlast, hmap⟩ :=
        before.toPostfix.exists_toList_mapLast fun count => p.token (.single count)
      rw [← Operand.toPostfix_more hp] at hmap
      rw [Postfix.mem_diceWithin_iff, hlast] at hbefore
      rw [Postfix.mem_diceWithin_iff, hmap]
      simp only [List.mem_append, List.mem_singleton, or_and_right, exists_or, exists_eq_left,
        p.mem_diceWithin_token hp, Postfix.diceWithin_single] at hbefore ⊢
      rw [← or_assoc, hbefore]
      simp only [Operand.dice, List.mem_append]

theorem Part.mem_diceWithin_token (p : Part) (hp : p.IsCounted) {count : Postfix} {d : Int × Keep} :
    d ∈ (p.token count).diceWithin ↔ d ∈ count.diceWithin ∨ d ∈ p.dice := by
  cases p with
  | integer n => exact absurd rfl (hp n)
  | die sides keep => simp [Part.token, Part.dice, or_comm]
  | group body => simp [Part.token, Part.dice, body.mem_diceWithin_toPostfix]
  | reference name body => simp [Part.token, Part.dice, body.mem_diceWithin_toPostfix]

end

/-- A sequence that asks for no more than some limits allow. -/
structure Postfix.Fits (p : Postfix) (limits : Limits) : Prop where
  depth : p.depth ≤ limits.maxDepth
  sides : ∀ d ∈ p.diceWithin, d.1 ≤ limits.maxSides
  keep : ∀ d ∈ p.diceWithin, ∀ n, d.2 = .highest n ∨ d.2 = .lowest n → n ≤ limits.maxDice

section

variable {S : Type} [FormulaStore S] {formulas : S} {limits limits' : Limits} {text : String}
  {p : Postfix}

theorem exists_derivation (h : parse formulas limits text = .ok p) :
    ∃ x, DerivesExpression formulas limits [] (lex text.toList) x [] ∧ x.toPostfix = p := by
  rw [parse_eq_outcomeWithin] at h
  obtain ⟨x, hx, hsame, -⟩ := derives_of_outcome h
  exact ⟨x, hx, hsame⟩

theorem depth_le_of_parse (h : parse formulas limits text = .ok p) : p.depth ≤ limits.maxDepth := by
  rw [parse_eq_outcomeWithin] at h
  obtain ⟨x, -, rfl, hdepth⟩ := derives_of_outcome h
  exact hdepth

theorem sides_le_of_parse (h : parse formulas limits text = .ok p) :
    ∀ d ∈ p.diceWithin, d.1 ≤ limits.maxSides := by
  obtain ⟨x, hx, rfl⟩ := exists_derivation h
  intro d hd
  exact x.sides_le hx d (x.mem_diceWithin_toPostfix.1 hd)

theorem parse_of_allowed (h : parse formulas limits text = .ok p) (hdepth : p.depth ≤ limits'.maxDepth)
    (hdice : ∀ d ∈ p.diceWithin, AllowedToo limits limits' d) :
    parse formulas limits' text = .ok p := by
  obtain ⟨x, hx, rfl⟩ := exists_derivation h
  have hallowed : ∀ d ∈ x.dice, AllowedToo limits limits' d := by
    intro d hd
    exact hdice d (x.mem_diceWithin_toPostfix.2 hd)
  rw [parse_eq_outcomeWithin]
  exact outcome_of_derives (x.derives_of_allowed hx hallowed) hdepth hdepth

theorem parse_of_fits (h : parse formulas limits text = .ok p) (hfits : p.Fits limits') :
    parse formulas limits' text = .ok p := by
  apply parse_of_allowed h hfits.depth
  intro d hd
  exact ⟨fun _ => hfits.sides d hd, fun hkeep => hkeep.of_le fun n hn _ => hfits.keep d hd n hn⟩

/-- Of the sequences that limits allow, others with a lower depth alone refuse those that nest deeper. -/
theorem parse_eq_of_depth {small large : Limits} (h : small.Within large)
    (hdice : small.maxDice = large.maxDice) (hsides : small.maxSides = large.maxSides)
    (hp : parse formulas large text = .ok p) :
    parse formulas small text =
      if p.depth ≤ small.maxDepth then .ok p else .error (.tooDeep small.maxDepth) := by
  split
  · next hdepth =>
    apply parse_of_allowed hp hdepth
    intro d _
    refine ⟨fun hd => hsides ▸ hd, fun hkeep => hkeep.of_le fun n _ hn => ?_⟩
    omega
  · next hdepth =>
    rcases parse_refines formulas h text with hsame | ⟨e, he, hseparates⟩
    · exact absurd (depth_le_of_parse (hsame.trans hp)) hdepth
    · cases hseparates with
      | dice hn hn' => omega
      | sides hn hn' => omega
      | depth => exact he

end

/-- What is read under limits is read as the same under larger ones. The other way round it may be refused
for its nesting, for a die or for a keep rule. It is not refused if it fits the smaller limits, and it is
refused if it nests too deep for them or has a die with too many faces. If only the depth is lowered, it
is refused just when it nests too deep. -/
theorem parse_limits_exact {S : Type} [FormulaStore S] (formulas : S) {small large : Limits}
    (h : small.Within large) (text : String) (p : Postfix) :
    (parse formulas small text = .ok p → parse formulas large text = .ok p) ∧
    (parse formulas large text = .ok p →
      (parse formulas small text = .ok p ∨
        parse formulas small text = .error (.tooDeep small.maxDepth) ∨
        (∃ n, small.maxSides < n ∧ parse formulas small text = .error (.tooManySides n)) ∨
        ∃ n, small.maxDice < n ∧ parse formulas small text = .error (.tooManyDice n)) ∧
      (p.Fits small → parse formulas small text = .ok p) ∧
      (small.maxDepth < p.depth ∨ (∃ d ∈ p.diceWithin, small.maxSides < d.1) →
        ∃ e, parse formulas small text = .error e) ∧
      (small.maxDice = large.maxDice → small.maxSides = large.maxSides →
        parse formulas small text =
          if p.depth ≤ small.maxDepth then .ok p else .error (.tooDeep small.maxDepth))) := by
  have hrefines := parse_refines formulas h text
  constructor
  · intro hp
    rw [hp] at hrefines
    exact hrefines.eq_ok
  · intro hp
    refine ⟨?_, parse_of_fits hp, ?_, fun hdice hsides => parse_eq_of_depth h hdice hsides hp⟩
    · rcases hrefines with hsame | ⟨e, he, hseparates⟩
      · exact .inl (hsame.trans hp)
      · cases hseparates with
        | depth => exact .inr (.inl he)
        | sides hn => exact .inr (.inr (.inl ⟨_, hn, he⟩))
        | dice hn => exact .inr (.inr (.inr ⟨_, hn, he⟩))
    · intro hexceeds
      rcases hrefines with hsame | ⟨e, he, -⟩
      · have hsmall := hsame.trans hp
        rcases hexceeds with hdepth | ⟨d, hd, hsides⟩
        · exact absurd (depth_le_of_parse hsmall) (by omega)
        · exact absurd (sides_le_of_parse hsmall d hd) (by omega)
      · exact ⟨e, he⟩

/-- Chained dice nest as deep as groups do. -/
theorem parse_limits_exact_chained :
    Limits.Within { maxDepth := 1 } {} ∧
      parse Formulas.empty {} "2d6d8" =
        .ok (.single (.dice (.single (.dice (.literal 2) 6 .all)) 8 .all)) ∧
      parse Formulas.empty { maxDepth := 1 } "2d6d8" = .error (.tooDeep 1) := by
  have hwithin : Limits.Within { maxDepth := 1 } {} := ⟨by decide, by decide, by decide⟩
  have hread : parse Formulas.empty {} "2d6d8" =
      .ok (.single (.dice (.single (.dice (.literal 2) 6 .all)) 8 .all)) := by decide +kernel
  exact ⟨hwithin, hread, ((parse_limits_exact _ hwithin _ _).2 hread).2.2.2 rfl rfl⟩

end DiceExpr
