import DiceExpr.Proofs.Refusals
import DiceExpr.Proofs.Rendering
import DiceExpr.Proofs.Repetition

/-!
# Written forms as texts

The written form of a sequence without operators is a text that is read as this sequence. It is the text
of an expression in which each die and each group has its count, each keep rule its number, and groups
stand in the place of references, so it is read as the same whatever formulas there are.

## Main definitions

* `Expression.spelledOut`: that expression.

## Main statements

* `Expression.toPostfix_spelledOut`: it has the same sequence.
* `Expression.derives_spelledOut`: its lexemes are those of the written form.
* `parse_render`: the statement for whole texts.
-/

namespace DiceExpr

open Lexeme

/-! ### Expressions spelled out -/

/-- A number as an operand. A minus before zero is left out. -/
def Operand.number (negated : Bool) (n : Nat) : Operand := .first (negated && n != 0) (.integer n)

mutual

/-- An expression with all counts given, and with groups in the place of references. -/
def Expression.spelledOut : Expression → Expression
  | .operand y => .operand y.spelledOut
  | .binary left op right => .binary left.spelledOut op right.spelledOut

def Operand.spelledOut : Operand → Operand
  | .first negated (.integer n) => .number negated n
  | .first negated p => .more (.number negated 1) p.spelledOut
  | .more before p => .more before.spelledOut p.spelledOut

def Part.spelledOut : Part → Part
  | .integer n => .integer n
  | .die sides keep => .die sides keep
  | .group body => .group body.spelledOut
  | .reference _ body => .group body.spelledOut

end

theorem Operand.toPostfix_number (negated : Bool) (n : Nat) :
    (number negated n).toPostfix = .literal (if negated then -n else n) := by
  cases negated with
  | false => rfl
  | true =>
    cases n with
    | zero => rfl
    | succ n => rfl

theorem Part.IsCounted.spelledOut {p : Part} (hp : p.IsCounted) : p.spelledOut.IsCounted := by
  cases p with
  | integer n => exact absurd rfl (hp n)
  | die sides keep => exact nofun
  | group body => exact nofun
  | reference name body => exact nofun

theorem Operand.spelledOut_first {p : Part} (hp : p.IsCounted) (negated : Bool) :
    (Operand.first negated p).spelledOut = .more (.number negated 1) p.spelledOut := by
  cases p with
  | integer n => exact absurd rfl (hp n)
  | _ => rfl

mutual

theorem Expression.toPostfix_spelledOut (x : Expression) : x.spelledOut.toPostfix = x.toPostfix := by
  cases x with
  | operand y => exact y.toPostfix_spelledOut
  | binary left op right =>
    simp only [Expression.spelledOut, Expression.toPostfix, left.toPostfix_spelledOut,
      right.toPostfix_spelledOut]

theorem Operand.toPostfix_spelledOut (y : Operand) : y.spelledOut.toPostfix = y.toPostfix := by
  cases y with
  | first negated p =>
    rcases p.integer_or_isCounted with ⟨n, rfl⟩ | hp
    · exact Operand.toPostfix_number negated n
    · rw [Operand.spelledOut_first hp, Operand.toPostfix_more hp.spelledOut, Operand.toPostfix_number,
        Operand.toPostfix_first hp]
      exact congrArg Postfix.single (p.token_spelledOut _)
  | more before p =>
    have hbefore := before.toPostfix_spelledOut
    have htoken := p.token_spelledOut
    rcases p.integer_or_isCounted with ⟨n, rfl⟩ | hp
    · simp only [Operand.spelledOut, Part.spelledOut, Operand.toPostfix, hbefore]
    · rw [Operand.spelledOut, Operand.toPostfix_more hp.spelledOut, Operand.toPostfix_more hp, hbefore]
      simp only [htoken]

theorem Part.token_spelledOut (p : Part) (count : Postfix) :
    p.spelledOut.token count = p.token count := by
  cases p with
  | integer n => rfl
  | die sides keep => rfl
  | group body => exact congrArg (Token.group count) body.toPostfix_spelledOut
  | reference name body => exact congrArg (Token.group count) body.toPostfix_spelledOut

end

/-! ### What a part adds to a written form -/

/-- What a part adds to the written form of the operand before it. -/
def Part.suffix : Part → List Char
  | .integer n => ' ' :: (toString (n : Int)).toList
  | .die sides keep => 'd' :: ((toString (sides : Int)).toList ++ keep.render.toList)
  | .group body => '(' :: (body.toPostfix.render.toList ++ [')'])
  | .reference _ body => '(' :: (body.toPostfix.render.toList ++ [')'])

theorem Part.toList_render_token {p : Part} (hp : p.IsCounted) (count : Postfix) :
    (p.token count).render.toList = count.render.toList ++ p.suffix := by
  cases p with
  | integer n => exact absurd rfl (hp n)
  | die sides keep => exact toList_render_dice
  | group body => exact toList_render_group
  | reference name body => exact toList_render_group

theorem toList_render_mapLast {f : Token → Token} {suffix : List Char}
    (hf : ∀ t, (f t).render.toList = t.render.toList ++ suffix) (p : Postfix) :
    (p.mapLast f).render.toList = p.render.toList ++ suffix := by
  match p with
  | .single t => exact hf t
  | .cons t p => simp [Postfix.mapLast, toList_render_mapLast hf p]

theorem Operand.toList_render_first {p : Part} (hp : p.IsCounted) (negated : Bool) :
    (Operand.first negated p).toPostfix.render.toList =
      (Operand.number negated 1).toPostfix.render.toList ++ p.suffix := by
  rw [Operand.toPostfix_first hp, Operand.toPostfix_number]
  exact Part.toList_render_token hp _

theorem Operand.toList_render_more (before : Operand) (p : Part) :
    (Operand.more before p).toPostfix.render.toList =
      before.toPostfix.render.toList ++ p.suffix := by
  rcases p.integer_or_isCounted with ⟨n, rfl⟩ | hp
  · exact toList_render_append _ _
  · rw [Operand.toPostfix_more hp]
    exact toList_render_mapLast (fun t => Part.toList_render_token hp _) _

/-! ### Lexemes of a written form -/

/-- A text that may follow an operand in a written form. -/
def FollowsOperand (rest : List Char) : Prop := ∀ c, rest.head? = some c → c ∈ [' ', 'd', '(', ')']

theorem FollowsOperand.not_digit {rest : List Char} (h : FollowsOperand rest) :
    ∀ c, rest.head? = some c → c.isDigit = false := by
  intro c hc
  have hmem := h c hc
  simp only [List.mem_cons, List.not_mem_nil, or_false] at hmem
  rcases hmem with rfl | rfl | rfl | rfl <;> rfl

theorem followsOperand_suffix (p : Part) (rest : List Char) : FollowsOperand (p.suffix ++ rest) := by
  intro c hc
  cases p <;> cases hc <;> decide

theorem lex_letter (kind : Kind) (c : Char) (matched : kind.Matches [c]) {rest : List Char}
    (ends : kind.Ends rest) : lex (c :: rest) = ⟨[], kind, c, []⟩ :: lex rest :=
  lex_of_next? (next?_eq_some_iff.2 ⟨rfl, List.forall_mem_nil _, matched, ends⟩)

theorem lex_die (rest : List Char) : lex ('d' :: rest) = ⟨[], .die, 'd', []⟩ :: lex rest :=
  lex_letter .die 'd' (.inl rfl) trivial

theorem lex_highest (rest : List Char) : lex ('h' :: rest) = ⟨[], .highest, 'h', []⟩ :: lex rest :=
  lex_letter .highest 'h' (.inl rfl) trivial

theorem lex_lowest (rest : List Char) : lex ('l' :: rest) = ⟨[], .lowest, 'l', []⟩ :: lex rest :=
  lex_letter .lowest 'l' (.inl rfl) trivial

/-- No keep letter touches what is written before the next part. -/
theorem FollowsOperand.not_keep {rest : List Char} (h : FollowsOperand rest) {l : Lexeme}
    (hl : (lex rest).head? = some l) (hadjacent : l.isAdjacent = true) :
    l.kind ≠ .highest ∧ l.kind ≠ .lowest := by
  obtain ⟨ls, hlex⟩ := List.head?_eq_some_iff.1 hl
  obtain ⟨after, hnext, -⟩ := lex_eq_cons_iff.1 hlex
  obtain ⟨rfl, -, matched, -⟩ := next?_eq_some_iff.1 hnext
  have hhead : l.head ∈ [' ', 'd', '(', ')'] := by
    apply h
    rw [source, List.isEmpty_iff.1 hadjacent]
    rfl
  constructor
  · intro hkind
    rw [hkind] at matched
    rcases matched with htext | htext <;> simp [(List.cons.inj htext).1] at hhead
  · intro hkind
    rw [hkind] at matched
    rcases matched with htext | htext <;> simp [(List.cons.inj htext).1] at hhead

/-! ### Derivations -/

section

variable {S T : Type} [FormulaStore S] [FormulaStore T] {formulas : S} {others : T} {limits : Limits}
  {active : List String} {rest : List Char}

theorem derives_number (negated : Bool) (n : Nat) (hrest : FollowsOperand rest) :
    DerivesOperand others limits []
      (lex ((Operand.number negated n).toPostfix.render.toList ++ rest)) (.number negated n)
      (lex rest) := by
  have hpart : DerivesPart others limits [] (lex ((toString n).toList ++ rest)) (.integer n)
      (lex rest) := by
    obtain ⟨l, -, kind, rfl, hlex⟩ := lex_number (List.forall_mem_nil _) n hrest.not_digit
    rw [List.nil_append] at hlex
    rw [hlex]
    exact .integer kind
  rw [Operand.toPostfix_number]
  cases negated with
  | false => exact .first hpart
  | true =>
    cases n with
    | zero => exact .first hpart
    | succ n =>
      have htext : (Postfix.literal (-(n + 1 : Nat))).render.toList =
          '-' :: (toString (n + 1)).toList := String.toList_append
      have hminus : lex ('-' :: ((toString (n + 1)).toList ++ rest)) =
          ⟨[], .operator .sub, '-', []⟩ :: lex ((toString (n + 1)).toList ++ rest) :=
        lex_operator (List.forall_mem_nil _) .sub _
      simp only [↓reduceIte]
      rw [htext, List.cons_append, hminus]
      exact .negated rfl hpart

theorem DerivesCount.le {ls more : List Lexeme} {n : Nat} (hdice : 1 ≤ limits.maxDice)
    (h : DerivesCount limits ls n more) : n ≤ limits.maxDice := by
  cases h with
  | one => exact hdice
  | given _ _ le => exact le

theorem derives_count {n : Nat} (hn : n ≤ limits.maxDice) (hrest : FollowsOperand rest) :
    DerivesCount limits (lex ((toString (n : Int)).toList ++ rest)) n (lex rest) := by
  obtain ⟨l, hgap, kind, rfl, hlex⟩ := lex_number (List.forall_mem_nil _) n hrest.not_digit
  rw [List.nil_append] at hlex
  have hcount : DerivesCount limits (l :: lex rest) l.value (lex rest) :=
    .given (List.isEmpty_iff.2 hgap) kind hn
  rw [← hlex] at hcount
  exact hcount

theorem derives_keep {ls more : List Lexeme} {keep : Keep} (hdice : 1 ≤ limits.maxDice)
    (h : DerivesKeep limits ls keep more) (hrest : FollowsOperand rest) :
    DerivesKeep limits (lex (keep.render.toList ++ rest)) keep (lex rest) := by
  cases h with
  | all => exact .all fun l hl hadjacent => hrest.not_keep hl hadjacent
  | highest _ _ count =>
    rw [toList_render_highest, List.cons_append, lex_highest]
    exact .highest rfl rfl (derives_count (count.le hdice) hrest)
  | lowest _ _ count =>
    rw [toList_render_lowest, List.cons_append, lex_lowest]
    exact .lowest rfl rfl (derives_count (count.le hdice) hrest)

theorem head_keep (keep : Keep) (hrest : FollowsOperand rest) :
    ∀ c, (keep.render.toList ++ rest).head? = some c → c.isDigit = false := by
  intro c hc
  cases keep with
  | all => exact hrest.not_digit c hc
  | highest n =>
    rw [toList_render_highest] at hc
    cases hc
    rfl
  | lowest n =>
    rw [toList_render_lowest] at hc
    cases hc
    rfl

theorem derives_die {sides : Nat} {keep : Keep} {ls more : List Lexeme} (hdice : 1 ≤ limits.maxDice)
    (hsides : sides ≤ limits.maxSides) (hkeep : DerivesKeep limits ls keep more)
    (hrest : FollowsOperand rest) :
    DerivesPart others limits [] (lex ((Part.die sides keep).suffix ++ rest)) (.die sides keep)
      (lex rest) := by
  obtain ⟨l, hgap, kind, rfl, hlex⟩ :=
    lex_number (List.forall_mem_nil _) sides (head_keep keep hrest)
  rw [List.nil_append] at hlex
  have hdie : lex ((Part.die l.value keep).suffix ++ rest) =
      ⟨[], .die, 'd', []⟩ :: l :: lex (keep.render.toList ++ rest) := by
    rw [← hlex, ← lex_die, Part.suffix, List.cons_append, List.append_assoc]
    rfl
  rw [hdie]
  exact .die rfl (List.isEmpty_iff.2 hgap) kind hsides (derives_keep hdice hkeep hrest)

theorem derives_integer (n : Nat) (hrest : FollowsOperand rest) :
    DerivesPart others limits [] (lex ((Part.integer n).suffix ++ rest)) (.integer n) (lex rest) := by
  have hspace : ∀ c ∈ [' '], isBlank c = true := List.forall_mem_singleton.2 rfl
  obtain ⟨l, -, kind, rfl, hlex⟩ := lex_number hspace n hrest.not_digit
  have hpart : DerivesPart others limits [] (l :: lex rest) (.integer l.value) (lex rest) :=
    .integer kind
  rw [← hlex] at hpart
  exact hpart

/-- The tokens in the body of a part. -/
def Part.inside : Part → List Token
  | .integer _ => []
  | .die _ _ => []
  | .group body => body.toPostfix.subtokens
  | .reference _ body => body.toPostfix.subtokens

theorem Part.mem_subtokens_token {p : Part} (hp : p.IsCounted) {count : Postfix} {u : Token}
    (h : u ∈ count.subtokens ∨ u ∈ p.inside) : u ∈ (p.token count).subtokens := by
  cases p with
  | integer n => exact absurd rfl (hp n)
  | die sides keep =>
    have hcount : u ∈ count.subtokens := h.resolve_right List.not_mem_nil
    exact List.mem_cons_of_mem _ hcount
  | group body => exact List.mem_cons_of_mem _ (List.mem_append.2 h)
  | reference name body => exact List.mem_cons_of_mem _ (List.mem_append.2 h)

theorem Operand.mem_subtokens_first {negated : Bool} {p : Part} {u : Token} (h : u ∈ p.inside) :
    u ∈ (Operand.first negated p).toPostfix.subtokens := by
  rcases p.integer_or_isCounted with ⟨n, rfl⟩ | hp
  · exact absurd h List.not_mem_nil
  · rw [Operand.toPostfix_first hp]
    exact Part.mem_subtokens_token hp (.inr h)

theorem Operand.mem_subtokens_more {before : Operand} {p : Part} {u : Token}
    (h : u ∈ before.toPostfix.subtokens ∨ u ∈ p.inside) :
    u ∈ (Operand.more before p).toPostfix.subtokens := by
  rw [Postfix.mem_subtokens_iff] at h ⊢
  rcases p.integer_or_isCounted with ⟨n, rfl⟩ | hp
  · obtain ⟨t, ht, hu⟩ := h.resolve_right List.not_mem_nil
    rw [Operand.toPostfix, Postfix.toList_append]
    exact ⟨t, List.mem_append_left _ ht, hu⟩
  · obtain ⟨ts, t, hlast, hmap⟩ :=
      before.toPostfix.exists_toList_mapLast fun count => p.token (.single count)
    rw [Operand.toPostfix_more hp, hmap]
    rw [hlast] at h
    have hmem : u ∈ (p.token (.single t)).subtokens ∨ ∃ t' ∈ ts, u ∈ t'.subtokens := by
      rcases h with ⟨t', ht', hu⟩ | hu
      · rcases List.mem_append.1 ht' with ht' | ht'
        · exact .inr ⟨t', ht', hu⟩
        · rw [List.mem_singleton.1 ht'] at hu
          exact .inl (Part.mem_subtokens_token hp (.inl hu))
      · exact .inl (Part.mem_subtokens_token hp (.inr hu))
    rcases hmem with hu | ⟨t', ht', hu⟩
    · exact ⟨_, List.mem_append_right _ List.mem_cons_self, hu⟩
    · exact ⟨t', List.mem_append_left _ ht', hu⟩

mutual

theorem Expression.derives_spelledOut (x : Expression) {active : List String} {ls more : List Lexeme}
    (hdice : 1 ≤ limits.maxDice) (h : DerivesExpression formulas limits active ls x more)
    (hplain : ∀ u ∈ x.toPostfix.subtokens, u.isOperator = false) :
    DerivesExpression others limits [] (lex x.toPostfix.render.toList) x.spelledOut [] := by
  cases x with
  | operand y =>
    cases h with
    | operand hy =>
      have hend : FollowsOperand [] := nofun
      have hread := y.derives_spelledOut hdice hy hplain hend
      rw [List.append_nil, lex_nil] at hread
      exact .operand hread
  | binary left op right =>
    have hop : Token.operator op ∈ (Expression.binary left op right).toPostfix.subtokens := by
      rw [Postfix.mem_subtokens_iff]
      exact ⟨.operator op, by simp [Expression.toPostfix, Postfix.toList], List.mem_cons_self⟩
    cases hplain _ hop

theorem Operand.derives_spelledOut (y : Operand) {active : List String} {ls more : List Lexeme}
    {rest : List Char} (hdice : 1 ≤ limits.maxDice)
    (h : DerivesOperand formulas limits active ls y more)
    (hplain : ∀ u ∈ y.toPostfix.subtokens, u.isOperator = false) (hrest : FollowsOperand rest) :
    DerivesOperand others limits [] (lex (y.toPostfix.render.toList ++ rest)) y.spelledOut
      (lex rest) := by
  cases y with
  | first negated p =>
    obtain ⟨ls', hp⟩ : ∃ ls', DerivesPart formulas limits active ls' p more := by
      cases h with
      | first hp => exact ⟨_, hp⟩
      | negated _ hp => exact ⟨_, hp⟩
    have hpart := p.derives_spelledOut hdice hp
      (fun u hu => hplain u (Operand.mem_subtokens_first hu)) hrest
    rcases p.integer_or_isCounted with ⟨n, rfl⟩ | hcounted
    · rw [← Operand.toPostfix_spelledOut]
      exact derives_number negated n hrest
    · -- The count that was left out is an operand of its own, and the part stands after it.
      rw [Operand.toList_render_first hcounted, Operand.spelledOut_first hcounted, List.append_assoc]
      exact .more (derives_number negated 1 (followsOperand_suffix p rest)) hpart
  | more before p =>
    cases h with
    | more hy hp =>
      have hpart := p.derives_spelledOut hdice hp
        (fun u hu => hplain u (Operand.mem_subtokens_more (.inr hu))) hrest
      have hbefore := before.derives_spelledOut hdice hy
        (fun u hu => hplain u (Operand.mem_subtokens_more (.inl hu))) (followsOperand_suffix p rest)
      rw [Operand.toList_render_more, List.append_assoc]
      exact .more hbefore hpart

theorem Part.derives_spelledOut (p : Part) {active : List String} {ls more : List Lexeme}
    {rest : List Char} (hdice : 1 ≤ limits.maxDice) (h : DerivesPart formulas limits active ls p more)
    (hplain : ∀ u ∈ p.inside, u.isOperator = false) (hrest : FollowsOperand rest) :
    DerivesPart others limits [] (lex (p.suffix ++ rest)) p.spelledOut (lex rest) := by
  cases p with
  | integer n => exact derives_integer n hrest
  | die sides keep =>
    cases h with
    | die _ _ _ le hkeep => exact derives_die hdice le hkeep hrest
  | group body =>
    cases h with
    | group _ hbody _ =>
      have hread := derives_parenthesized (body.derives_spelledOut hdice hbody hplain) rest
      rw [Part.suffix, List.cons_append, List.append_assoc]
      exact hread
  | reference name body =>
    cases h with
    | reference _ _ _ _ hbody =>
      have hread := derives_parenthesized (body.derives_spelledOut hdice hbody hplain) rest
      rw [Part.suffix, List.cons_append, List.append_assoc]
      exact hread

end

end

/-- The written form of what is read without operators is read as the same, with the same limits and
whatever formulas there are, so writing it once more changes nothing. -/
theorem parse_render {S T : Type} [FormulaStore S] [FormulaStore T] (formulas : S) (others : T)
    {limits : Limits} (hdice : 1 ≤ limits.maxDice) {text : String} {p : Postfix}
    (h : parse formulas limits text = .ok p) (hplain : ∀ u ∈ p.subtokens, u.isOperator = false) :
    parse others limits p.render = .ok p := by
  obtain ⟨x, hx, rfl⟩ := exists_derivation h
  have hdepth := depth_le_of_parse h
  have hspelled : DerivesExpression others limits [] (lex x.toPostfix.render.toList) x.spelledOut [] :=
    x.derives_spelledOut hdice hx hplain
  rw [parse_eq_outcomeWithin, ← x.toPostfix_spelledOut]
  rw [← x.toPostfix_spelledOut] at hdepth hspelled
  exact outcome_of_derives hspelled hdepth hdepth

theorem parse_render_chained :
    ∃ p, parse (Formulas.empty.insert ⟨"x", "d4l 5"⟩) {} "-d6h d8[x](5)3" = .ok p ∧
      (∀ u ∈ p.subtokens, u.isOperator = false) ∧ p.render = "-1d6h1d8(1d4l1 5)(5) 3" ∧
      parse Formulas.empty {} p.render = .ok p := by
  let dice : Token := .dice (.single (.dice (.literal (-1)) 6 (.highest 1))) 8 .all
  let body : Postfix := .cons (.dice (.literal 1) 4 (.lowest 1)) (.literal 5)
  let group : Token := .group (.single (.group (.single dice) body)) (.literal 5)
  have hread : parse (Formulas.empty.insert ⟨"x", "d4l 5"⟩) {} "-d6h d8[x](5)3" =
      .ok (.cons group (.literal 3)) := by decide +kernel
  have hplain : ∀ u ∈ (Postfix.cons group (.literal 3)).subtokens, u.isOperator = false := by decide
  exact ⟨_, hread, hplain, by decide +kernel, parse_render _ _ (by decide) hread hplain⟩

end DiceExpr
