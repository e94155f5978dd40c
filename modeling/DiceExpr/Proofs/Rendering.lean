import Mathlib.Data.List.Induction
import DiceExpr.Proofs.Endings
import DiceExpr.Proofs.Grammar

/-!
# Written forms

A written form is taken apart from its end. There stand the digits of a number, a closing parenthesis or
the symbol of an operator, and which of them it is tells numbers and dice from groups and from operators.
Before the digits of a die stands a letter, and before those of a number no letter. The values before a
die or a group are its count if and only if no space comes between, so this needs counts that are single
values, as those that are read are.

## Main statements

* `toList_render_append`: the written form of a sequence that is longer at its end.
* `number_unique`, `dice_unique`: the end of a text gives the number or the die that stands there.
* `Token.same_kind`: the end of a text gives the kind of token that stands there.
* `eq_of_render_eq`: what is read is given by how it is written.
-/

namespace DiceExpr

/-! ### Characters of a written form -/

theorem toList_toString_int (n : Int) :
    (toString n).toList = (if n < 0 then ['-'] else []) ++ Nat.toDigits 10 n.natAbs := by
  cases n with
  | ofNat n =>
    have hsign : ¬Int.ofNat n < 0 := by simp
    simp only [hsign, ↓reduceIte, List.nil_append]
    exact Nat.toList_repr
  | negSucc n =>
    simp only [Int.negSucc_lt_zero, ↓reduceIte]
    exact String.toList_append.trans (congrArg (['-'] ++ ·) Nat.toList_repr)

section

variable {count multiplier body : Postfix} {sides : Int} {keep : Keep}

@[simp]
theorem toList_render_operator (op : Operator) :
    (Token.operator op).render.toList = [op.symbol] := by
  simp [Token.render]

@[simp]
theorem toList_render_dice : (Token.dice count sides keep).render.toList =
    count.render.toList ++ 'd' :: ((toString sides).toList ++ keep.render.toList) := by
  simp [Token.render, toString]

@[simp]
theorem toList_render_group : (Token.group multiplier body).render.toList =
    multiplier.render.toList ++ '(' :: (body.render.toList ++ [')']) := by
  simp [Token.render, toString]

@[simp]
theorem toList_render_single (t : Token) :
    (Postfix.single t).render.toList = t.render.toList := rfl

@[simp]
theorem toList_render_cons (t : Token) (rest : Postfix) : (Postfix.cons t rest).render.toList =
    t.render.toList ++ ' ' :: rest.render.toList := by
  simp [Postfix.render, toString]

@[simp]
theorem toList_render_highest (n : Nat) :
    (Keep.highest n).render.toList = 'h' :: (toString (n : Int)).toList := by
  simp only [Keep.render, toString, String.toList_append]
  rfl

@[simp]
theorem toList_render_lowest (n : Nat) :
    (Keep.lowest n).render.toList = 'l' :: (toString (n : Int)).toList := by
  simp only [Keep.render, toString, String.toList_append]
  rfl

end

theorem toList_render_append (p q : Postfix) :
    (p.append q).render.toList = p.render.toList ++ ' ' :: q.render.toList := by
  match p with
  | .single t => simp [Postfix.append]
  | .cons t p => simp [Postfix.append, toList_render_append p q]

/-! ### Numbers at the end of a text -/

theorem forall_getLast_concat {P : Char → Prop} (l : List Char) {c : Char} (hc : P c) :
    ∀ d, (l ++ [c]).getLast? = some d → P d := by
  intro d hd
  rw [List.getLast?_concat] at hd
  cases hd
  exact hc

/-- A text that no number goes on from. -/
def StopsNumber (l : List Char) : Prop := ∀ c, l.getLast? = some c → c.isDigit = false ∧ c ≠ '-'

theorem toDigits_unique {l l' : List Char} {m n : Nat}
    (hl : ∀ c, l.getLast? = some c → c.isDigit = false)
    (hl' : ∀ c, l'.getLast? = some c → c.isDigit = false)
    (h : l ++ Nat.toDigits 10 m = l' ++ Nat.toDigits 10 n) : l = l' ∧ m = n := by
  have hrun (k : Nat) : ∀ c ∈ (Nat.toDigits 10 k).reverse, c.isDigit = true := fun c hc =>
    Nat.isDigit_of_mem_toDigits (by decide) (by decide) (List.mem_reverse.1 hc)
  have hreverse := congrArg List.reverse h
  rw [List.reverse_append, List.reverse_append] at hreverse
  obtain ⟨htake, hdrop⟩ := Lexeme.span_append l.reverse (hrun m) (by simpa using hl)
  obtain ⟨htake', hdrop'⟩ := Lexeme.span_append l'.reverse (hrun n) (by simpa using hl')
  rw [hreverse] at htake hdrop
  have hdigits : Nat.toDigits 10 m = Nat.toDigits 10 n :=
    List.reverse_inj.1 (htake.symm.trans htake')
  have hvalue := congrArg (fun ds => Nat.ofDigitChars 10 ds 0) hdigits
  refine ⟨List.reverse_inj.1 (hdrop.symm.trans hdrop'), ?_⟩
  simpa using hvalue

theorem number_unique {l l' : List Char} {m n : Int} (hl : StopsNumber l) (hother : StopsNumber l')
    (h : l ++ (toString m).toList = l' ++ (toString n).toList) : l = l' ∧ m = n := by
  have hsign (l : List Char) (hl : StopsNumber l) (k : Int) :
      ∀ c, (l ++ if k < 0 then ['-'] else []).getLast? = some c → c.isDigit = false := by
    split
    · exact forall_getLast_concat l rfl
    · rw [List.append_nil]
      exact fun c hc => (hl c hc).1
  rw [toList_toString_int, toList_toString_int, ← List.append_assoc, ← List.append_assoc] at h
  obtain ⟨hleft, hnatAbs⟩ := toDigits_unique (hsign l hl m) (hsign l' hother n) h
  split at hleft <;> split at hleft
  · exact ⟨List.append_cancel_right hleft, by omega⟩
  · rw [List.append_nil] at hleft
    exact absurd rfl (hother '-' (by simp [← hleft])).2
  · rw [List.append_nil] at hleft
    exact absurd rfl (hl '-' (by simp [hleft])).2
  · rw [List.append_nil, List.append_nil] at hleft
    exact ⟨hleft, by omega⟩

theorem stopsNumber_concat (l : List Char) {c : Char} (hc : c ∈ ['d', 'h', 'l']) :
    StopsNumber (l ++ [c]) := by
  apply forall_getLast_concat
  simp only [List.mem_cons, List.not_mem_nil, or_false] at hc
  rcases hc with rfl | rfl | rfl <;> decide

/-- A number after a letter of a die. -/
theorem number_unique_after {l l' : List Char} {c c' : Char} {m n : Int}
    (hc : c ∈ ['d', 'h', 'l']) (hc' : c' ∈ ['d', 'h', 'l'])
    (h : l ++ c :: (toString m).toList = l' ++ c' :: (toString n).toList) :
    l = l' ∧ c = c' ∧ m = n := by
  rw [List.append_cons, List.append_cons l'] at h
  obtain ⟨hleft, hnumber⟩ := number_unique (stopsNumber_concat l hc) (stopsNumber_concat l' hc') h
  obtain ⟨hl, hletter⟩ := List.append_inj' hleft rfl
  exact ⟨hl, List.singleton_inj.1 hletter, hnumber⟩

/-! ### Dice at the end of a text -/

/-- The letter before the last number of a die. -/
def Keep.letter : Keep → Char
  | all => 'd'
  | highest _ => 'h'
  | lowest _ => 'l'

def Keep.lastNumber (sides : Int) : Keep → Int
  | all => sides
  | highest n | lowest n => n

/-- What comes before that letter, if the die stands after a text. -/
def Keep.beforeLast (before : List Char) (sides : Int) : Keep → List Char
  | all => before
  | highest _ | lowest _ => before ++ 'd' :: (toString sides).toList

theorem Keep.letter_mem (keep : Keep) : keep.letter ∈ ['d', 'h', 'l'] := by
  cases keep <;> simp [letter]

theorem append_die (before : List Char) (sides : Int) (keep : Keep) :
    before ++ 'd' :: ((toString sides).toList ++ keep.render.toList) =
      keep.beforeLast before sides ++ keep.letter :: (toString (keep.lastNumber sides)).toList := by
  cases keep with
  | all => simp [Keep.render, Keep.beforeLast, Keep.letter, Keep.lastNumber]
  | highest n => simp [Keep.beforeLast, Keep.letter, Keep.lastNumber]
  | lowest n => simp [Keep.beforeLast, Keep.letter, Keep.lastNumber]

theorem dice_unique {l l' : List Char} {sides sides' : Int} {keep keep' : Keep}
    (h : l ++ 'd' :: ((toString sides).toList ++ keep.render.toList) =
      l' ++ 'd' :: ((toString sides').toList ++ keep'.render.toList)) :
    l = l' ∧ sides = sides' ∧ keep = keep' := by
  rw [append_die, append_die] at h
  obtain ⟨hbefore, hletter, hlast⟩ := number_unique_after keep.letter_mem keep'.letter_mem h
  have hdie : 'd' ∈ ['d', 'h', 'l'] := List.mem_cons_self
  cases keep with
  | all =>
    cases keep' with
    | all => exact ⟨hbefore, hlast, rfl⟩
    | highest n => simp [Keep.letter] at hletter
    | lowest n => simp [Keep.letter] at hletter
  | highest n =>
    cases keep' with
    | all => simp [Keep.letter] at hletter
    | highest n' =>
      obtain ⟨hl, -, hsides⟩ := number_unique_after hdie hdie hbefore
      exact ⟨hl, hsides, congrArg Keep.highest (Int.ofNat.inj hlast)⟩
    | lowest n' => simp [Keep.letter] at hletter
  | lowest n =>
    cases keep' with
    | all => simp [Keep.letter] at hletter
    | highest n' => simp [Keep.letter] at hletter
    | lowest n' =>
      obtain ⟨hl, -, hsides⟩ := number_unique_after hdie hdie hbefore
      exact ⟨hl, hsides, congrArg Keep.lowest (Int.ofNat.inj hlast)⟩

/-! ### Kinds of tokens -/

@[simp]
theorem Operator.isDigit_symbol (op : Operator) : op.symbol.isDigit = false := by cases op <;> rfl

@[simp]
theorem Operator.symbol_ne_closeParen (op : Operator) : op.symbol ≠ ')' := by cases op <;> decide

@[simp]
theorem Operator.closeParen_ne_symbol (op : Operator) : ')' ≠ op.symbol := op.symbol_ne_closeParen.symm

/-- A text that a token may stand after. -/
def OpensToken (l : List Char) : Prop := ∀ c, l.getLast? = some c → c = ' ' ∨ c = '('

/-- The characters that a token may end in. -/
def Token.EndsIn : Token → Char → Prop
  | .literal _, c => c.isDigit = true
  | .operator op, c => c = op.symbol
  | .dice _ _ _, c => c.isDigit = true
  | .group _ _, c => c = ')'

theorem exists_digit_last (l : List Char) (n : Int) :
    ∃ stem c, l ++ (toString n).toList = stem ++ [c] ∧ c.isDigit = true := by
  obtain ⟨stem, c, hdigits⟩ := (List.eq_nil_or_concat (Nat.toDigits 10 n.natAbs)).resolve_left
    Nat.toDigits_ne_nil
  rw [toList_toString_int, hdigits, List.concat_eq_append, ← List.append_assoc, ← List.append_assoc]
  refine ⟨_, c, rfl, ?_⟩
  have hc : c ∈ Nat.toDigits 10 n.natAbs := by simp [hdigits]
  exact Nat.isDigit_of_mem_toDigits (by decide) (by decide) hc

theorem Token.exists_endsIn (t : Token) (l : List Char) :
    ∃ stem c, l ++ t.render.toList = stem ++ [c] ∧ t.EndsIn c := by
  cases t with
  | literal n => exact exists_digit_last l n
  | operator op => exact ⟨l, op.symbol, by simp, rfl⟩
  | dice count sides keep =>
    rw [toList_render_dice, append_die, ← List.append_assoc, List.append_cons]
    exact exists_digit_last _ _
  | group multiplier body =>
    exact ⟨l ++ (multiplier.render.toList ++ '(' :: body.render.toList), ')', by simp, rfl⟩

def Token.SameKind : Token → Token → Prop
  | .literal _, .literal _ | .operator _, .operator _ => True
  | .dice _ _ _, .dice _ _ _ | .group _ _, .group _ _ => True
  | _, _ => False

theorem OpensToken.stopsNumber {l : List Char} (hl : OpensToken l) : StopsNumber l := by
  intro c hc
  rcases hl c hc with rfl | rfl <;> decide

theorem number_ne_dice {l l' : List Char} {n sides : Int} {count : Postfix} {keep : Keep}
    (hl : OpensToken l) :
    l ++ (toString n).toList ≠ l' ++ (Token.dice count sides keep).render.toList := by
  intro h
  rw [toList_render_dice, ← List.append_assoc, append_die, List.append_cons _ keep.letter] at h
  obtain ⟨rfl, -⟩ := number_unique hl.stopsNumber (stopsNumber_concat _ keep.letter_mem) h
  have hletter := hl keep.letter (by simp)
  cases keep <;> simp [Keep.letter] at hletter

theorem Token.same_kind {t u : Token} {l l' : List Char} (hl : OpensToken l) (hl' : OpensToken l')
    (h : l ++ t.render.toList = l' ++ u.render.toList) : t.SameKind u := by
  obtain ⟨c, hc, hc'⟩ : ∃ c, t.EndsIn c ∧ u.EndsIn c := by
    obtain ⟨stem, c, ht, hc⟩ := t.exists_endsIn l
    obtain ⟨stem', c', hu, hc'⟩ := u.exists_endsIn l'
    rw [ht, hu] at h
    obtain rfl : c = c' := List.singleton_inj.1 (List.append_inj' h rfl).2
    exact ⟨c, hc, hc'⟩
  cases t <;> cases u
  case literal.dice => exact number_ne_dice hl h
  case dice.literal => exact number_ne_dice hl' h.symm
  all_goals first | trivial | simp_all [EndsIn]

/-! ### Tokens and sequences at the end of a text -/

/-- Whether all counts and multipliers at any depth are single values. -/
def Token.IsPlain (t : Token) : Prop := ∀ u ∈ t.subtokens, u.IsMade fun _ => True

def Postfix.IsPlain (p : Postfix) : Prop := ∀ u ∈ p.subtokens, u.IsMade fun _ => True

theorem Postfix.IsPlain.mem {p : Postfix} (hp : p.IsPlain) : ∀ t ∈ p.toList, t.IsPlain :=
  fun t ht u hu => hp u (mem_subtokens_iff.2 ⟨t, ht, hu⟩)

theorem Postfix.IsPlain.of_append {p q : Postfix} (h : (p.append q).IsPlain) :
    p.IsPlain ∧ q.IsPlain := by
  have hmem := h.mem
  rw [toList_append] at hmem
  constructor
  · intro u hu
    obtain ⟨t, ht, hu⟩ := mem_subtokens_iff.1 hu
    exact hmem t (List.mem_append_left _ ht) u hu
  · intro u hu
    obtain ⟨t, ht, hu⟩ := mem_subtokens_iff.1 hu
    exact hmem t (List.mem_append_right _ ht) u hu

theorem Token.IsPlain.of_dice {count : Postfix} {sides : Int} {keep : Keep}
    (h : (Token.dice count sides keep).IsPlain) : count.IsValue ∧ count.IsPlain :=
  List.forall_mem_cons.1 h

theorem Token.IsPlain.of_group {multiplier body : Postfix} (h : (Token.group multiplier body).IsPlain) :
    multiplier.IsValue ∧ multiplier.IsPlain ∧ body.IsPlain := by
  obtain ⟨hgroup, hinside⟩ := List.forall_mem_cons.1 h
  exact ⟨hgroup.1, List.forall_mem_append.1 hinside⟩

/-- A sequence is a single token, or a sequence with one more token after it. -/
theorem Postfix.snoc_induction {motive : Postfix → Prop} (single : ∀ t, motive (.single t))
    (append : ∀ p t, motive p → motive (p.append (.single t))) (p : Postfix) : motive p := by
  have hlist (ts : List Token) (t : Token) : motive (.ofTokens t ts) := by
    induction ts using List.reverseRecOn with
    | nil => exact single t
    | append_singleton ts u ih =>
      have hlast : ofTokens t (ts ++ [u]) = (ofTokens t ts).append (.single u) :=
        toList_injective (by simp [toList])
      rw [hlast]
      exact append _ u ih
  cases p with
  | single t => exact single t
  | cons t rest =>
    have hwhole : Postfix.cons t rest = ofTokens t rest.toList := toList_injective (by simp [toList])
    rw [hwhole]
    exact hlist _ t

/-- Whether the end of a text gives a token, if that token stands there. -/
def Token.IsReadable (t : Token) : Prop :=
  ∀ {u : Token} {l l' : List Char}, u.IsPlain → OpensToken l → OpensToken l' →
    l ++ t.render.toList = l' ++ u.render.toList → l = l' ∧ t = u

/-- A text that a sequence may stand after. -/
def OpensSequence (l : List Char) : Prop := ∀ c, l.getLast? = some c → c = '('

theorem OpensSequence.opensToken {l : List Char} (h : OpensSequence l) : OpensToken l :=
  fun c hc => .inr (h c hc)

theorem opensToken_space (l : List Char) : OpensToken (l ++ [' ']) :=
  forall_getLast_concat l (.inl rfl)

theorem opensSequence_openParen (l : List Char) : OpensSequence (l ++ ['(']) :=
  forall_getLast_concat l rfl

theorem not_opensSequence_space (l : List Char) : ¬OpensSequence (l ++ [' ']) := by
  intro h
  exact absurd (h ' ' List.getLast?_concat) (by decide)

theorem Postfix.readable_of_value {p q : Postfix} (hp : ∀ t ∈ p.toList, t.IsReadable)
    (hvalue : p.IsValue) (hvalue' : q.IsValue) (hq : q.IsPlain) {l l' : List Char}
    (hl : OpensToken l) (hl' : OpensToken l')
    (h : l ++ p.render.toList = l' ++ q.render.toList) : l = l' ∧ p = q := by
  obtain ⟨t, rfl, -⟩ := hvalue
  obtain ⟨u, rfl, -⟩ := hvalue'
  have hread : t.IsReadable := hp t List.mem_cons_self
  obtain ⟨rfl, rfl⟩ := hread (hq.mem u List.mem_cons_self) hl hl' h
  exact ⟨rfl, rfl⟩

theorem Postfix.readable_of_tokens {p : Postfix} (hp : ∀ t ∈ p.toList, t.IsReadable) {q : Postfix}
    (hq : q.IsPlain) {l l' : List Char} (hl : OpensSequence l) (hl' : OpensSequence l')
    (h : l ++ p.render.toList = l' ++ q.render.toList) : l = l' ∧ p = q := by
  induction p using snoc_induction generalizing q with
  | single t =>
    have hread : t.IsReadable := hp t List.mem_cons_self
    induction q using snoc_induction with
    | single u =>
      obtain ⟨rfl, rfl⟩ := hread (hq.mem u List.mem_cons_self) hl.opensToken hl'.opensToken h
      exact ⟨rfl, rfl⟩
    | append q u =>
      -- A token has no space before it on one side only.
      rw [toList_render_append, ← List.append_assoc, List.append_cons] at h
      obtain ⟨rfl, -⟩ := hread (hq.of_append.2.mem u List.mem_cons_self) hl.opensToken
        (opensToken_space _) h
      exact absurd hl (not_opensSequence_space _)
  | append p t ih =>
    rw [toList_append] at hp
    have hread : t.IsReadable := hp t (List.mem_append_right _ List.mem_cons_self)
    rw [toList_render_append, ← List.append_assoc, List.append_cons] at h
    induction q using snoc_induction with
    | single u =>
      obtain ⟨rfl, -⟩ := hread (hq.mem u List.mem_cons_self) (opensToken_space _) hl'.opensToken h
      exact absurd hl' (not_opensSequence_space _)
    | append q u =>
      rw [toList_render_append, ← List.append_assoc, List.append_cons (l' ++ _)] at h
      obtain ⟨hinit, hlast⟩ := hq.of_append
      obtain ⟨hbefore, rfl⟩ := hread (hlast.mem u List.mem_cons_self) (opensToken_space _)
        (opensToken_space _) h
      obtain ⟨rfl, rfl⟩ := ih (fun t ht => hp t (List.mem_append_left _ ht)) hinit
        (List.append_cancel_right hbefore)
      exact ⟨rfl, rfl⟩

mutual

theorem Token.isReadable (t : Token) (ht : t.IsPlain) : t.IsReadable := by
  intro u l l' hu hl hl' h
  have hkind := Token.same_kind hl hl' h
  cases t with
  | literal n =>
    cases u with
    | literal m =>
      obtain ⟨rfl, rfl⟩ := number_unique hl.stopsNumber hl'.stopsNumber h
      exact ⟨rfl, rfl⟩
    | _ => exact hkind.elim
  | operator op =>
    cases u with
    | operator op' =>
      rw [toList_render_operator, toList_render_operator] at h
      obtain ⟨rfl, hsymbol⟩ := List.append_inj' h rfl
      obtain rfl := Operator.symbol_injective (List.singleton_inj.1 hsymbol)
      exact ⟨rfl, rfl⟩
    | _ => exact hkind.elim
  | dice count sides keep =>
    cases u with
    | dice count' sides' keep' =>
      obtain ⟨hvalue, hplain⟩ := ht.of_dice
      obtain ⟨hvalue', hplain'⟩ := hu.of_dice
      rw [toList_render_dice, toList_render_dice, ← List.append_assoc, ← List.append_assoc] at h
      obtain ⟨hcount, rfl, rfl⟩ := dice_unique h
      obtain ⟨rfl, rfl⟩ := Postfix.readable_of_value (count.tokens_readable hplain) hvalue hvalue'
        hplain' hl hl' hcount
      exact ⟨rfl, rfl⟩
    | _ => exact hkind.elim
  | group multiplier body =>
    cases u with
    | group multiplier' body' =>
      obtain ⟨hvalue, hplain, hbody⟩ := ht.of_group
      obtain ⟨hvalue', hplain', hbody'⟩ := hu.of_group
      -- Without the last parenthesis the body is at the end, right after the parenthesis it opens with.
      have hopen : (l ++ multiplier.render.toList ++ ['(']) ++ body.render.toList =
          (l' ++ multiplier'.render.toList ++ ['(']) ++ body'.render.toList := by
        refine List.append_cancel_right (?_ : _ ++ [')'] = _ ++ [')'])
        simpa using h
      obtain ⟨hbefore, rfl⟩ := Postfix.readable_of_tokens (body.tokens_readable hbody) hbody'
        (opensSequence_openParen _) (opensSequence_openParen _) hopen
      obtain ⟨rfl, rfl⟩ := Postfix.readable_of_value (multiplier.tokens_readable hplain) hvalue
        hvalue' hplain' hl hl' (List.append_cancel_right hbefore)
      exact ⟨rfl, rfl⟩
    | _ => exact hkind.elim

theorem Postfix.tokens_readable (p : Postfix) (hp : p.IsPlain) : ∀ t ∈ p.toList, t.IsReadable := by
  cases p with
  | single t =>
    intro u hu
    rw [List.mem_singleton.1 hu]
    exact t.isReadable hp
  | cons t rest =>
    obtain ⟨ht, hrest⟩ := List.forall_mem_append.1 hp
    exact List.forall_mem_cons.2 ⟨t.isReadable ht, rest.tokens_readable hrest⟩

end

/-! ### Whole texts -/

section

variable {S T : Type} [FormulaStore S] [FormulaStore T]

theorem isPlain_of_parse {formulas : S} {limits : Limits} {text : String} {p : Postfix}
    (h : parse formulas limits text = .ok p) : p.IsPlain := by
  rw [parse_eq_outcomeWithin] at h
  obtain ⟨-, hinside⟩ := shape_of_outcome (.self : Visits formulas limits _ _) h
  exact fun u hu => (hinside u hu).mono fun _ _ => trivial

/-- What texts are read as is the same if it is written the same, whatever formulas and limits they are
read with. -/
theorem eq_of_render_eq (formulas : S) (others : T) (limits limits' : Limits) {text text' : String}
    {p q : Postfix} (hp : parse formulas limits text = .ok p) (hq : parse others limits' text' = .ok q)
    (h : p.render = q.render) : p = q := by
  have hreads := p.tokens_readable (isPlain_of_parse hp)
  have hstart : OpensSequence [] := nofun
  have hsame : [] ++ p.render.toList = [] ++ q.render.toList := congrArg String.toList h
  exact (Postfix.readable_of_tokens hreads (isPlain_of_parse hq) hstart hstart hsame).2

theorem eq_of_render_eq_chained :
    ∃ p q, parse (Formulas.empty.insert ⟨"x", "3 4"⟩) {} "-2d6h d8[x]" = .ok p ∧
      parse Formulas.empty { maxDepth := 3 } "- 2D6H1 D8( 3 4 )" = .ok q ∧
      p.render = q.render ∧ p = q := by
  let group : Token := .group (.single (.dice (.single (.dice (.literal (-2)) 6 (.highest 1))) 8 .all))
    (.cons (.literal 3) (.literal 4))
  have hp : parse (Formulas.empty.insert ⟨"x", "3 4"⟩) {} "-2d6h d8[x]" = .ok (.single group) := by
    decide +kernel
  have hq : parse Formulas.empty { maxDepth := 3 } "- 2D6H1 D8( 3 4 )" = .ok (.single group) := by
    decide +kernel
  exact ⟨_, _, hp, hq, rfl, eq_of_render_eq _ _ _ _ hp hq rfl⟩

end

end DiceExpr
