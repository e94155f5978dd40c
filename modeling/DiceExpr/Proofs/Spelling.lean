import Mathlib.Logic.Relation
import DiceExpr.Proofs.Expansion
import DiceExpr.Proofs.Refusals

/-!
# Blanks and the case of letters

Blanks separate lexemes, and it matters in three places only whether there are any: between the letter
of a die and its number of faces, between that number and a keep letter, and between a keep letter and
its number. Everywhere else blanks may be put in, and where there are some, others may stand. The letters
of dice and keep rules may be small or capital. So the lexemes of two texts correspond if each two are of
one kind, are the same number or the same name, and touch the lexemes before them in those places.
Lexemes that correspond derive the same expressions.

## Main definitions

* `Corresponds`: lexemes that differ in blanks and letters that do not matter.
* `Respelled`: changes of a text.

## Main statements

* `Expression.derives_of_corresponds`: lexemes that correspond derive the same.
* `Respelled.corresponds`: the lexemes of a text correspond to those of the changed text.
* `parse_respelled`: the statement for whole texts.
-/

namespace DiceExpr

open Lexeme

/-! ### Lexemes that correspond -/

/-- Whether a die may hold two lexemes just because they touch, where the first one is of this kind and
the second one of the other. -/
def Lexeme.Kind.isGluedTo : Kind → Kind → Bool
  | die, integer | integer, highest | integer, lowest | highest, integer | lowest, integer => true
  | _, _ => false

/-- Two lexemes of one kind, which are the same number or the same name. -/
structure Lexeme.SameAs (l m : Lexeme) : Prop where
  kind : l.kind = m.kind
  value : l.kind = .integer → l.value = m.value
  name : l.kind = .formula → l.name = m.name

theorem Lexeme.SameAs.refl (l : Lexeme) : l.SameAs l := ⟨rfl, fun _ => rfl, fun _ => rfl⟩

theorem Lexeme.sameAs_respaced (l : Lexeme) (gap : List Char) : l.SameAs { l with gap } :=
  ⟨rfl, fun _ => rfl, fun _ => rfl⟩

theorem Lexeme.SameAs.symm {l m : Lexeme} (h : l.SameAs m) : m.SameAs l := by
  refine ⟨h.kind.symm, fun hm => ?_, fun hm => ?_⟩
  · exact (h.value (h.kind.trans hm)).symm
  · exact (h.name (h.kind.trans hm)).symm

/-- Lexemes after one of some kind, or after none, that differ at most in blanks and letters that do not
matter. -/
inductive Corresponds : Option Kind → List Lexeme → List Lexeme → Prop
  | nil {previous : Option Kind} : Corresponds previous [] []
  | cons {previous : Option Kind} {l m : Lexeme} {ls ms : List Lexeme} (same : l.SameAs m)
      (touch : ∀ kind ∈ previous, kind.isGluedTo l.kind = true → l.isAdjacent = m.isAdjacent)
      (rest : Corresponds (some l.kind) ls ms) : Corresponds previous (l :: ls) (m :: ms)

namespace Corresponds

variable {previous : Option Kind} {ls ms : List Lexeme}

theorem refl (previous : Option Kind) (ls : List Lexeme) : Corresponds previous ls ls := by
  induction ls generalizing previous with
  | nil => exact .nil
  | cons l ls ih => exact .cons (.refl l) (fun _ _ _ => rfl) (ih _)

theorem symm (h : Corresponds previous ls ms) : Corresponds previous ms ls := by
  induction h with
  | nil => exact .nil
  | cons same touch _ ih =>
    rw [same.kind] at touch ih
    exact .cons same.symm (fun kind hkind hglued => (touch kind hkind hglued).symm) ih

theorem append_left (before : List Lexeme) (h : ∀ previous, Corresponds previous ls ms)
    (previous : Option Kind) : Corresponds previous (before ++ ls) (before ++ ms) := by
  induction before generalizing previous with
  | nil => exact h previous
  | cons l before ih => exact .cons (.refl l) (fun _ _ _ => rfl) (ih _)

theorem exists_append {more : List Lexeme} (h : Corresponds previous (ls ++ more) ms) :
    ∃ last us vs, ms = us ++ vs ∧ Corresponds previous ls us ∧ Corresponds last more vs := by
  induction ls generalizing previous ms with
  | nil => exact ⟨previous, [], ms, rfl, .nil, h⟩
  | cons l ls ih =>
    cases h with
    | @cons _ _ m _ ms same touch rest =>
      obtain ⟨last, us, vs, rfl, hus, hvs⟩ := ih rest
      exact ⟨last, m :: us, vs, rfl, .cons same touch hus, hvs⟩

end Corresponds

/-! ### Derivations -/

section

variable {S : Type} [FormulaStore S] {formulas : S} {limits : Limits} {previous : Option Kind}
  {ls ms rest : List Lexeme}

/-- A kind that the next lexeme does not have if it touches, it does not have among others that
correspond. -/
theorem Corresponds.touching_ne {before kind : Kind} (h : Corresponds (some before) ls ms)
    (hglued : before.isGluedTo kind = true)
    (hne : ∀ l, ls.head? = some l → l.isAdjacent = true → l.kind ≠ kind) :
    ∀ m, ms.head? = some m → m.isAdjacent = true → m.kind ≠ kind := by
  cases h with
  | nil => simp
  | @cons _ l m _ _ same touch _ =>
    rintro _ ⟨⟩ hadjacent hkind
    have hl : l.kind = kind := same.kind.trans hkind
    rw [← touch before rfl (by rw [hl]; exact hglued)] at hadjacent
    exact hne l rfl hadjacent hl

theorem DerivesCount.of_corresponds {n : Nat} {letter : Kind} (h : DerivesCount limits ls n rest)
    (hletter : letter.isGluedTo .integer = true) (hsame : Corresponds (some letter) ls ms) :
    ∃ last more, DerivesCount limits ms n more ∧ Corresponds last rest more := by
  cases h with
  | one none => exact ⟨_, ms, .one (hsame.touching_ne hletter none), hsame⟩
  | given adjacent kind le =>
    cases hsame with
    | @cons _ l m _ ms same touch hrest =>
      rw [touch letter rfl (by rw [kind]; exact hletter)] at adjacent
      have hvalue := same.value kind
      rw [hvalue] at le ⊢
      exact ⟨_, ms, .given adjacent (same.kind.symm.trans kind) le, hrest⟩

theorem DerivesKeep.of_corresponds {keep : Keep} (h : DerivesKeep limits ls keep rest)
    (hsame : Corresponds (some .integer) ls ms) :
    ∃ last more, DerivesKeep limits ms keep more ∧ Corresponds last rest more := by
  cases h with
  | all none =>
    have hhighest : ∀ m, ms.head? = some m → m.isAdjacent = true → m.kind ≠ .highest :=
      hsame.touching_ne rfl fun l hl ha => (none l hl ha).1
    have hlowest : ∀ m, ms.head? = some m → m.isAdjacent = true → m.kind ≠ .lowest :=
      hsame.touching_ne rfl fun l hl ha => (none l hl ha).2
    exact ⟨_, ms, .all fun m hm ha => ⟨hhighest m hm ha, hlowest m hm ha⟩, hsame⟩
  | highest adjacent kind count =>
    cases hsame with
    | cons same touch hrest =>
      rw [touch .integer rfl (by rw [kind]; rfl)] at adjacent
      rw [kind] at hrest
      obtain ⟨last, more, hcount, hmore⟩ := count.of_corresponds rfl hrest
      exact ⟨last, more, .highest adjacent (same.kind.symm.trans kind) hcount, hmore⟩
  | lowest adjacent kind count =>
    cases hsame with
    | cons same touch hrest =>
      rw [touch .integer rfl (by rw [kind]; rfl)] at adjacent
      rw [kind] at hrest
      obtain ⟨last, more, hcount, hmore⟩ := count.of_corresponds rfl hrest
      exact ⟨last, more, .lowest adjacent (same.kind.symm.trans kind) hcount, hmore⟩

mutual

theorem Expression.derives_of_corresponds (x : Expression) {active : List String}
    {previous : Option Kind} {ls ms rest : List Lexeme}
    (h : DerivesExpression formulas limits active ls x rest) (hsame : Corresponds previous ls ms) :
    ∃ last more, DerivesExpression formulas limits active ms x more ∧
      Corresponds last rest more := by
  cases x with
  | operand y =>
    cases h with
    | operand hy =>
      obtain ⟨last, more, hy', hmore⟩ := y.derives_of_corresponds hy hsame
      exact ⟨last, more, .operand hy', hmore⟩
  | binary left op right =>
    cases h with
    | binary hx kind hy =>
      obtain ⟨_, _, hx', hafter⟩ := left.derives_of_corresponds hx hsame
      cases hafter with
      | cons same _ hright =>
        obtain ⟨last, more, hy', hmore⟩ := right.derives_of_corresponds hy hright
        exact ⟨last, more, .binary hx' (same.kind.symm.trans kind) hy', hmore⟩

theorem Operand.derives_of_corresponds (y : Operand) {active : List String}
    {previous : Option Kind} {ls ms rest : List Lexeme}
    (h : DerivesOperand formulas limits active ls y rest) (hsame : Corresponds previous ls ms) :
    ∃ last more, DerivesOperand formulas limits active ms y more ∧ Corresponds last rest more := by
  cases y with
  | first negated p =>
    cases h with
    | first hp =>
      obtain ⟨last, more, hp', hmore⟩ := p.derives_of_corresponds hp hsame
      exact ⟨last, more, .first hp', hmore⟩
    | negated kind hp =>
      cases hsame with
      | cons same _ hpart =>
        obtain ⟨last, more, hp', hmore⟩ := p.derives_of_corresponds hp hpart
        exact ⟨last, more, .negated (same.kind.symm.trans kind) hp', hmore⟩
  | more before p =>
    cases h with
    | more hy hp =>
      obtain ⟨_, _, hy', hpart⟩ := before.derives_of_corresponds hy hsame
      obtain ⟨last, more, hp', hmore⟩ := p.derives_of_corresponds hp hpart
      exact ⟨last, more, .more hy' hp', hmore⟩

theorem Part.derives_of_corresponds (p : Part) {active : List String}
    {previous : Option Kind} {ls ms rest : List Lexeme}
    (h : DerivesPart formulas limits active ls p rest) (hsame : Corresponds previous ls ms) :
    ∃ last more, DerivesPart formulas limits active ms p more ∧ Corresponds last rest more := by
  cases p with
  | integer n =>
    cases h with
    | integer kind =>
      cases hsame with
      | cons same _ hrest =>
        rw [same.value kind]
        exact ⟨_, _, .integer (same.kind.symm.trans kind), hrest⟩
  | die n keep =>
    cases h with
    | die kind adjacent digits le hkeep =>
      cases hsame with
      | cons same _ hsides =>
        cases hsides with
        | cons sameSides touch hrest =>
          rw [touch _ rfl (by rw [kind, digits]; rfl)] at adjacent
          rw [digits] at hrest
          rw [sameSides.value digits] at le ⊢
          obtain ⟨last, more, hkeep', hmore⟩ := hkeep.of_corresponds hrest
          exact ⟨last, more, .die (same.kind.symm.trans kind) adjacent
            (sameSides.kind.symm.trans digits) le hkeep', hmore⟩
  | group body =>
    cases h with
    | group kind hbody closes =>
      cases hsame with
      | cons same _ hinside =>
        -- The lexemes in the parentheses correspond by themselves.
        obtain ⟨_, inner, _, rfl, hinner, hclose⟩ := hinside.exists_append
        obtain ⟨_, _, hbody', hnil⟩ := body.derives_of_corresponds hbody hinner
        cases hnil
        cases hclose with
        | cons sameClose _ hrest =>
          exact ⟨_, _, .group (same.kind.symm.trans kind) hbody' (sameClose.kind.symm.trans closes),
            hrest⟩
  | reference name body =>
    cases h with
    | reference kind found inactive lexes hbody =>
      cases hsame with
      | cons same _ hrest =>
        rw [same.name kind] at found ⊢
        exact ⟨_, _, .reference (same.kind.symm.trans kind) found inactive lexes hbody, hrest⟩

end

theorem parse_of_corresponds {text other : String} {p : Postfix}
    (hsame : Corresponds none (lex text.toList) (lex other.toList))
    (h : parse formulas limits text = .ok p) : parse formulas limits other = .ok p := by
  obtain ⟨x, hx, rfl⟩ := exists_derivation h
  have hdepth := depth_le_of_parse h
  obtain ⟨_, _, hother, hnil⟩ := x.derives_of_corresponds hx hsame
  cases hnil
  rw [parse_eq_outcomeWithin]
  exact outcome_of_derives hother hdepth hdepth

end

/-! ### Changes of a text -/

/-- A lexeme of a text, with the lexemes before it and the text after it. -/
structure LexemeIn (text : List Char) (before : List Lexeme) (l : Lexeme) (rest : List Char) :
    Prop where
  text_eq : text = before.flatMap source ++ (l.source ++ rest)
  lex_eq : lex text = before ++ l :: lex rest

/-- A text and the same text with other blanks or letters. -/
inductive Respelled : List Char → List Char → Prop
  | lead {text blanks : List Char} (hblank : ∀ c ∈ blanks, isBlank c = true) :
      Respelled text (blanks ++ text)
  | trail {text blanks : List Char} (hblank : ∀ c ∈ blanks, isBlank c = true) :
      Respelled text (text ++ blanks)
  /-- Blanks between two lexemes are exchanged for others. -/
  | respace {text rest gap : List Char} {before : List Lexeme} {l : Lexeme}
      (h : LexemeIn text before l rest) (hbefore : before ≠ []) (hl : l.gap ≠ []) (hgap : gap ≠ [])
      (hblank : ∀ c ∈ gap, isBlank c = true) :
      Respelled text (before.flatMap source ++ ({ l with gap }.source ++ rest))
  /-- Blanks are put between two lexemes that touch, unless a die may hold both because they touch. -/
  | separate {text rest gap : List Char} {before : List Lexeme} {m l : Lexeme}
      (h : LexemeIn text (before ++ [m]) l rest) (hl : l.gap = [])
      (hglued : m.kind.isGluedTo l.kind = false) (hgap : gap ≠ [])
      (hblank : ∀ c ∈ gap, isBlank c = true) :
      Respelled text ((before ++ [m]).flatMap source ++ ({ l with gap }.source ++ rest))
  /-- The letter of a die or of a keep rule is written small or as a capital. -/
  | recase {text rest : List Char} {before : List Lexeme} {l : Lexeme} {head : Char}
      (h : LexemeIn text before l rest) (hl : l.kind = .die ∨ l.kind = .highest ∨ l.kind = .lowest)
      (hhead : head = l.head.toLower ∨ head = l.head.toUpper) :
      Respelled text (before.flatMap source ++ ({ l with head }.source ++ rest))

section

variable {text rest gap blanks : List Char} {before : List Lexeme} {l l' : Lexeme}

theorem LexemeIn.next? (h : LexemeIn text before l rest) :
    Lexeme.next? (l.source ++ rest) = some (l, rest) := by
  obtain ⟨after, htext, hafter⟩ := exists_rest_of_lex h.lex_eq
  obtain ⟨last, hnext, -⟩ := lex_eq_cons_iff.1 hafter
  have hsource : l.source ++ rest = after := List.append_cancel_left (h.text_eq.symm.trans htext)
  obtain ⟨heq, hgap, matched, ends⟩ := next?_eq_some_iff.1 hnext
  obtain rfl : rest = last := List.append_cancel_left (hsource.trans heq)
  exact next?_eq_some_iff.2 ⟨rfl, hgap, matched, ends⟩

/-- A lexeme in a text may be exchanged for another one that ends there too and starts with no digit. -/
theorem LexemeIn.lex_exchange (h : LexemeIn text before l rest)
    (hnext : Lexeme.next? (l'.source ++ rest) = some (l', rest))
    (hhead : ∀ c, (l'.source ++ rest).head? = some c → c.isDigit = false) :
    lex (before.flatMap source ++ (l'.source ++ rest)) = before ++ l' :: lex rest := by
  have hlex := h.lex_eq
  have hopen := ne_unclosedBracket hlex (List.cons_ne_nil l _)
  rw [← lex_of_next? h.next?, h.text_eq] at hlex
  rw [lex_append hlex hopen hhead, lex_of_next? hnext]

theorem LexemeIn.lex_respaced (h : LexemeIn text before l rest) (hgap : gap ≠ [])
    (hblank : ∀ c ∈ gap, isBlank c = true) :
    lex (before.flatMap source ++ ({ l with gap }.source ++ rest)) =
      before ++ { l with gap } :: lex rest := by
  obtain ⟨-, -, matched, ends⟩ := next?_eq_some_iff.1 h.next?
  have hnext : Lexeme.next? ({ l with gap }.source ++ rest) = some ({ l with gap }, rest) :=
    next?_eq_some_iff.2 ⟨rfl, hblank, matched, ends⟩
  refine h.lex_exchange hnext fun c hc => ?_
  obtain ⟨b, bs, rfl⟩ := List.exists_cons_of_ne_nil hgap
  cases hc
  exact isDigit_of_isBlank (hblank _ List.mem_cons_self)

/-- A letter of a die or a keep rule is the same lexeme in either case. -/
theorem Lexeme.Kind.matches_case {kind : Kind} {c head : Char} {cs : List Char}
    (hkind : kind = .die ∨ kind = .highest ∨ kind = .lowest) (h : kind.Matches (c :: cs))
    (hhead : head = c.toLower ∨ head = c.toUpper) :
    kind.Matches (head :: cs) ∧ head.isDigit = false := by
  rcases hkind with rfl | rfl | rfl <;> rcases h with h | h <;> cases h <;>
    rcases hhead with rfl | rfl <;> exact ⟨by simp [Matches], by decide⟩

theorem LexemeIn.lex_recased {head : Char} (h : LexemeIn text before l rest)
    (hl : l.kind = .die ∨ l.kind = .highest ∨ l.kind = .lowest)
    (hhead : head = l.head.toLower ∨ head = l.head.toUpper) :
    lex (before.flatMap source ++ ({ l with head }.source ++ rest)) =
      before ++ { l with head } :: lex rest := by
  obtain ⟨-, hgap, matched, ends⟩ := next?_eq_some_iff.1 h.next?
  obtain ⟨hmatches, hdigit⟩ := Kind.matches_case hl matched hhead
  have hnext : Lexeme.next? ({ l with head }.source ++ rest) = some ({ l with head }, rest) :=
    next?_eq_some_iff.2 ⟨rfl, hgap, hmatches, ends⟩
  refine h.lex_exchange hnext fun c hc => ?_
  rw [source, List.append_assoc] at hc
  exact head_not_digit hgap hdigit c hc

theorem corresponds_lead (hblank : ∀ c ∈ blanks, isBlank c = true) (text : List Char) :
    Corresponds none (lex text) (lex (blanks ++ text)) := by
  cases hlex : lex text with
  | nil =>
    have hall : ∀ c ∈ blanks ++ text, isBlank c = true :=
      List.forall_mem_append.2 ⟨hblank, lex_eq_nil_iff.1 hlex⟩
    rw [lex_eq_nil_iff.2 hall]
    exact .nil
  | cons l ls =>
    obtain ⟨rest, hnext, rfl⟩ := lex_eq_cons_iff.1 hlex
    obtain ⟨rfl, hgap, matched, ends⟩ := next?_eq_some_iff.1 hnext
    let moved : Lexeme := { l with gap := blanks ++ l.gap }
    have hmoved : Lexeme.next? (blanks ++ (l.source ++ rest)) = some (moved, rest) := by
      refine next?_eq_some_iff.2 ⟨by simp [moved, source, text], ?_, matched, ends⟩
      exact List.forall_mem_append.2 ⟨hblank, hgap⟩
    rw [lex_of_next? hmoved]
    exact .cons (l.sameAs_respaced _) (by simp) (.refl _ _)

/-- Blanks at the end go on with an unclosed bracket, and change no other lexeme. -/
theorem Lexeme.Kind.Ends.append_blanks {kind : Kind} (h : kind.Ends rest)
    (hblank : ∀ c ∈ blanks, isBlank c = true) (hopen : kind ≠ .unclosedBracket) :
    kind.Ends (rest ++ blanks) := by
  cases kind with
  | integer =>
    intro c hc
    cases rest with
    | nil => exact isDigit_of_isBlank (hblank c (List.mem_of_mem_head? hc))
    | cons d ds => exact h c hc
  | unclosedBracket => exact absurd rfl hopen
  | _ => trivial

theorem Lexeme.Kind.Matches.append_blanks {cs : List Char}
    (h : Kind.unclosedBracket.Matches cs) (hblank : ∀ c ∈ blanks, isBlank c = true) :
    Kind.unclosedBracket.Matches (cs ++ blanks) := by
  obtain ⟨name, rfl, hname⟩ := h
  refine ⟨name ++ blanks, rfl, ?_⟩
  rw [List.mem_append]
  rintro (h | h)
  · exact hname h
  · exact absurd (hblank _ h) (by decide)

theorem corresponds_trail (hblank : ∀ c ∈ blanks, isBlank c = true) (text : List Char)
    (previous : Option Kind) : Corresponds previous (lex text) (lex (text ++ blanks)) := by
  cases hlex : lex text with
  | nil =>
    have hall : ∀ c ∈ text ++ blanks, isBlank c = true :=
      List.forall_mem_append.2 ⟨lex_eq_nil_iff.1 hlex, hblank⟩
    rw [lex_eq_nil_iff.2 hall]
    exact .nil
  | cons l ls =>
    obtain ⟨rest, hnext, rfl⟩ := lex_eq_cons_iff.1 hlex
    have hlt := length_lt_of_next? hnext
    obtain ⟨rfl, hgap, matched, ends⟩ := next?_eq_some_iff.1 hnext
    by_cases hopen : l.kind = .unclosedBracket
    · rw [hopen] at matched ends
      obtain rfl : rest = [] := ends
      let longer : Lexeme := { l with tail := l.tail ++ blanks }
      have hlonger : Lexeme.next? (l.source ++ [] ++ blanks) = some (longer, []) := by
        refine next?_eq_some_iff.2 ⟨by simp [longer, source, text], hgap, ?_, ?_⟩
        · rw [hopen]
          exact matched.append_blanks hblank
        · rw [hopen]
          exact rfl
      rw [lex_of_next? hlonger]
      exact .cons ⟨rfl, by simp [hopen], by simp [hopen]⟩ (fun _ _ _ => rfl) (.refl _ _)
    · have hsame : Lexeme.next? (l.source ++ rest ++ blanks) = some (l, rest ++ blanks) :=
        next?_eq_some_iff.2 ⟨List.append_assoc _ _ _, hgap, matched, ends.append_blanks hblank hopen⟩
      rw [lex_of_next? hsame]
      exact .cons (.refl l) (fun _ _ _ => rfl) (corresponds_trail hblank rest _)
termination_by text.length

theorem Respelled.corresponds {other : List Char} (h : Respelled text other) :
    Corresponds none (lex text) (lex other) := by
  cases h with
  | lead hblank => exact corresponds_lead hblank text
  | trail hblank => exact corresponds_trail hblank text none
  | @respace rest gap before l h hbefore hl hgap hblank =>
    rw [h.lex_eq, h.lex_respaced hgap hblank]
    have hadjacent : l.isAdjacent = { l with gap }.isAdjacent :=
      (List.isEmpty_eq_false_iff.2 hl).trans (List.isEmpty_eq_false_iff.2 hgap).symm
    refine .append_left before (fun _ => ?_) none
    exact .cons (l.sameAs_respaced gap) (fun _ _ _ => hadjacent) (.refl _ _)
  | @separate rest gap before m l h hl hglued hgap hblank =>
    rw [h.lex_eq, h.lex_respaced hgap hblank, List.append_assoc, List.append_assoc]
    refine .append_left before (fun _ => ?_) none
    refine .cons (.refl m) (fun _ _ _ => rfl) (.cons (l.sameAs_respaced gap) ?_ (.refl _ _))
    rintro _ ⟨⟩ htouch
    rw [hglued] at htouch
    cases htouch
  | @recase rest before l head h hl hhead =>
    rw [h.lex_eq, h.lex_recased hl hhead]
    have hvalue : l.kind ≠ .integer := by rcases hl with hl | hl | hl <;> simp [hl]
    have hname : l.kind ≠ .formula := by rcases hl with hl | hl | hl <;> simp [hl]
    refine .append_left before (fun _ => ?_) none
    exact .cons ⟨rfl, fun h => absurd h hvalue, fun h => absurd h hname⟩ (fun _ _ _ => rfl)
      (.refl _ _)

end

/-- A text is read as the same however often its blanks and the case of its letters are changed where
they do not matter. -/
theorem parse_respelled {S : Type} [FormulaStore S] (formulas : S) (limits : Limits)
    {text text' : String} (h : Relation.ReflTransGen Respelled text.toList text'.toList) (p : Postfix) :
    parse formulas limits text = .ok p ↔ parse formulas limits text' = .ok p := by
  generalize hcs : text'.toList = cs at h
  induction h generalizing text' with
  | refl => rw [String.toList_injective hcs]
  | @tail between cs _ hstep ih =>
    have hfirst : parse formulas limits text = .ok p ↔
        parse formulas limits (String.ofList between) = .ok p := ih String.toList_ofList
    have hsame := hstep.corresponds
    rw [← hcs, ← String.toList_ofList (l := between)] at hsame
    exact hfirst.trans ⟨parse_of_corresponds hsame, parse_of_corresponds hsame.symm⟩

theorem parse_respelled_inGroup :
    Relation.ReflTransGen Respelled "2(D6+1)".toList "2(d6 +1)\t".toList ∧
      parse Formulas.empty {} "2(d6 +1)\t" =
        .ok (.single (.group (.literal 2) (.cons (.dice (.literal 1) 6 .all)
          (.cons (.literal 1) (.single (.operator .add)))))) := by
  have hfirst : LexemeIn "2(D6+1)".toList [⟨[], .integer, '2', []⟩, ⟨[], .openParen, '(', []⟩]
      ⟨[], .die, 'D', []⟩ "6+1)".toList := ⟨by decide +kernel, by decide +kernel⟩
  have hsecond : LexemeIn "2(d6+1)".toList
      ([⟨[], .integer, '2', []⟩, ⟨[], .openParen, '(', []⟩, ⟨[], .die, 'd', []⟩] ++
        [⟨[], .integer, '6', []⟩])
      ⟨[], .operator .add, '+', []⟩ "1)".toList := ⟨by decide +kernel, by decide +kernel⟩
  have hsmall : Respelled "2(D6+1)".toList "2(d6+1)".toList := by
    convert Respelled.recase hfirst (.inl rfl) (.inl rfl) using 1
    decide +kernel
  have hspaces : ∀ c ∈ [' '], isBlank c = true := List.forall_mem_singleton.2 rfl
  have htabs : ∀ c ∈ ['\t'], isBlank c = true := List.forall_mem_singleton.2 rfl
  have hspace : Respelled "2(d6+1)".toList "2(d6 +1)".toList := by
    convert Respelled.separate hsecond rfl rfl (List.cons_ne_nil _ _) hspaces using 1
    decide +kernel
  have htab : Respelled "2(d6 +1)".toList "2(d6 +1)\t".toList := by
    convert Respelled.trail htabs using 1
    decide +kernel
  have hsteps := ((Relation.ReflTransGen.single hsmall).tail hspace).tail htab
  exact ⟨hsteps, (parse_respelled Formulas.empty {} hsteps _).1 (by decide +kernel)⟩

end DiceExpr
