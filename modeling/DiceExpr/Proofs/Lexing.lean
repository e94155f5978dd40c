import Mathlib.Data.List.TakeWhile
import DiceExpr.Lexeme

/-!
# Lexemes by longest match

The texts that each kind of lexeme has are given on their own, apart from the way lexemes are cut
off. Lexing is then longest match: after the blanks, the longest text of some kind is the next lexeme.
A lexeme depends on what follows it only in so far as a digit would prolong an integer and anything
would prolong an unclosed bracket, so a text may be exchanged after lexemes without changing them.

## Main statements

* `next?_eq_some_iff`: the first lexeme of a text, by its text and by what may follow it.
* `lexes_iff`: lexing is longest match.
* `lex_append`: lexemes stay the same when what follows them is exchanged.
* `lex_between`: a text that is cut off at a lexeme keeps the lexemes before it.
* `IsLexed.lex_before`: so does a text that is cut out between two lexemes.
* `lex_operator`, `lex_number`: operators and numbers in decimal are single lexemes.
-/

namespace DiceExpr

namespace Lexeme

/-- A character that no lexeme of another kind starts with, and that is no blank. -/
def StartsNothing (c : Char) : Prop :=
  isBlank c = false ∧ c.isDigit = false ∧
    c ∉ ['d', 'D', 'h', 'H', 'l', 'L', '+', '-', '*', '/', '(', ')', '[']

/-- The texts that lexemes of a kind have. -/
def Kind.Matches : Kind → List Char → Prop
  | integer, text => text ≠ [] ∧ ∀ c ∈ text, c.isDigit = true
  | die, text => text = ['d'] ∨ text = ['D']
  | highest, text => text = ['h'] ∨ text = ['H']
  | lowest, text => text = ['l'] ∨ text = ['L']
  | operator op, text => text = [op.symbol]
  | openParen, text => text = ['(']
  | closeParen, text => text = [')']
  | formula, text => ∃ name, text = '[' :: (name ++ [']']) ∧ ']' ∉ name
  | unclosedBracket, text => ∃ name, text = '[' :: name ∧ ']' ∉ name
  | unknown, text => ∃ c, text = [c] ∧ StartsNothing c

/-- What may come right after a lexeme of a kind without prolonging it. -/
def Kind.Ends : Kind → List Char → Prop
  | integer, rest => ∀ c, rest.head? = some c → c.isDigit = false
  | unclosedBracket, rest => rest = []
  | _, _ => True

/-! ### The texts of a kind -/

theorem mem_isNameChar {name : List Char} (h : ']' ∉ name) : ∀ c ∈ name, isNameChar c = true := by
  intro c hc
  have hne : c ≠ ']' := fun e => h (e ▸ hc)
  simp [isNameChar, hne]

theorem not_mem_takeWhile_isNameChar (cs : List Char) : ']' ∉ cs.takeWhile isNameChar := by
  intro h
  have hname := List.all_eq_true.1 (List.all_takeWhile (l := cs) (p := isNameChar)) ']' h
  simp [isNameChar] at hname

theorem Kind.Matches.not_blank {kind : Kind} {c : Char} {cs : List Char}
    (h : kind.Matches (c :: cs)) : isBlank c = false := by
  cases kind with
  | integer =>
    have hd := h.2 c List.mem_cons_self
    cases hb : isBlank c with
    | false => rfl
    | true =>
      simp only [isBlank, Bool.or_eq_true, decide_eq_true_eq] at hb
      rcases hb with rfl | rfl <;> simp at hd
  | die => rcases h with h | h <;> cases h <;> rfl
  | highest => rcases h with h | h <;> cases h <;> rfl
  | lowest => rcases h with h | h <;> cases h <;> rfl
  | operator op => cases op <;> cases h <;> rfl
  | openParen => cases h; rfl
  | closeParen => cases h; rfl
  | formula => obtain ⟨name, e, -⟩ := h; cases e; rfl
  | unclosedBracket => obtain ⟨name, e, -⟩ := h; cases e; rfl
  | unknown => obtain ⟨d, e, hd⟩ := h; cases e; exact hd.1

theorem Kind.matches_ofChar {c : Char} (hb : isBlank c = false) (hd : c.isDigit = false)
    (ho : c ≠ '[') : (Kind.ofChar c).Matches [c] := by
  unfold Kind.ofChar
  split
  case h_13 =>
    refine ⟨c, rfl, hb, hd, ?_⟩
    simp_all
  all_goals simp [Kind.Matches, Operator.symbol]

theorem Kind.ofChar_eq_unknown {c : Char} (h : StartsNothing c) : Kind.ofChar c = .unknown := by
  have hc := h.2.2
  unfold Kind.ofChar
  split <;> simp_all

theorem Kind.Matches.of_two {kind : Kind} {c d : Char} {cs : List Char}
    (h : kind.Matches (c :: d :: cs)) :
    (kind = .integer ∧ ∀ x ∈ c :: d :: cs, x.isDigit = true) ∨
      (c = '[' ∧ ']' ∉ (d :: cs).dropLast) := by
  cases kind with
  | integer => exact .inl ⟨rfl, h.2⟩
  | formula =>
    obtain ⟨name, e, hname⟩ := h
    simp only [List.cons.injEq] at e
    refine .inr ⟨e.1, ?_⟩
    rw [e.2, List.dropLast_concat]
    exact hname
  | unclosedBracket =>
    obtain ⟨name, e, hname⟩ := h
    simp only [List.cons.injEq] at e
    refine .inr ⟨e.1, ?_⟩
    rw [e.2]
    exact fun hmem => hname (List.dropLast_subset _ hmem)
  | die => simp [Kind.Matches] at h
  | highest => simp [Kind.Matches] at h
  | lowest => simp [Kind.Matches] at h
  | operator op => simp [Kind.Matches] at h
  | openParen => simp [Kind.Matches] at h
  | closeParen => simp [Kind.Matches] at h
  | unknown => simp [Kind.Matches] at h

/-- Nothing longer starts with a character that is neither a digit nor a bracket. -/
theorem Kind.not_matches_of_single {kind : Kind} {c d : Char} {cs : List Char}
    (hc : c.isDigit = false) (ho : c ≠ '[') : ¬kind.Matches ([c] ++ d :: cs) := by
  intro h
  rcases h.of_two with ⟨-, hall⟩ | ⟨e, -⟩
  · have hdigit := hall c List.mem_cons_self
    simp [hc] at hdigit
  · exact ho e

theorem Kind.not_matches_of_digits {kind : Kind} {text more : List Char} {d : Char}
    (h : Kind.integer.Matches text) (hd : d.isDigit = false) :
    ¬kind.Matches (text ++ d :: more) := by
  intro hkind
  obtain ⟨hne, hall⟩ := h
  cases text with
  | nil => exact hne rfl
  | cons c cs =>
    have hc := hall c List.mem_cons_self
    obtain ⟨x, xs, e⟩ : ∃ x xs, cs ++ d :: more = x :: xs := by cases cs <;> simp
    rw [List.cons_append, e] at hkind
    rcases hkind.of_two with ⟨-, hdigits⟩ | ⟨hbracket, -⟩
    · have hmem : d ∈ c :: x :: xs := by
        rw [← e]
        simp
      simp [hdigits d hmem] at hd
    · simp [hbracket] at hc

theorem Kind.not_matches_of_formula {kind : Kind} {text more : List Char} {d : Char}
    (h : Kind.formula.Matches text) : ¬kind.Matches (text ++ d :: more) := by
  intro hkind
  obtain ⟨name, rfl, -⟩ := h
  obtain ⟨x, xs, e⟩ : ∃ x xs, name ++ [']'] ++ d :: more = x :: xs := by cases name <;> simp
  rw [List.cons_append, e] at hkind
  rcases hkind.of_two with ⟨-, hdigits⟩ | ⟨-, hclosed⟩
  · have hbracket := hdigits '[' List.mem_cons_self
    simp at hbracket
  · apply hclosed
    rw [← e, List.append_assoc, List.dropLast_append_of_ne_nil (by simp)]
    simp

theorem Kind.Matches.eq_nil_of_append {kind other : Kind} {text more rest : List Char}
    (h : kind.Matches text) (hends : kind.Ends rest) (hother : other.Matches (text ++ more))
    (hmore : more <+: rest) : more = [] := by
  cases more with
  | nil => rfl
  | cons d more =>
    exfalso
    have hhead : rest.head? = some d := by
      obtain ⟨after, e⟩ := hmore
      rw [← e]
      rfl
    cases kind with
    | integer => exact not_matches_of_digits h (hends d hhead) hother
    | formula => exact not_matches_of_formula h hother
    | unclosedBracket =>
      obtain rfl : rest = [] := hends
      cases hhead
    | die => rcases h with rfl | rfl <;> exact not_matches_of_single rfl (by decide) hother
    | highest => rcases h with rfl | rfl <;> exact not_matches_of_single rfl (by decide) hother
    | lowest => rcases h with rfl | rfl <;> exact not_matches_of_single rfl (by decide) hother
    | operator op =>
      cases h
      cases op <;> exact not_matches_of_single rfl (by decide) hother
    | openParen => cases h; exact not_matches_of_single rfl (by decide) hother
    | closeParen => cases h; exact not_matches_of_single rfl (by decide) hother
    | unknown =>
      obtain ⟨c, rfl, hc⟩ := h
      have ho : c ≠ '[' := fun e => hc.2.2 (by simp [e])
      exact not_matches_of_single hc.2.1 ho hother

theorem not_matches_of_longest {text more : List Char} {c : Char}
    (hlongest : ∀ (kind : Kind) (longer : List Char),
      kind.Matches longer → longer <+: text ++ c :: more → longer.length ≤ text.length)
    (kind : Kind) : ¬kind.Matches (text ++ [c]) := by
  intro h
  have hle := hlongest kind _ h ⟨more, by simp⟩
  simp only [List.length_append, List.length_singleton] at hle
  omega

theorem Kind.ends_of_longest {kind : Kind} {text rest : List Char} (h : kind.Matches text)
    (hlongest : ∀ (other : Kind) (longer : List Char),
      other.Matches longer → longer <+: text ++ rest → longer.length ≤ text.length) :
    kind.Ends rest := by
  cases rest with
  | nil =>
    cases kind with
    | integer => simp [Ends]
    | unclosedBracket => rfl
    | _ => trivial
  | cons c more =>
    have hnot := not_matches_of_longest hlongest
    cases kind with
    | integer =>
      intro c' hc'
      cases hc'
      cases hd : c.isDigit with
      | false => rfl
      | true =>
        refine absurd ⟨by simp, ?_⟩ (hnot .integer)
        intro x hx
        rcases List.mem_append.1 hx with hx | hx
        · exact h.2 x hx
        · rw [List.mem_singleton.1 hx]
          exact hd
    | unclosedBracket =>
      exfalso
      obtain ⟨name, rfl, hname⟩ := h
      by_cases hc : c = ']'
      · subst hc
        exact hnot .formula ⟨name, rfl, hname⟩
      · exact hnot .unclosedBracket ⟨name ++ [c], rfl, by simp [hname, Ne.symm hc]⟩
    | _ => trivial

/-- A lexeme ends where it may just when no kind has a longer text there. -/
theorem Kind.ends_iff {kind : Kind} {text rest : List Char} (h : kind.Matches text) :
    kind.Ends rest ↔ ∀ (other : Kind) (longer : List Char),
      other.Matches longer → longer <+: text ++ rest → longer.length ≤ text.length := by
  refine ⟨?_, ends_of_longest h⟩
  intro hends other longer hother hprefix
  rcases Nat.lt_or_ge text.length longer.length with hlt | hge
  · have hle : text.length ≤ longer.length := by omega
    obtain ⟨more, rfl⟩ :=
      List.prefix_of_prefix_length_le (List.prefix_append text rest) hprefix hle
    have hmore : more <+: rest := (List.prefix_append_right_inj text).1 hprefix
    have hnil := h.eq_nil_of_append hends hother hmore
    simp [hnil] at hlt
  · exact hge

/-! ### The first lexeme -/

theorem eq_false_of_dropWhile {p : Char → Bool} {cs rest : List Char} {c : Char}
    (h : cs.dropWhile p = c :: rest) : p c = false := by
  have hhead := List.head?_dropWhile_not p cs
  rw [h] at hhead
  exact hhead

theorem span_append {p : Char → Bool} {run : List Char} (rest : List Char) (hrun : ∀ c ∈ run, p c = true)
    (hrest : ∀ c, rest.head? = some c → p c = false) :
    (run ++ rest).takeWhile p = run ∧ (run ++ rest).dropWhile p = rest := by
  rw [List.takeWhile_append_of_pos hrun, List.dropWhile_append_of_pos hrun]
  cases rest with
  | nil => simp
  | cons c cs => simp [hrest c rfl]

theorem matches_cut (gap : List Char) {c : Char} (cs : List Char) (hb : isBlank c = false) :
    (cut gap c cs).1.kind.Matches (cut gap c cs).1.text ∧
      (cut gap c cs).1.kind.Ends (cut gap c cs).2 := by
  simp only [cut]
  split
  · next hd =>
    refine ⟨⟨by simp [text], ?_⟩, ?_⟩
    · intro x hx
      rcases List.mem_cons.1 hx with rfl | hx
      · exact hd
      · exact List.all_eq_true.1 List.all_takeWhile x hx
    · intro x hx
      obtain ⟨rest, hrest⟩ := List.head?_eq_some_iff.1 hx
      exact eq_false_of_dropWhile hrest
  · next hd =>
    split
    · next ho =>
      subst ho
      have hname := not_mem_takeWhile_isNameChar cs
      have hwhole := List.takeWhile_append_dropWhile (p := isNameChar) (l := cs)
      split
      · next hw =>
        rw [hw, List.append_nil] at hwhole
        rw [hwhole] at hname
        exact ⟨⟨cs, rfl, hname⟩, rfl⟩
      · next close rest hw =>
        have hclose : close = ']' := by
          have := eq_false_of_dropWhile hw
          simpa [isNameChar] using this
        subst hclose
        exact ⟨⟨_, rfl, hname⟩, trivial⟩
    · next ho =>
      have hd' : c.isDigit = false := by simpa using hd
      refine ⟨Kind.matches_ofChar hb hd' ho, ?_⟩
      unfold Kind.ofChar
      split <;> trivial

theorem cut_of_matches {l : Lexeme} {rest : List Char} (h : l.kind.Matches l.text)
    (hends : l.kind.Ends rest) : cut l.gap l.head (l.tail ++ rest) = (l, rest) := by
  obtain ⟨gap, kind, head, tail⟩ := l
  cases kind with
  | integer =>
    have hhead : head.isDigit = true := h.2 head List.mem_cons_self
    have htail : ∀ c ∈ tail, c.isDigit = true := fun c hc => h.2 c (List.mem_cons_of_mem _ hc)
    obtain ⟨htake, hdrop⟩ := span_append rest htail hends
    simp only [cut, hhead, htake, hdrop, ↓reduceIte]
  | formula =>
    obtain ⟨name, e, hname⟩ := h
    obtain ⟨rfl, rfl⟩ : head = '[' ∧ tail = name ++ [']'] := by simpa [text] using e
    have hspan := span_append (']' :: rest) (mem_isNameChar hname) (by simp [isNameChar])
    simp [cut, hspan.1, hspan.2]
  | unclosedBracket =>
    obtain ⟨name, e, hname⟩ := h
    obtain ⟨rfl, rfl⟩ : head = '[' ∧ tail = name := by simpa [text] using e
    obtain rfl : rest = [] := hends
    have hspan := span_append [] (mem_isNameChar hname) (by simp)
    rw [List.append_nil] at hspan
    simp [cut, hspan.2]
  | unknown =>
    obtain ⟨c, e, hc⟩ := h
    obtain ⟨rfl, rfl⟩ : head = c ∧ tail = [] := by simpa [text] using e
    have ho : head ≠ '[' := fun e => hc.2.2 (by simp [e])
    simp [cut, hc.2.1, ho, Kind.ofChar_eq_unknown hc]
  | die => rcases h with h | h <;> cases h <;> rfl
  | highest => rcases h with h | h <;> cases h <;> rfl
  | lowest => rcases h with h | h <;> cases h <;> rfl
  | operator op => cases op <;> cases h <;> rfl
  | openParen => cases h; rfl
  | closeParen => cases h; rfl

theorem next?_eq_some_iff {cs rest : List Char} {l : Lexeme} :
    next? cs = some (l, rest) ↔
      cs = l.source ++ rest ∧ (∀ c ∈ l.gap, isBlank c = true) ∧ l.kind.Matches l.text ∧
        l.kind.Ends rest := by
  constructor
  · intro h
    refine ⟨(source_next? h).symm, ?_⟩
    simp only [next?] at h
    split at h
    · simp at h
    · next c ds hd =>
      have hb := eq_false_of_dropWhile hd
      have hm := matches_cut (cs.takeWhile isBlank) ds hb
      have hgap := gap_cut (cs.takeWhile isBlank) c ds
      rw [Option.some.inj h] at hm hgap
      refine ⟨?_, hm⟩
      simp only at hgap
      rw [hgap]
      exact List.all_eq_true.1 List.all_takeWhile
  · rintro ⟨rfl, hgap, hm, hends⟩
    have hb : isBlank l.head = false := hm.not_blank
    have hspan := span_append (l.head :: (l.tail ++ rest)) hgap (by simp [hb])
    have e : l.source ++ rest = l.gap ++ l.head :: (l.tail ++ rest) := by simp [source, text]
    rw [e]
    simp only [next?, hspan.1, hspan.2, cut_of_matches hm hends]

theorem next?_eq_none_iff {cs : List Char} : next? cs = none ↔ ∀ c ∈ cs, isBlank c = true := by
  rw [← List.dropWhile_eq_nil_iff]
  simp only [next?]
  split
  · next h => simp [h]
  · next h => simp [h]

end Lexeme

/-! ### All lexemes -/

open Lexeme

theorem lex_of_next? {text rest : List Char} {l : Lexeme} (h : next? text = some (l, rest)) :
    lex text = l :: lex rest := by
  rw [lex]
  split
  · next hn => simp [hn] at h
  · next l' rest' hn =>
    rw [hn] at h
    cases h
    rfl

theorem lex_eq_nil_iff {text : List Char} : lex text = [] ↔ ∀ c ∈ text, isBlank c = true := by
  rw [← next?_eq_none_iff, lex]
  split
  · next h => simp [h]
  · next h => simp [h]

theorem lex_nil : lex [] = [] := lex_eq_nil_iff.2 (List.forall_mem_nil _)

theorem lex_eq_cons_iff {text : List Char} {l : Lexeme} {ls : List Lexeme} :
    lex text = l :: ls ↔ ∃ rest, next? text = some (l, rest) ∧ lex rest = ls := by
  constructor
  · intro h
    cases hn : next? text with
    | none =>
      rw [lex_eq_nil_iff.2 (next?_eq_none_iff.1 hn)] at h
      cases h
    | some r =>
      rw [lex_of_next? hn] at h
      cases h
      exact ⟨r.2, rfl, rfl⟩
  · rintro ⟨rest, hn, rfl⟩
    exact lex_of_next? hn

/-- The lexemes of a text by longest match: blanks are dropped, and the longest text of some kind is
the next lexeme. -/
inductive Lexes : List Char → List Lexeme → Prop
  | nil {blanks : List Char} (h : ∀ c ∈ blanks, isBlank c = true) : Lexes blanks []
  | cons {l : Lexeme} {rest : List Char} {ls : List Lexeme} (gap : ∀ c ∈ l.gap, isBlank c = true)
      (matched : l.kind.Matches l.text)
      (longest : ∀ (kind : Kind) (longer : List Char), kind.Matches longer →
        longer <+: l.text ++ rest → longer.length ≤ l.text.length)
      (more : Lexes rest ls) : Lexes (l.source ++ rest) (l :: ls)

theorem lexes_iff {text : List Char} {ls : List Lexeme} : Lexes text ls ↔ lex text = ls := by
  constructor
  · intro h
    induction h with
    | nil h => exact lex_eq_nil_iff.2 h
    | cons gap matched longest _ ih =>
      refine lex_eq_cons_iff.2 ⟨_, ?_, ih⟩
      exact next?_eq_some_iff.2 ⟨rfl, gap, matched, (Kind.ends_iff matched).2 longest⟩
  · intro h
    induction ls generalizing text with
    | nil => exact .nil (lex_eq_nil_iff.1 h)
    | cons l ls ih =>
      obtain ⟨rest, hn, hrest⟩ := lex_eq_cons_iff.1 h
      obtain ⟨rfl, gap, matched, ends⟩ := next?_eq_some_iff.1 hn
      exact .cons gap matched ((Kind.ends_iff matched).1 ends) (ih hrest)

/-! ### Exchanging what follows -/

theorem exists_rest_of_lex {text : List Char} {ls more : List Lexeme} (h : lex text = ls ++ more) :
    ∃ rest, text = ls.flatMap source ++ rest ∧ lex rest = more := by
  induction ls generalizing text with
  | nil => exact ⟨text, rfl, h⟩
  | cons l ls ih =>
    obtain ⟨rest, hn, hrest⟩ := lex_eq_cons_iff.1 h
    obtain ⟨after, rfl, hafter⟩ := ih hrest
    refine ⟨after, ?_, hafter⟩
    rw [List.flatMap_cons, List.append_assoc]
    exact (source_next? hn).symm

theorem eq_nil_of_unclosedBracket {text : List Char} {ls more : List Lexeme} {l : Lexeme}
    (h : lex text = ls ++ l :: more) (hl : l.kind = .unclosedBracket) : more = [] := by
  obtain ⟨rest, -, hrest⟩ := exists_rest_of_lex h
  obtain ⟨after, hn, hafter⟩ := lex_eq_cons_iff.1 hrest
  have hends := (next?_eq_some_iff.1 hn).2.2.2
  rw [hl] at hends
  obtain rfl : after = [] := hends
  rw [← hafter]
  exact lex_eq_nil_iff.2 (by simp)

/-- Lexemes stay the same when what follows them is exchanged, unless a digit comes after them or
they hold an unclosed bracket. -/
theorem lex_append {ls : List Lexeme} {rest other : List Char}
    (h : lex (ls.flatMap source ++ rest) = ls ++ lex rest)
    (hopen : ∀ l ∈ ls, l.kind ≠ .unclosedBracket)
    (hdigit : ∀ c, other.head? = some c → c.isDigit = false) :
    lex (ls.flatMap source ++ other) = ls ++ lex other := by
  induction ls with
  | nil => rfl
  | cons l ls ih =>
    rw [List.flatMap_cons, List.append_assoc, List.cons_append] at h ⊢
    obtain ⟨after, hn, hafter⟩ := lex_eq_cons_iff.1 h
    obtain ⟨heq, gap, matched, ends⟩ := next?_eq_some_iff.1 hn
    obtain rfl : after = ls.flatMap source ++ rest := (List.append_cancel_left heq).symm
    have hls := ih hafter fun m hm => hopen m (List.mem_cons_of_mem _ hm)
    refine lex_eq_cons_iff.2 ⟨_, next?_eq_some_iff.2 ⟨rfl, gap, matched, ?_⟩, hls⟩
    have hl := hopen l List.mem_cons_self
    cases hk : l.kind with
    | unclosedBracket => exact absurd hk hl
    | integer =>
      rw [hk] at ends
      intro c hc
      cases ls with
      | nil => exact hdigit c hc
      | cons m ms =>
        -- What follows `l` starts with `m` either way.
        apply ends c
        rw [← hc]
        simp [source, text, List.head?_append]
    | _ => trivial

theorem isDigit_of_isBlank {c : Char} (h : isBlank c = true) : c.isDigit = false := by
  simp only [isBlank, Bool.or_eq_true, decide_eq_true_eq] at h
  rcases h with rfl | rfl <;> rfl

theorem isBlank_gap {text : List Char} {ls more : List Lexeme} {l : Lexeme}
    (h : lex text = ls ++ l :: more) : ∀ c ∈ l.gap, isBlank c = true := by
  obtain ⟨rest, -, hrest⟩ := exists_rest_of_lex h
  obtain ⟨after, hn, -⟩ := lex_eq_cons_iff.1 hrest
  exact (next?_eq_some_iff.1 hn).2.1

theorem ne_unclosedBracket {text : List Char} {ls more : List Lexeme} (h : lex text = ls ++ more)
    (hmore : more ≠ []) : ∀ l ∈ ls, l.kind ≠ .unclosedBracket := by
  intro l hl hk
  obtain ⟨before, after, rfl⟩ := List.append_of_mem hl
  rw [List.append_assoc, List.cons_append] at h
  have hnil := eq_nil_of_unclosedBracket h hk
  exact hmore (List.append_eq_nil_iff.1 hnil).2

/-- A text that is cut off at a lexeme keeps the lexemes before it. The blanks before that lexeme may
stay. -/
theorem lex_between {text : List Char} {ls more : List Lexeme} {l : Lexeme}
    (h : lex text = ls ++ l :: more) : lex (ls.flatMap source ++ l.gap) = ls := by
  obtain ⟨rest, rfl, hrest⟩ := exists_rest_of_lex h
  have hgap := isBlank_gap h
  rw [← hrest] at h
  have hopen := ne_unclosedBracket h (by simp [hrest])
  have hnil : lex l.gap = [] := lex_eq_nil_iff.2 hgap
  rw [lex_append h hopen, hnil, List.append_nil]
  intro c hc
  exact isDigit_of_isBlank (hgap c (List.mem_of_mem_head? hc))

/-! ### Operators and numbers -/

theorem lex_operator {gap : List Char} (h : ∀ c ∈ gap, isBlank c = true) (op : Operator)
    (rest : List Char) :
    lex (gap ++ op.symbol :: rest) = ⟨gap, .operator op, op.symbol, []⟩ :: lex rest := by
  apply lex_of_next?
  exact next?_eq_some_iff.2 ⟨by simp [source, text], h, rfl, trivial⟩

/-- A number in decimal is a single lexeme, which has its value and the blanks before it. -/
theorem lex_number {gap : List Char} (h : ∀ c ∈ gap, isBlank c = true) (n : Nat) {rest : List Char}
    (hrest : ∀ c, rest.head? = some c → c.isDigit = false) :
    ∃ l, l.gap = gap ∧ l.kind = .integer ∧ l.value = n ∧
      lex (gap ++ ((toString n).toList ++ rest)) = l :: lex rest := by
  have hdigits : (toString n).toList = Nat.toDigits 10 n := by simp
  obtain ⟨c, cs, hcons⟩ := List.exists_cons_of_ne_nil (Nat.toDigits_ne_nil (n := n) (b := 10))
  have htext : (Lexeme.mk gap .integer c cs).text = Nat.toDigits 10 n := hcons.symm
  refine ⟨⟨gap, .integer, c, cs⟩, rfl, rfl, ?_,
    lex_of_next? (next?_eq_some_iff.2 ⟨?_, h, ?_, hrest⟩)⟩
  · rw [value, htext]
    exact Nat.ofDigitChars_ten_toDigits
  · rw [source, htext, hdigits, List.append_assoc]
  · rw [htext]
    refine ⟨Nat.toDigits_ne_nil, fun d hd => ?_⟩
    exact Nat.isDigit_of_mem_toDigits (by decide) (by decide) hd

/-! ### The ends of lexed texts -/

/-- Lexemes that some text ends with. -/
def IsLexed (ls : List Lexeme) : Prop := ∃ text before, lex text = before ++ ls

theorem isLexed_lex (text : List Char) : IsLexed (lex text) := ⟨text, [], rfl⟩

theorem IsLexed.of_append {used ls : List Lexeme} (h : IsLexed (used ++ ls)) : IsLexed ls := by
  obtain ⟨text, before, hlex⟩ := h
  exact ⟨text, before ++ used, by rw [hlex, List.append_assoc]⟩

theorem IsLexed.of_cons {l : Lexeme} {ls : List Lexeme} (h : IsLexed (l :: ls)) : IsLexed ls :=
  of_append (show IsLexed ([l] ++ ls) from h)

/-- A text that is cut out before a lexeme keeps the lexemes in it. -/
theorem IsLexed.lex_before {ls more : List Lexeme} {l : Lexeme} (h : IsLexed (ls ++ l :: more)) :
    lex (ls.flatMap source ++ l.gap) = ls := by
  obtain ⟨text, before, hlex⟩ := h
  obtain ⟨after, -, hafter⟩ := exists_rest_of_lex hlex
  exact lex_between hafter

theorem IsLexed.before {ls more : List Lexeme} {l : Lexeme} (h : IsLexed (ls ++ l :: more)) :
    IsLexed ls := ⟨_, [], h.lex_before⟩

end DiceExpr
