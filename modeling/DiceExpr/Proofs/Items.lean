import DiceExpr.Proofs.Grammar
import DiceExpr.Proofs.Grouping

/-!
# Items among lexemes

Which item stands at the front of lexemes is said without reading: by the kinds of the first lexemes,
by the derivation of a keep rule, and by counting parentheses. Reading finds the item that stands there
and goes on after it, or finds a fault.

## Main statements

* `read_of_stands`, `stands_of_read`: reading finds the items that stand there.
* `stands_of_mem_read`: the same of any item of a text.
-/

namespace DiceExpr

/-- An error about a formula that is not there or that comes up in itself. -/
def ParseError.IsOfFormula (e : ParseError) : Prop :=
  ∃ name, e = .unknownFormula name ∨ e = .selfReferentialFormula name

/-- An error about lexemes that make up no item. -/
inductive ParseError.IsOfItem : ParseError → Prop
  | invalidSymbol (symbol : Char) : IsOfItem (.invalidSymbol symbol)
  | mismatchedParentheses : IsOfItem .mismatchedParentheses
  | mismatchedBrackets : IsOfItem .mismatchedBrackets
  | missingDieType : IsOfItem .missingDieType
  | invalidDieExtension (letter : Char) : IsOfItem (.invalidDieExtension letter)
  | tooManyDice (count : Nat) : IsOfItem (.tooManyDice count)
  | tooManySides (sides : Nat) : IsOfItem (.tooManySides sides)

namespace Item

open Lexeme

variable {limits : Limits} {ls rest : List Lexeme} {l : Lexeme}

/-! ### Keep rules -/

theorem readKeepCount_eq_ok_iff {n : Nat} :
    readKeepCount limits ls = .ok (n, rest) ↔ DerivesCount limits ls n rest := by
  constructor
  · intro h
    cases ls with
    | nil =>
      cases h
      exact .one (by simp)
    | cons l ls =>
      simp only [readKeepCount] at h
      split at h
      · next hl =>
        split at h
        · next hle =>
          cases h
          exact .given hl.1 hl.2 hle
        · cases h
      · next hl =>
        cases h
        refine .one fun l' hl' hadjacent hkind => ?_
        cases hl'
        exact hl ⟨hadjacent, hkind⟩
  · intro h
    cases h with
    | one none =>
      cases ls with
      | nil => rfl
      | cons l ls =>
        have hl : ¬(l.isAdjacent = true ∧ l.kind = .integer) := fun h => none l rfl h.1 h.2
        simp only [readKeepCount, hl, ↓reduceIte]
    | given adjacent kind le => simp only [readKeepCount, adjacent, kind, le, and_self, ↓reduceIte]

theorem derivesKeep_of_readKeep {keep : Keep} (h : readKeep limits ls = .ok (keep, rest)) :
    DerivesKeep limits ls keep rest := by
  cases ls with
  | nil =>
    cases h
    exact .all (by simp)
  | cons l ls =>
    have counted {f : Nat → Keep} (h : (readKeepCount limits ls).map
        (fun r => (f r.1, r.2)) = .ok (keep, rest)) :
        ∃ n, keep = f n ∧ DerivesCount limits ls n rest := by
      cases hc : readKeepCount limits ls with
      | error e =>
        rw [hc] at h
        cases h
      | ok r =>
        rw [hc] at h
        cases h
        exact ⟨r.1, rfl, readKeepCount_eq_ok_iff.1 hc⟩
    have others (hkind : l.isAdjacent = true → l.kind ≠ .highest ∧ l.kind ≠ .lowest) :
        DerivesKeep limits (l :: ls) .all (l :: ls) := by
      refine .all fun l' hl' => ?_
      cases hl'
      exact hkind
    simp only [readKeep] at h
    split at h
    · next hl =>
      split at h
      · next hk =>
        obtain ⟨n, rfl, hn⟩ := counted h
        exact .highest hl hk hn
      · next hk =>
        obtain ⟨n, rfl, hn⟩ := counted h
        exact .lowest hl hk hn
      · next hk =>
        split at h
        · cases h
        · cases h
          exact others fun _ => by simp [hk]
      · next hh hlo _ =>
        cases h
        exact others fun _ => ⟨hh, hlo⟩
    · next hl =>
      cases h
      exact others fun hl' => absurd hl' hl

/-- A keep rule is read where it is derived, unless a letter without meaning comes after it. -/
theorem readKeep_of_derivesKeep {keep : Keep} (h : DerivesKeep limits ls keep rest)
    (hrest : ∀ l, rest.head? = some l → l.kind ≠ .unknown) :
    readKeep limits ls = .ok (keep, rest) := by
  cases h with
  | all none =>
    cases ls with
    | nil => rfl
    | cons l ls =>
      have hunknown := hrest l rfl
      have hnone := none l rfl
      simp only [readKeep]
      split
      · next hl =>
        obtain ⟨hh, hlo⟩ := hnone hl
        split
        · next hk => exact absurd hk hh
        · next hk => exact absurd hk hlo
        · next hk => exact absurd hk hunknown
        · rfl
      · rfl
  | highest adjacent kind count =>
    simp only [readKeep, adjacent, kind, readKeepCount_eq_ok_iff.2 count, ↓reduceIte]
    rfl
  | lowest adjacent kind count =>
    simp only [readKeep, adjacent, kind, readKeepCount_eq_ok_iff.2 count, ↓reduceIte]
    rfl

theorem isOfItem_of_readKeep {e : ParseError} (h : readKeep limits ls = .error e) : e.IsOfItem := by
  have counted {ls : List Lexeme} {f : Nat → Keep} (h : (readKeepCount limits ls).map
      (fun r => (f r.1, r.2)) = .error e) : e.IsOfItem := by
    cases ls with
    | nil => cases h
    | cons l ls =>
      simp only [readKeepCount] at h
      split at h
      · split at h
        · cases h
        · cases h
          exact .tooManyDice _
      · cases h
  cases ls with
  | nil => cases h
  | cons l ls =>
    simp only [readKeep] at h
    split at h
    · split at h
      · exact counted h
      · exact counted h
      · split at h
        · cases h
          exact .invalidDieExtension _
        · cases h
      · cases h
    · cases h

theorem isOfItem_of_readDie {e : ParseError} (h : readDie limits ls = .error e) : e.IsOfItem := by
  cases ls with
  | nil =>
    cases h
    exact .missingDieType
  | cons l ls =>
    simp only [readDie] at h
    split at h
    · split at h
      · cases hk : readKeep limits ls with
        | error e' =>
          rw [hk] at h
          cases h
          exact isOfItem_of_readKeep hk
        | ok r =>
          rw [hk] at h
          cases h
      · cases h
        exact .tooManySides _
    · cases h
      exact .missingDieType

/-! ### Items -/

variable (limits) in
/-- The item that stands at the front of lexemes, and the lexemes after it. -/
inductive Stands : List Lexeme → Item → List Lexeme → Prop
  | operator {l : Lexeme} {ls : List Lexeme} {op : Operator} (kind : l.kind = .operator op) :
      Stands (l :: ls) (.operator op) ls
  | integer {l : Lexeme} {ls : List Lexeme} (kind : l.kind = .integer) :
      Stands (l :: ls) (.integer l.value) ls
  | die {l sides : Lexeme} {ls rest : List Lexeme} {keep : Keep} (kind : l.kind = .die)
      (adjacent : sides.isAdjacent = true) (digits : sides.kind = .integer)
      (le : sides.value ≤ limits.maxSides) (hkeep : DerivesKeep limits ls keep rest) :
      Stands (l :: sides :: ls) (.die sides.value keep) rest
  | group {l close : Lexeme} {inner rest : List Lexeme} (kind : l.kind = .openParen)
      (balanced : openAfter 0 inner = some 0) (closes : close.kind = .closeParen) :
      Stands (l :: (inner ++ close :: rest)) (.group (inner.flatMap source ++ close.gap)) rest
  | reference {l : Lexeme} {ls : List Lexeme} (kind : l.kind = .formula) :
      Stands (l :: ls) (.reference l.name) ls

theorem stands_of_readDie {n : Nat} {keep : Keep} (hk : l.kind = .die)
    (h : readDie limits ls = .ok (n, keep, rest)) : Stands limits (l :: ls) (.die n keep) rest := by
  cases ls with
  | nil => cases h
  | cons sides ls =>
    simp only [readDie] at h
    split at h
    · next hsides =>
      split at h
      · next hle =>
        cases hr : readKeep limits ls with
        | error e =>
          rw [hr] at h
          cases h
        | ok r =>
          rw [hr] at h
          cases h
          exact .die hk hsides.1 hsides.2 hle (derivesKeep_of_readKeep hr)
      · cases h
    · cases h

theorem read_die (hk : l.kind = .die) :
    read limits (l :: ls) =
      match readDie limits ls with
      | .ok (sides, keep, rest) => .die sides keep :: read limits rest
      | .error e => [.fault .die e] := by
  rw [read]
  simp only [hk]
  split
  · next hr => rw [hr]
  · next hr => rw [hr]

theorem read_openParen (hk : l.kind = .openParen) :
    read limits (l :: ls) =
      match readGroup 0 ls with
      | some (body, rest) => .group body :: read limits rest
      | none => [.fault .openParen .mismatchedParentheses] := by
  rw [read]
  simp only [hk]
  split
  · next hr => rw [hr]
  · next hr => rw [hr]

theorem read_operator {op : Operator} (hk : l.kind = .operator op) :
    read limits (l :: ls) = .operator op :: read limits ls := by
  rw [read]
  simp only [hk]

theorem read_integer (hk : l.kind = .integer) :
    read limits (l :: ls) = .integer l.value :: read limits ls := by
  rw [read]
  simp only [hk]

theorem read_formula (hk : l.kind = .formula) :
    read limits (l :: ls) = .reference l.name :: read limits ls := by
  rw [read]
  simp only [hk]

theorem Stands.exists_used {item : Item} (h : Stands limits ls item rest) :
    ∃ l used, ls = l :: (used ++ rest) := by
  cases h with
  | operator => exact ⟨_, [], rfl⟩
  | integer => exact ⟨_, [], rfl⟩
  | reference => exact ⟨_, [], rfl⟩
  | @die l sides _ _ _ _ _ _ _ hkeep =>
    obtain ⟨used, rfl⟩ := hkeep.suffix
    exact ⟨l, sides :: used, rfl⟩
  | @group l close inner _ => exact ⟨l, inner ++ [close], by simp⟩

theorem Stands.length_lt {item : Item} (h : Stands limits ls item rest) :
    rest.length < ls.length := by
  obtain ⟨l, used, rfl⟩ := h.exists_used
  simp only [List.length_cons, List.length_append]
  omega

/-- The item that stands at the front is read, unless a letter without meaning comes after it. -/
theorem read_of_stands {item : Item} (h : Stands limits ls item rest)
    (hrest : ∀ l, rest.head? = some l → l.kind ≠ .unknown) :
    read limits ls = item :: read limits rest := by
  cases h with
  | operator kind => rw [read]; simp only [kind]
  | integer kind => rw [read]; simp only [kind]
  | reference kind => rw [read]; simp only [kind]
  | die kind adjacent digits le hkeep =>
    rw [read_die kind]
    simp only [readDie, adjacent, digits, le, readKeep_of_derivesKeep hkeep hrest, and_self,
      ↓reduceIte, Except.map]
  | group kind balanced closes =>
    rw [read_openParen kind, readGroup_eq_some_iff.2 ⟨_, _, rfl, closes, balanced, rfl⟩]

/-- What is read first stands at the front, unless it is a fault, which ends the reading. -/
theorem stands_of_read {item : Item} {items : List Item} (h : read limits ls = item :: items) :
    (∃ kind e, item = .fault kind e ∧ e.IsOfItem ∧ items = []) ∨
      ∃ rest, items = read limits rest ∧ Stands limits ls item rest := by
  cases ls with
  | nil =>
    rw [read] at h
    cases h
  | cons l ls =>
    cases hk : l.kind with
    | operator op =>
      rw [read] at h
      simp only [hk] at h
      cases h
      exact .inr ⟨ls, rfl, .operator hk⟩
    | integer =>
      rw [read] at h
      simp only [hk] at h
      cases h
      exact .inr ⟨ls, rfl, .integer hk⟩
    | formula =>
      rw [read] at h
      simp only [hk] at h
      cases h
      exact .inr ⟨ls, rfl, .reference hk⟩
    | die =>
      rw [read_die hk] at h
      cases hd : readDie limits ls with
      | error e =>
        rw [hd] at h
        cases h
        exact .inl ⟨_, _, rfl, isOfItem_of_readDie hd, rfl⟩
      | ok r =>
        obtain ⟨n, keep, rest⟩ := r
        rw [hd] at h
        cases h
        exact .inr ⟨rest, rfl, stands_of_readDie hk hd⟩
    | openParen =>
      rw [read_openParen hk] at h
      cases hg : readGroup 0 ls with
      | none =>
        rw [hg] at h
        cases h
        exact .inl ⟨_, _, rfl, .mismatchedParentheses, rfl⟩
      | some r =>
        obtain ⟨body, rest⟩ := r
        rw [hg] at h
        cases h
        obtain ⟨inner, close, rfl, closes, balanced, rfl⟩ := readGroup_eq_some_iff.1 hg
        exact .inr ⟨rest, rfl, .group hk balanced closes⟩
    | closeParen =>
      rw [read] at h
      simp only [hk] at h
      cases h
      exact .inl ⟨_, _, rfl, .mismatchedParentheses, rfl⟩
    | unclosedBracket =>
      rw [read] at h
      simp only [hk] at h
      cases h
      exact .inl ⟨_, _, rfl, .mismatchedBrackets, rfl⟩
    | highest | lowest | unknown =>
      rw [read] at h
      simp only [hk] at h
      cases h
      exact .inl ⟨_, _, rfl, .invalidSymbol _, rfl⟩

theorem read_eq_nil_iff : read limits ls = [] ↔ ls = [] := by
  constructor
  · intro h
    cases ls with
    | nil => rfl
    | cons l ls =>
      rw [read] at h
      repeat' split at h
      all_goals cases h
  · rintro rfl
    rw [read]

/-- Each item that is read stands somewhere among the lexemes, unless it is a fault. -/
theorem stands_of_mem_read {ls : List Lexeme} {item : Item} (h : item ∈ read limits ls) :
    (∃ kind e, item = .fault kind e ∧ e.IsOfItem) ∨
      ∃ before here rest, ls = before ++ here ∧ Stands limits here item rest := by
  cases hr : read limits ls with
  | nil =>
    rw [hr] at h
    cases h
  | cons first items =>
    rw [hr] at h
    rcases stands_of_read hr with ⟨kind, e, rfl, he, rfl⟩ | ⟨rest, rfl, hstands⟩
    · rw [List.mem_singleton.1 h]
      exact .inl ⟨kind, e, rfl, he⟩
    · rcases List.mem_cons.1 h with rfl | h
      · exact .inr ⟨[], ls, rest, rfl, hstands⟩
      · have hlt := hstands.length_lt
        refine (stands_of_mem_read h).imp_right ?_
        rintro ⟨before, here, after, rfl, hhere⟩
        obtain ⟨l, used, rfl⟩ := hstands.exists_used
        exact ⟨l :: (used ++ before), here, after, by simp, hhere⟩
termination_by ls.length

theorem isOfItem_of_mem_read {kind : Kind} {e : ParseError}
    (h : .fault kind e ∈ read limits ls) : e.IsOfItem := by
  rcases stands_of_mem_read h with ⟨kind', e', hfault, he⟩ | ⟨before, here, rest, -, hstands⟩
  · cases hfault
    exact he
  · cases hstands

theorem not_isOfFormula_of_mem_read {kind : Kind} {e : ParseError}
    (h : .fault kind e ∈ read limits ls) : ¬e.IsOfFormula := by
  rintro ⟨name, rfl | rfl⟩
  · cases isOfItem_of_mem_read h
  · cases isOfItem_of_mem_read h

theorem ne_tooDeep_of_mem_read {kind : Kind} {e : ParseError}
    (h : .fault kind e ∈ read limits ls) (depth : Nat) : e ≠ .tooDeep depth := by
  rintro rfl
  cases isOfItem_of_mem_read h

end Item

end DiceExpr
