import DiceExpr.Item
import DiceExpr.Proofs.Lexing

/-!
# Groups by counting parentheses

A group ends at the first closing parenthesis that leaves no group open. The text of its body has just
the lexemes that stand between the two parentheses.

## Main statements

* `readGroup_eq_some_iff`: where a group ends, and the text of its body.
* `exists_close_of_openAfter`: where a group that was opened before is closed.
-/

namespace DiceExpr

open Lexeme Item

/-- How many groups are open after a lexeme when `opened` are before it, unless it closes one that was
not opened. -/
def Lexeme.Kind.opens : Kind → Nat → Option Nat
  | closeParen, 0 => none
  | closeParen, opened + 1 => some opened
  | openParen, opened => some (opened + 1)
  | _, opened => some opened

/-- How many groups are open after lexemes when `opened` are before them, unless one is closed that was
not opened. -/
def openAfter (opened : Nat) : List Lexeme → Option Nat
  | [] => some opened
  | l :: ls => (l.kind.opens opened).bind fun opened => openAfter opened ls

/-- Lexemes that close all the groups they open and no other. -/
def Balanced (ls : List Lexeme) : Prop := ∀ opened, openAfter opened ls = some opened

theorem readGroup_cons (opened : Nat) (l : Lexeme) (ls : List Lexeme) :
    readGroup opened (l :: ls) =
      match l.kind.opens opened with
      | none => some (l.gap, ls)
      | some opened => (readGroup opened ls).map fun (body, rest) => (l.source ++ body, rest) := by
  simp only [readGroup]
  cases l.kind with
  | closeParen => cases opened <;> rfl
  | _ => rfl

theorem closeParen_of_opens {kind : Kind} {opened : Nat} (h : kind.opens opened = none) :
    kind = .closeParen ∧ opened = 0 := by
  cases kind with
  | closeParen =>
    cases opened with
    | zero => exact ⟨rfl, rfl⟩
    | succ opened => simp [Kind.opens] at h
  | _ => simp [Kind.opens] at h

theorem openAfter_append (opened : Nat) (ls more : List Lexeme) :
    openAfter opened (ls ++ more) =
      (openAfter opened ls).bind fun opened => openAfter opened more := by
  induction ls generalizing opened with
  | nil => rfl
  | cons l ls ih =>
    simp only [List.cons_append, openAfter]
    cases l.kind.opens opened with
    | none => rfl
    | some n => exact ih n

theorem readGroup_append {opened after : Nat} {ls : List Lexeme}
    (h : openAfter opened ls = some after) (more : List Lexeme) :
    readGroup opened (ls ++ more) =
      (readGroup after more).map fun (body, rest) => (ls.flatMap source ++ body, rest) := by
  induction ls generalizing opened with
  | nil =>
    cases h
    simp
  | cons l ls ih =>
    rw [List.cons_append, readGroup_cons]
    simp only [openAfter] at h
    cases hk : l.kind.opens opened with
    | none => simp [hk] at h
    | some n =>
      rw [hk] at h
      simp [ih h, Function.comp_def]

theorem readGroup_eq_some_iff {opened : Nat} {ls rest : List Lexeme} {body : List Char} :
    readGroup opened ls = some (body, rest) ↔
      ∃ inner close, ls = inner ++ close :: rest ∧ close.kind = .closeParen ∧
        openAfter opened inner = some 0 ∧ body = inner.flatMap source ++ close.gap := by
  constructor
  · intro h
    induction ls generalizing opened body with
    | nil => simp [readGroup] at h
    | cons l ls ih =>
      rw [readGroup_cons] at h
      cases hk : l.kind.opens opened with
      | none =>
        rw [hk] at h
        obtain ⟨hclose, rfl⟩ := closeParen_of_opens hk
        cases h
        exact ⟨[], l, rfl, hclose, rfl, rfl⟩
      | some n =>
        rw [hk] at h
        obtain ⟨⟨inside, after⟩, hr, e⟩ := Option.map_eq_some_iff.1 h
        cases e
        obtain ⟨inner, close, rfl, hclose, hopen, rfl⟩ := ih hr
        refine ⟨l :: inner, close, rfl, hclose, ?_, by simp⟩
        simp [openAfter, hk, hopen]
  · rintro ⟨inner, close, rfl, hclose, hopen, rfl⟩
    rw [readGroup_append hopen, readGroup_cons, hclose]
    rfl

/-- Lexemes that close a group that they did not open hold the parenthesis that does so first. -/
theorem exists_close_of_openAfter {opened : Nat} {ls : List Lexeme} (h : openAfter opened ls = none) :
    ∃ inner close rest, ls = inner ++ close :: rest ∧ close.kind = .closeParen ∧
      openAfter opened inner = some 0 := by
  induction ls generalizing opened with
  | nil => cases h
  | cons l ls ih =>
    simp only [openAfter] at h
    cases hk : l.kind.opens opened with
    | none =>
      obtain ⟨hclose, rfl⟩ := closeParen_of_opens hk
      exact ⟨[], l, ls, rfl, hclose, rfl⟩
    | some n =>
      rw [hk] at h
      obtain ⟨inner, close, rest, rfl, hclose, hopen⟩ := ih h
      refine ⟨l :: inner, close, rest, rfl, hclose, ?_⟩
      simp [openAfter, hk, hopen]

/-! ### Balanced lexemes -/

theorem Balanced.nil : Balanced [] := fun _ => rfl

theorem Balanced.append {ls more : List Lexeme} (h : Balanced ls) (hmore : Balanced more) :
    Balanced (ls ++ more) := by
  intro opened
  rw [openAfter_append, h opened]
  exact hmore opened

theorem Balanced.single {l : Lexeme} {kind : Kind} (h : l.kind = kind) (hopen : kind ≠ .openParen)
    (hclose : kind ≠ .closeParen) : Balanced [l] := by
  intro opened
  simp only [openAfter, h]
  cases kind with
  | openParen => exact absurd rfl hopen
  | closeParen => exact absurd rfl hclose
  | _ => rfl

theorem Balanced.group {ls : List Lexeme} {l close : Lexeme} (h : Balanced ls)
    (hopen : l.kind = .openParen) (hclose : close.kind = .closeParen) :
    Balanced (l :: (ls ++ [close])) := by
  intro opened
  simp [openAfter, hopen, Kind.opens, openAfter_append, h (opened + 1), hclose]

end DiceExpr
