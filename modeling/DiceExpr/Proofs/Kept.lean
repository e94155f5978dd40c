import Mathlib.Algebra.Order.BigOperators.Group.List
import Mathlib.Algebra.Order.Ring.Nat
import Mathlib.Data.List.Sort
import Mathlib.Order.Bounds.Defs
import DiceExpr.Evaluation
import DiceExpr.Roller.Scripted

/-!
# Kept dice

A keep rule sorts the results of a roll and counts the first few of them. What it counts is the largest
sum of that many results for the highest dice, and the smallest for the lowest, so the order in which
the dice fell does not matter. The highest and the lowest dice of a roll that together make up all of it
make up its sum.

## Main statements

* `Keep.sum_le_total_highest`, `Keep.total_lowest_le_sum`: no choice of results beats a keep rule.
* `Keep.total_highest_add_total_lowest`: the highest and the other results together.
* `rollDice_total`: the statement for rolls of dice.
-/

namespace DiceExpr

/-- The sums of `m` of some results, each of them taken at most once. -/
def sumsOf (m : Nat) (results : List Nat) : Set Nat :=
  {total | ∃ chosen : List Nat, chosen.Sublist results ∧ chosen.length = m ∧ chosen.sum = total}

namespace Keep

/-- How many of `n` dice a rule keeps. -/
def size : Keep → Nat → Nat
  | all, n => n
  | highest k, n => min k n
  | lowest k, n => min k n

/-! ### Sorted results -/

/-- The results from the largest to the smallest. -/
def descending (results : List Nat) : List Nat := results.mergeSort (fun a b => b ≤ a)

theorem descending_perm (results : List Nat) : (descending results).Perm results :=
  List.mergeSort_perm results _

theorem pairwise_descending (results : List Nat) :
    (descending results).Pairwise (fun a b => b ≤ a) :=
  List.pairwise_mergeSort' (· ≥ ·) results

theorem descending_eq_of_pairwise {results sorted : List Nat} (h : results.Perm sorted)
    (hsorted : sorted.Pairwise (fun a b => b ≤ a)) : descending results = sorted :=
  ((descending_perm results).trans h).eq_of_pairwise (fun _ _ _ _ hab hba => Nat.le_antisymm hba hab)
    (pairwise_descending results) hsorted

/-- Results that are the same up to their order are the same once sorted. -/
theorem descending_eq_of_perm {results others : List Nat} (h : results.Perm others) :
    descending results = descending others :=
  descending_eq_of_pairwise (h.trans (descending_perm others).symm) (pairwise_descending others)

theorem mergeSort_eq_reverse (results : List Nat) :
    results.mergeSort (fun a b => a ≤ b) = (descending results).reverse := by
  have hperm := (List.mergeSort_perm results fun a b => a ≤ b).trans
    ((descending_perm results).symm.trans (List.reverse_perm _).symm)
  exact hperm.eq_of_pairwise (fun a b _ _ => Nat.le_antisymm)
    (List.pairwise_mergeSort' (· ≤ ·) results) (List.pairwise_reverse.2 (pairwise_descending results))

/-! ### Totals -/

theorem total_eq_sum (keep : Keep) (results : List Nat) :
    keep.total results = (keep.select results).sum :=
  List.sum_eq_foldl.symm

theorem total_all (results : List Nat) : all.total results = results.sum :=
  total_eq_sum all results

theorem total_highest (k : Nat) (results : List Nat) :
    (highest k).total results = ((descending results).take k).sum :=
  total_eq_sum (highest k) results

theorem total_lowest (k : Nat) (results : List Nat) :
    (lowest k).total results = ((descending results).drop (results.length - k)).sum := by
  rw [total_eq_sum, select, mergeSort_eq_reverse, List.take_reverse, List.sum_reverse,
    (descending_perm results).length_eq]

theorem total_eq_of_perm {results others : List Nat} (h : results.Perm others) (keep : Keep) :
    keep.total results = keep.total others := by
  cases keep with
  | all => rw [total_all, total_all, h.sum_eq]
  | highest k => rw [total_highest, total_highest, descending_eq_of_perm h]
  | lowest k => rw [total_lowest, total_lowest, descending_eq_of_perm h, h.length_eq]

/-- A rule that asks for more dice than there are keeps as many as there are. -/
theorem total_highest_min (k : Nat) (results : List Nat) :
    (highest (min k results.length)).total results = (highest k).total results := by
  rw [total_highest, total_highest, ← (descending_perm results).length_eq, ← List.take_eq_take_min]

theorem total_lowest_min (k : Nat) (results : List Nat) :
    (lowest (min k results.length)).total results = (lowest k).total results := by
  rw [total_lowest, total_lowest]
  congr 2
  omega

/-- The highest results and those that are left make up all of them. -/
theorem total_highest_add_total_lowest {k : Nat} {results : List Nat} (h : k ≤ results.length) :
    (highest k).total results + (lowest (results.length - k)).total results = results.sum := by
  rw [total_highest, total_lowest, Nat.sub_sub_self h, List.sum_take_add_sum_drop,
    (descending_perm results).sum_eq]

/-! ### Choices of results -/

/-- Of a list that descends, no choice has a larger sum than as many of its first members. -/
theorem sum_le_sum_take {results chosen : List Nat} (hsorted : results.Pairwise (fun a b => b ≤ a))
    (h : chosen.Sublist results) : chosen.sum ≤ (results.take chosen.length).sum := by
  induction results generalizing chosen with
  | nil => simp [List.sublist_nil.1 h]
  | cons r rest ih =>
    obtain ⟨hfirst, hrest⟩ := List.pairwise_cons.1 hsorted
    cases chosen with
    | nil => simp
    | cons c others =>
      -- Whatever is chosen first is at most the first member, and the others are chosen from the rest.
      have hothers : others.Sublist rest := h.tail
      have hc : c ≤ r := by
        rcases List.mem_cons.1 (h.subset List.mem_cons_self) with rfl | hmem
        · exact Nat.le_refl c
        · exact hfirst c hmem
      have hle := ih hrest hothers
      simp only [List.sum_cons, List.length_cons, List.take_succ_cons]
      omega

/-- No choice of results has a larger sum than as many of the highest. -/
theorem sum_le_total_highest {results chosen : List Nat} (h : chosen.Subperm results) :
    chosen.sum ≤ (highest chosen.length).total results := by
  obtain ⟨sorted, hperm, hsub⟩ := h.trans (descending_perm results).symm.subperm
  rw [total_highest, ← hperm.sum_eq, ← hperm.length_eq]
  exact sum_le_sum_take (pairwise_descending results) hsub

/-- No choice of results has a smaller sum than as many of the lowest. -/
theorem total_lowest_le_sum {results chosen : List Nat} (h : chosen.Sublist results) :
    (lowest chosen.length).total results ≤ chosen.sum := by
  obtain ⟨others, hperm⟩ := h.exists_perm_append
  have hlength := hperm.length_eq
  have hsum := hperm.sum_eq
  rw [List.length_append] at hlength
  rw [List.sum_append] at hsum
  -- The results that are left over are no more than as many of the highest.
  have hothers : others.Subperm results :=
    (List.sublist_append_right chosen others).subperm.trans hperm.symm.subperm
  have hle := sum_le_total_highest hothers
  have hall : (highest others.length).total results +
      (lowest (results.length - others.length)).total results = results.sum :=
    total_highest_add_total_lowest (by omega)
  have hchosen : results.length - others.length = chosen.length := by omega
  rw [hchosen] at hall
  omega

/-! ### What is kept -/

theorem length_select (keep : Keep) (results : List Nat) :
    (keep.select results).length = keep.size results.length := by
  cases keep <;> simp [select, size]

theorem subperm_select (keep : Keep) (results : List Nat) : (keep.select results).Subperm results := by
  cases keep with
  | all => exact List.Subperm.refl results
  | highest k => exact (List.take_sublist _ _).subperm.trans (List.mergeSort_perm _ _).subperm
  | lowest k => exact (List.take_sublist _ _).subperm.trans (List.mergeSort_perm _ _).subperm

theorem total_mem_sumsOf (keep : Keep) (results : List Nat) :
    keep.total results ∈ sumsOf (keep.size results.length) results := by
  obtain ⟨chosen, hperm, hsub⟩ := subperm_select keep results
  refine ⟨chosen, hsub, ?_, ?_⟩
  · rw [hperm.length_eq, length_select]
  · rw [hperm.sum_eq, total_eq_sum]

theorem isGreatest_total_highest (k : Nat) (results : List Nat) :
    IsGreatest (sumsOf (min k results.length) results) ((highest k).total results) := by
  refine ⟨total_mem_sumsOf (highest k) results, ?_⟩
  rintro total ⟨chosen, hsub, hlength, rfl⟩
  rw [← total_highest_min, ← hlength]
  exact sum_le_total_highest hsub.subperm

theorem isLeast_total_lowest (k : Nat) (results : List Nat) :
    IsLeast (sumsOf (min k results.length) results) ((lowest k).total results) := by
  refine ⟨total_mem_sumsOf (lowest k) results, ?_⟩
  rintro total ⟨chosen, hsub, hlength, rfl⟩
  rw [← total_lowest_min, ← hlength]
  exact total_lowest_le_sum hsub

/-- Each die that is kept adds at least one and at most its number of faces. -/
theorem total_bounds {sides : Nat} {results : List Nat} (h : ∀ r ∈ results, 1 ≤ r ∧ r ≤ sides)
    (keep : Keep) :
    keep.size results.length ≤ keep.total results ∧
      keep.total results ≤ keep.size results.length * sides := by
  have hkept : ∀ r ∈ keep.select results, 1 ≤ r ∧ r ≤ sides := by
    intro r hr
    exact h r ((subperm_select keep results).subset hr)
  have hlow := List.card_nsmul_le_sum (keep.select results) 1 fun r hr => (hkept r hr).1
  have hhigh := List.sum_le_card_nsmul (keep.select results) sides fun r hr => (hkept r hr).2
  rw [length_select, Nat.nsmul_eq_mul, Nat.mul_one, ← total_eq_sum] at hlow
  rw [length_select, Nat.nsmul_eq_mul, ← total_eq_sum] at hhigh
  exact ⟨hlow, hhigh⟩

end Keep

/-! ### Rolls -/

section

variable {σ : Type} [Roller σ]

/-- A roller shows results one after the other, on dice with the same number of faces, and is left in a
state. -/
inductive Shows (sides : Nat) : σ → List Nat → σ → Prop
  | nil (s : σ) : Shows sides s [] s
  | cons {s next last : σ} {r : Nat} {results : List Nat} (first : Roller.roll sides s = (r, next))
      (others : Shows sides next results last) : Shows sides s (r :: results) last

theorem rollMany_of_shows {sides : Nat} {s last : σ} {results : List Nat}
    (h : Shows sides s results last) : Roller.rollMany sides results.length s = (results, last) := by
  induction h with
  | nil s => rfl
  | cons first others ih =>
    rw [List.length_cons, Roller.rollMany_succ]
    simp only [first, ih]

theorem withSignOf_eq_sign_mul {count : Int} {n : Nat} (h : count = 0 → n = 0) :
    withSignOf count n = count.sign * n := by
  simp only [withSignOf]
  rcases Int.lt_trichotomy count 0 with hneg | hzero | hpos
  · rw [if_pos hneg, Int.sign_eq_neg_one_of_neg hneg, Int.neg_one_mul]
  · rw [h hzero]
    simp
  · rw [if_neg (by omega), Int.sign_eq_one_of_pos hpos, Int.one_mul]

theorem run_rollDice_of_shows {limits : Limits} {count sides : Int} {s : RollState σ}
    {results : List Nat} {last : σ} (hsides : 1 < sides) (hcount : count.natAbs ≤ limits.maxDice)
    (hlength : results.length = count.natAbs) (hshows : Shows sides.toNat s.roller results last)
    (keep : Keep) :
    (rollDice limits count sides keep).run.run s =
      (.ok (count.sign * keep.total results),
        { s with roller := last,
                 events := .rolled count sides keep (keep.total results) :: s.events }) := by
  have hzero : count = 0 → keep.total results = 0 := by
    rintro rfl
    rw [List.length_eq_zero_iff.1 hlength]
    cases keep <;> simp [Keep.total, Keep.select]
  rw [run_rollDice, if_neg (by omega), if_neg (by omega), ← hlength, rollMany_of_shows hshows]
  simp only [withSignOf_eq_sign_mul hzero]

/-- A roll of dice takes as many results of the roller as the size of its count says, and no more. Its
value is the total of the results that are kept, with the sign of the count. The total of the highest is
the largest sum of that many results, and the total of the lowest the smallest, so totals do not depend
on the order of the results. A total is within the bounds that the dice set, and the highest and the
lowest of a roll that share out its dice make up the sum of all. -/
theorem rollDice_total {limits : Limits} {count sides : Int} {s : RollState σ}
    {results : List Nat} {last : σ} (hsides : 1 < sides) (hcount : count.natAbs ≤ limits.maxDice)
    (hlength : results.length = count.natAbs) (hshows : Shows sides.toNat s.roller results last)
    (hfaces : ∀ r ∈ results, 1 ≤ r ∧ r ≤ sides.toNat) :
    (∀ keep, (rollDice limits count sides keep).run.run s =
      (.ok (count.sign * keep.total results),
        { s with roller := last,
                 events := .rolled count sides keep (keep.total results) :: s.events })) ∧
    Keep.all.total results = results.sum ∧
    (∀ k, IsGreatest (sumsOf (min k results.length) results) ((Keep.highest k).total results)) ∧
    (∀ k, IsLeast (sumsOf (min k results.length) results) ((Keep.lowest k).total results)) ∧
    (∀ others, others.Perm results → ∀ keep : Keep, keep.total others = keep.total results) ∧
    (∀ keep : Keep, keep.size results.length ≤ keep.total results ∧
      keep.total results ≤ keep.size results.length * sides.toNat) ∧
    ∀ k ≤ results.length, (Keep.highest k).total results +
      (Keep.lowest (results.length - k)).total results = Keep.all.total results := by
  refine ⟨run_rollDice_of_shows hsides hcount hlength hshows, Keep.total_all results,
    fun k => Keep.isGreatest_total_highest k results, fun k => Keep.isLeast_total_lowest k results,
    fun others hperm keep => Keep.total_eq_of_perm hperm keep, Keep.total_bounds hfaces, ?_⟩
  intro k hk
  rw [Keep.total_highest_add_total_lowest hk, Keep.total_all]

end

/-- Of three, five, five and one, the two highest make up ten. -/
theorem rollDice_total_minusFour :
    1 < (6 : Int) ∧ (-4 : Int).natAbs ≤ ({} : Limits).maxDice ∧
      Shows 6 (⟨#[3, 5, 5, 1], 0⟩ : Cycling) [3, 5, 5, 1] ⟨#[3, 5, 5, 1], 4⟩ ∧
      (∀ r ∈ [3, 5, 5, 1], 1 ≤ r ∧ r ≤ 6) ∧
      ((rollDice {} (-4) 6 (.highest 2)).run.run (⟨⟨#[3, 5, 5, 1], 0⟩, []⟩ : RollState Cycling)).1 =
        .ok (-10) ∧
      (Keep.highest 3).total [3, 5, 5, 1] + (Keep.lowest 1).total [3, 5, 5, 1] = 14 := by
  have hcount : (-4 : Int).natAbs ≤ ({} : Limits).maxDice := by decide
  have hshows : Shows 6 (⟨#[3, 5, 5, 1], 0⟩ : Cycling) [3, 5, 5, 1] ⟨#[3, 5, 5, 1], 4⟩ :=
    .cons rfl (.cons rfl (.cons rfl (.cons rfl (.nil _))))
  have hfaces : ∀ r ∈ [3, 5, 5, 1], 1 ≤ r ∧ r ≤ 6 := by decide
  have hsorted : Keep.descending [3, 5, 5, 1] = [5, 5, 3, 1] :=
    Keep.descending_eq_of_pairwise (by decide) (by decide)
  obtain ⟨hruns, hall, -, -, -, -, hshare⟩ := @rollDice_total Cycling _ {} (-4) 6
    ⟨⟨#[3, 5, 5, 1], 0⟩, []⟩ [3, 5, 5, 1] _ (by decide) hcount rfl hshows hfaces
  refine ⟨by decide, hcount, hshows, hfaces, ?_, ?_⟩
  · rw [hruns, Keep.total_highest, hsorted]
    rfl
  · exact (hshare 3 (by decide)).trans hall

end DiceExpr
