import Mathlib.Algebra.Order.Floor.Div
import Mathlib.Data.FinEnum
import Mathlib.Data.Nat.Digits.Defs
import Mathlib.Data.Nat.Size
import Mathlib.Data.Set.Card
import Mathlib.Data.Set.Finite.List
import Mathlib.Order.Interval.Set.Nat
import DiceExpr.Roller.Scripted

/-!
# Fair dice

An attempt at a die takes a row of words from the stream and reads them as a number. The sampler ends
with the first attempt whose number is the index of a face, and takes no word after it. Every face has
as many rows of words as any other, and more than half of all rows have one, so the dice are fair.

## Main statements

* `drawUpTo_first`: the sampler ends with the first attempt that is accepted.
* `ncard_assemble_eq`: how many rows of words a number has.
* `sample_fair`: both for whole dice, and an end for each list of words.
-/

namespace DiceExpr.Sampler

/-! ### Words of a stream -/

section

variable {σ : Type} [WordSource σ]

def after (s : σ) : Nat → σ
  | 0 => s
  | n + 1 => after (WordSource.next s).2 n

def wordAt (s : σ) (i : Nat) : UInt32 := (WordSource.next (after s i)).1

/-- The words of one attempt, where every attempt takes `n`. -/
def wordsOf (n : Nat) (s : σ) (k : Nat) : List UInt32 :=
  (List.range n).map fun j => wordAt s (k * n + j)

theorem after_after (s : σ) (m n : Nat) : after (after s m) n = after s (m + n) := by
  induction m generalizing s with
  | zero => simp [after]
  | succ m ih =>
    have h : m + 1 + n = (m + n) + 1 := by omega
    rw [h]
    exact ih _

theorem wordAt_after (s : σ) (m i : Nat) : wordAt (after s m) i = wordAt s (m + i) := by
  simp only [wordAt, after_after]

theorem wordsOf_after (n : Nat) (s : σ) (m k : Nat) :
    wordsOf n (after s (m * n)) k = wordsOf n s (m + k) := by
  apply List.map_congr_left
  intro j _
  have h : m * n + (k * n + j) = (m + k) * n + j := by
    rw [Nat.add_mul, Nat.add_assoc]
  rw [wordAt_after, h]

theorem length_wordsOf (n : Nat) (s : σ) (k : Nat) : (wordsOf n s k).length = n := by
  simp [wordsOf]

theorem drawWords_eq (n : Nat) (s : σ) :
    drawWords n s = ((List.range n).map (wordAt s), after s n) := by
  induction n generalizing s with
  | zero => rfl
  | succ n ih =>
    have hrest := ih (WordSource.next s).2
    have hwords : (List.range (n + 1)).map (wordAt s) =
        wordAt s 0 :: (List.range n).map (wordAt (WordSource.next s).2) := by
      rw [List.range_succ_eq_map, List.map_cons, List.map_map]
      rfl
    simp only [drawWords, hrest, hwords]
    rfl

theorem drawBits_eq (bits : Nat) (s : σ) :
    drawBits bits s =
      (assemble bits (wordsOf (wordCount bits) s 0), after s (wordCount bits)) := by
  simp only [drawBits, drawWords_eq, wordsOf, Nat.zero_mul, Nat.zero_add]

/-- The sampler ends with the first attempt that is accepted, and takes the words of the attempts up to
there. -/
theorem drawUpTo_first {max k : Nat} {s : σ}
    (hrefused : ∀ i < k,
      max < assemble (bitLength max) (wordsOf (wordCount (bitLength max)) s i))
    (haccepted : assemble (bitLength max) (wordsOf (wordCount (bitLength max)) s k) ≤ max) :
    drawUpTo max s =
      some (assemble (bitLength max) (wordsOf (wordCount (bitLength max)) s k),
        after s ((k + 1) * wordCount (bitLength max))) := by
  induction k generalizing s with
  | zero =>
    rw [drawUpTo_eq, drawBits_eq, if_pos haccepted]
    simp
  | succ k ih =>
    have hshift (i : Nat) : wordsOf (wordCount (bitLength max))
        (after s (wordCount (bitLength max))) i = wordsOf (wordCount (bitLength max)) s (i + 1) := by
      have h := wordsOf_after (wordCount (bitLength max)) s 1 i
      rwa [Nat.one_mul, Nat.add_comm 1 i] at h
    have hfirst := hrefused 0 (Nat.succ_pos k)
    rw [drawUpTo_eq, drawBits_eq, if_neg (Nat.not_le.2 hfirst), ih, hshift, after_after]
    · have h : (k + 1 + 1) * wordCount (bitLength max) =
          wordCount (bitLength max) + (k + 1) * wordCount (bitLength max) := by
        rw [Nat.succ_mul (k + 1), Nat.add_comm]
      rw [h]
    · intro i hi
      rw [hshift]
      exact hrefused (i + 1) (Nat.succ_lt_succ hi)
    · rw [hshift]
      exact haccepted

end

/-! ### Rows of words as numbers -/

theorem wordCount_of_le {bits : Nat} (h0 : bits ≠ 0) (h : bits ≤ 32) : wordCount bits = 1 := by
  simp only [wordCount]
  omega

theorem wordCount_of_lt {bits : Nat} (h : 32 < bits) :
    wordCount bits = wordCount (bits - 32) + 1 := by
  simp only [wordCount]
  omega

theorem le_wordCount (bits : Nat) : bits ≤ 32 * wordCount bits := by
  simp only [wordCount]
  omega

theorem exists_pair_of_length {bits : Nat} (h : 32 < bits) {ws : List UInt32}
    (hlength : ws.length = wordCount bits) : ∃ w u us, ws = w :: u :: us ∧
      (u :: us).length = wordCount (bits - 32) := by
  rw [wordCount_of_lt h] at hlength
  have hpos : 0 < wordCount (bits - 32) := by
    simp only [wordCount]
    omega
  match ws with
  | w :: u :: us => exact ⟨w, u, us, rfl, by simpa using hlength⟩
  | [w] =>
    simp only [List.length_singleton] at hlength
    omega
  | [] => simp at hlength

theorem assemble_lt {bits : Nat} {ws : List UInt32} (h : ws.length = wordCount bits) :
    assemble bits ws < 2 ^ bits := by
  induction bits using Nat.strongRecOn generalizing ws with
  | ind bits ih =>
    rcases Nat.lt_or_ge 32 bits with hbits | hbits
    · obtain ⟨w, u, us, rfl, hlength⟩ := exists_pair_of_length hbits h
      have hrest := ih (bits - 32) (by omega) hlength
      have hword : w.toNat < 2 ^ 32 := w.toNat_lt
      have hpow : 2 ^ bits = 2 ^ 32 * 2 ^ (bits - 32) := by
        rw [← Nat.pow_add, Nat.add_sub_cancel' hbits.le]
      have hmul : 2 ^ 32 * (assemble (bits - 32) (u :: us) + 1) ≤ 2 ^ 32 * 2 ^ (bits - 32) :=
        Nat.mul_le_mul_left _ hrest
      simp only [assemble, wordSpan]
      omega
    · rcases Nat.eq_zero_or_pos bits with rfl | hpos
      · obtain rfl := List.eq_nil_of_length_eq_zero h
        simp [assemble]
      · rw [wordCount_of_le (by omega) hbits] at h
        obtain ⟨w, rfl⟩ := List.length_eq_one_iff.1 h
        have hword : w.toNat < 2 ^ 32 := w.toNat_lt
        have hpow : 2 ^ 32 = 2 ^ bits * 2 ^ (32 - bits) := by
          rw [← Nat.pow_add, Nat.add_sub_cancel' hbits]
        simp only [assemble, Nat.shiftRight_eq_div_pow]
        rw [Nat.div_lt_iff_lt_mul (by positivity), ← hpow]
        exact hword

/-- The number that words stand for as digits of 32 bits each, the least significant first, where of the
last only the high bits count. -/
def number (bits : Nat) (ws : List UInt32) : Nat :=
  Nat.ofDigits (2 ^ 32) (ws.dropLast.map UInt32.toNat ++
    ws.getLast?.toList.map fun w => w.toNat >>> (if 0 < bits % 32 then 32 - bits % 32 else 0))

theorem number_eq_assemble {bits : Nat} {ws : List UInt32} (h : ws.length = wordCount bits) :
    number bits ws = assemble bits ws := by
  induction bits using Nat.strongRecOn generalizing ws with
  | ind bits ih =>
    rcases Nat.lt_or_ge 32 bits with hbits | hbits
    · obtain ⟨w, u, us, rfl, hlength⟩ := exists_pair_of_length hbits h
      have hmod : (bits - 32) % 32 = bits % 32 := by omega
      have hrest := ih (bits - 32) (by omega) hlength
      simp only [number, hmod] at hrest
      simp only [number, assemble, List.dropLast_cons_cons, List.getLast?_cons_cons, List.map_cons,
        List.cons_append, Nat.ofDigits_cons, hrest, wordSpan]
      rfl
    · rcases Nat.eq_zero_or_pos bits with rfl | hpos
      · obtain rfl := List.eq_nil_of_length_eq_zero h
        rfl
      · rw [wordCount_of_le (by omega) hbits] at h
        obtain ⟨w, rfl⟩ := List.length_eq_one_iff.1 h
        have hshift : (if 0 < bits % 32 then 32 - bits % 32 else 0) = 32 - bits := by
          split <;> omega
        simp [number, assemble, hshift]

/-! ### How many rows a number has -/

theorem finite_rows (n : Nat) (p : List UInt32 → Prop) :
    {ws : List UInt32 | ws.length = n ∧ p ws}.Finite :=
  (List.finite_length_eq UInt32 n).subset fun _ h => h.1

theorem ncard_shiftRight_eq {shift x : Nat} (hshift : shift ≤ 32) (hx : x < 2 ^ (32 - shift)) :
    {w : UInt32 | w.toNat >>> shift = x}.ncard = 2 ^ shift := by
  have hspan : 2 ^ (32 - shift) * 2 ^ shift = 2 ^ 32 := by
    rw [← Nat.pow_add, Nat.sub_add_cancel hshift]
  have hle : (x + 1) * 2 ^ shift ≤ 2 ^ 32 := by
    rw [← hspan]
    exact Nat.mul_le_mul_right _ hx
  -- The words with these high bits are counted by their low bits.
  have hbound {i : Nat} (hi : i < 2 ^ shift) : x * 2 ^ shift + i < 2 ^ 32 := by
    rw [Nat.succ_mul] at hle
    omega
  have himage : {w : UInt32 | w.toNat >>> shift = x} =
      (fun i => UInt32.ofNat (x * 2 ^ shift + i)) '' Set.Iio (2 ^ shift) := by
    ext w
    simp only [Set.mem_ofPred_eq, Set.mem_image, Set.mem_Iio, Nat.shiftRight_eq_div_pow]
    constructor
    · intro hw
      refine ⟨w.toNat % 2 ^ shift, Nat.mod_lt _ (by positivity), ?_⟩
      rw [← hw, Nat.div_add_mod']
      exact UInt32.ofNat_toNat
    · rintro ⟨i, hi, rfl⟩
      rw [UInt32.toNat_ofNat_of_lt' (hbound hi), Nat.mul_comm, Nat.mul_add_div (by positivity),
        Nat.div_eq_of_lt hi, Nat.add_zero]
  have hinj : Set.InjOn (fun i => UInt32.ofNat (x * 2 ^ shift + i)) (Set.Iio (2 ^ shift)) := by
    intro i hi j hj h
    have hnat := congrArg UInt32.toNat h
    simp only at hnat
    rw [UInt32.toNat_ofNat_of_lt' (hbound hi), UInt32.toNat_ofNat_of_lt' (hbound hj)] at hnat
    omega
  rw [himage, hinj.ncard_image, Set.ncard_Iio_nat]

theorem rows_zero : {ws : List UInt32 | ws.length = wordCount 0 ∧ assemble 0 ws = 0} = {[]} := by
  ext ws
  simp only [Set.mem_ofPred_eq, Set.mem_singleton_iff, wordCount]
  constructor
  · rintro ⟨hlength, -⟩
    exact List.eq_nil_of_length_eq_zero hlength
  · rintro rfl
    exact ⟨rfl, rfl⟩

theorem rows_of_le {bits : Nat} (h0 : bits ≠ 0) (h : bits ≤ 32) (x : Nat) :
    {ws : List UInt32 | ws.length = wordCount bits ∧ assemble bits ws = x} =
      (fun w => [w]) '' {w | w.toNat >>> (32 - bits) = x} := by
  ext ws
  simp only [Set.mem_ofPred_eq, Set.mem_image, wordCount_of_le h0 h]
  constructor
  · rintro ⟨hlength, hws⟩
    obtain ⟨w, rfl⟩ := List.length_eq_one_iff.1 hlength
    exact ⟨w, hws, rfl⟩
  · rintro ⟨w, hw, rfl⟩
    exact ⟨rfl, hw⟩

/-- The first of several words is the low part of the number, and the others make up the high part. -/
theorem rows_of_lt {bits : Nat} (h : 32 < bits) (x : Nat) :
    {ws : List UInt32 | ws.length = wordCount bits ∧ assemble bits ws = x} =
      (fun ws => UInt32.ofNat (x % 2 ^ 32) :: ws) ''
        {ws | ws.length = wordCount (bits - 32) ∧ assemble (bits - 32) ws = x / 2 ^ 32} := by
  ext ws
  simp only [Set.mem_ofPred_eq, Set.mem_image]
  constructor
  · rintro ⟨hlength, hws⟩
    obtain ⟨w, u, us, rfl, hrest⟩ := exists_pair_of_length h hlength
    have hword : w.toNat < 2 ^ 32 := w.toNat_lt
    simp only [assemble, wordSpan] at hws
    have hdiv : assemble (bits - 32) (u :: us) = x / 2 ^ 32 := by omega
    have hmod : x % 2 ^ 32 = w.toNat := by omega
    refine ⟨u :: us, ⟨hrest, hdiv⟩, ?_⟩
    rw [hmod, UInt32.ofNat_toNat]
  · rintro ⟨rest, ⟨hlength, hrest⟩, rfl⟩
    have hlow : x % 2 ^ 32 < 2 ^ 32 := Nat.mod_lt _ (by positivity)
    have hpos : 0 < wordCount (bits - 32) := by
      simp only [wordCount]
      omega
    obtain ⟨u, us, rfl⟩ := List.exists_cons_of_length_pos (hlength ▸ hpos)
    refine ⟨by rw [List.length_cons, hlength, wordCount_of_lt h], ?_⟩
    simp only [assemble, wordSpan, hrest, UInt32.toNat_ofNat_of_lt' hlow]
    omega

/-- Every number of `bits` bits has as many rows of words as there are values of the bits that do not
count. -/
theorem ncard_assemble_eq {bits x : Nat} (hx : x < 2 ^ bits) :
    {ws : List UInt32 | ws.length = wordCount bits ∧ assemble bits ws = x}.ncard =
      2 ^ (32 * wordCount bits - bits) := by
  induction bits using Nat.strongRecOn generalizing x with
  | ind bits ih =>
    rcases Nat.lt_or_ge 32 bits with hbits | hbits
    · have hpow : 2 ^ bits = 2 ^ 32 * 2 ^ (bits - 32) := by
        rw [← Nat.pow_add, Nat.add_sub_cancel' hbits.le]
      have hhigh : x / 2 ^ 32 < 2 ^ (bits - 32) := by
        rw [Nat.div_lt_iff_lt_mul (by positivity), Nat.mul_comm, ← hpow]
        exact hx
      have hexponent : 32 * wordCount bits - bits =
          32 * wordCount (bits - 32) - (bits - 32) := by
        rw [wordCount_of_lt hbits]
        omega
      rw [rows_of_lt hbits, Set.ncard_image_of_injective _ List.cons_injective,
        ih _ (by omega) hhigh, hexponent]
    · rcases Nat.eq_zero_or_pos bits with rfl | hpos
      · obtain rfl : x = 0 := by simpa using hx
        rw [rows_zero, Set.ncard_singleton]
        rfl
      · have hbound : x < 2 ^ (32 - (32 - bits)) := by
          rw [Nat.sub_sub_self hbits]
          exact hx
        rw [rows_of_le hpos.ne' hbits, Set.ncard_image_of_injective _ List.singleton_injective,
          ncard_shiftRight_eq (Nat.sub_le _ _) hbound, wordCount_of_le hpos.ne' hbits]

theorem ncard_assemble_lt {bits n : Nat} (hn : n ≤ 2 ^ bits) :
    {ws : List UInt32 | ws.length = wordCount bits ∧ assemble bits ws < n}.ncard =
      n * 2 ^ (32 * wordCount bits - bits) := by
  induction n with
  | zero => simp
  | succ n ih =>
    have hunion : {ws : List UInt32 | ws.length = wordCount bits ∧ assemble bits ws < n + 1} =
        {ws | ws.length = wordCount bits ∧ assemble bits ws < n} ∪
          {ws | ws.length = wordCount bits ∧ assemble bits ws = n} := by
      ext ws
      simp only [Set.mem_ofPred_eq, Set.mem_union, Nat.lt_succ_iff_lt_or_eq]
      exact and_or_left
    have hdisjoint : Disjoint {ws : List UInt32 | ws.length = wordCount bits ∧ assemble bits ws < n}
        {ws | ws.length = wordCount bits ∧ assemble bits ws = n} := by
      rw [Set.disjoint_left]
      rintro ws ⟨-, hlt⟩ ⟨-, heq⟩
      omega
    rw [hunion, Set.ncard_union_eq hdisjoint (finite_rows _ _) (finite_rows _ _), ih (by omega),
      ncard_assemble_eq hn]
    exact (Nat.succ_mul _ _).symm

/-! ### Dice -/

theorem bitLength_eq_size (n : Nat) : bitLength n = n.size := by
  rcases Nat.eq_zero_or_pos n with rfl | hpos
  · rfl
  · have hle : n.size ≤ n.log2 + 1 := Nat.size_le.2 Nat.lt_log2_self
    have hlt : n.log2 < n.size := Nat.lt_size.2 (Nat.log2_self_le hpos.ne')
    simp only [bitLength, hpos.ne', ↓reduceIte]
    omega

/-- The number of bits of an attempt at a die. -/
def faceBits (sides : Nat) : Nat := (sides - 1).size

def faceWords (sides : Nat) : Nat := faceBits sides ⌈/⌉ 32

theorem wordCount_faceBits (sides : Nat) : wordCount (faceBits sides) = faceWords sides := by
  rw [faceWords, Nat.ceilDiv_eq_add_pred_div]
  rfl

theorem le_pow_faceBits (sides : Nat) : sides ≤ 2 ^ faceBits sides := by
  have h : sides - 1 < 2 ^ (sides - 1).size := Nat.lt_size_self _
  simp only [faceBits]
  omega

theorem pow_faceBits_lt {sides : Nat} (h : 1 ≤ sides) : 2 ^ faceBits sides < 2 * sides := by
  rcases Nat.eq_or_lt_of_le h with rfl | hlt
  · decide
  · have hpos : 0 < (sides - 1).size := Nat.size_pos.2 (by omega)
    have hle : 2 ^ ((sides - 1).size - 1) ≤ sides - 1 := Nat.lt_size.1 (by omega)
    have hpow : 2 ^ (sides - 1).size = 2 * 2 ^ ((sides - 1).size - 1) :=
      (mul_pow_sub_one hpos.ne' 2).symm
    simp only [faceBits]
    omega

section

variable {σ : Type} [WordSource σ]

/-- The number that an attempt at a die gives. -/
def proposal (sides : Nat) (s : σ) (k : Nat) : Nat :=
  number (faceBits sides) (wordsOf (faceWords sides) s k)

theorem assemble_wordsOf (sides : Nat) (s : σ) (k : Nat) :
    assemble (faceBits sides) (wordsOf (faceWords sides) s k) = proposal sides s k := by
  refine (number_eq_assemble ?_).symm
  rw [length_wordsOf, wordCount_faceBits]

theorem sample_first {sides first : Nat} {s : σ} (h : 1 ≤ sides)
    (hrefused : ∀ k < first, sides ≤ proposal sides s k) (haccepted : proposal sides s first < sides) :
    sample? sides s =
      some (1 + proposal sides s first, after s ((first + 1) * faceWords sides)) := by
  have hbits : bitLength (sides - 1) = faceBits sides := bitLength_eq_size _
  have hdraw : drawUpTo (sides - 1) s =
      some (proposal sides s first, after s ((first + 1) * faceWords sides)) := by
    have hfirst := @drawUpTo_first σ _ (sides - 1) first s
    simp only [hbits, wordCount_faceBits, assemble_wordsOf] at hfirst
    refine hfirst (fun k hk => ?_) (by omega)
    have hle := hrefused k hk
    omega
  rw [sample?, hdraw, Nat.add_comm 1]
  rfl

/-- Of a stream with an attempt that is accepted, some attempt is the first. -/
theorem exists_first {sides k : Nat} {s : σ} (h : proposal sides s k < sides) :
    ∃ first ≤ k, proposal sides s first < sides ∧
      ∀ i < first, sides ≤ proposal sides s i := by
  have hex : ∃ k, proposal sides s k < sides := ⟨k, h⟩
  refine ⟨Nat.find hex, Nat.find_min' hex h, Nat.find_spec hex, ?_⟩
  intro i hi
  exact Nat.not_lt.1 (Nat.find_min hex hi)

end

/-! ### Lists of words -/

theorem after_wordList (s : WordList) (n : Nat) : after s n = ⟨s.words.drop n, s.used + n⟩ := by
  induction n generalizing s with
  | zero => rfl
  | succ n ih =>
    rw [after, ih]
    obtain ⟨words, used⟩ := s
    cases words with
    | nil => simp [WordSource.next, Nat.add_assoc, Nat.add_comm 1]
    | cons w ws => simp [WordSource.next, Nat.add_assoc, Nat.add_comm 1]

theorem wordAt_wordList {s : WordList} {i : Nat} (h : s.words.length ≤ i) : wordAt s i = 0 := by
  simp only [wordAt, after_wordList, List.drop_eq_nil_of_le h]
  rfl

theorem assemble_replicate_zero (bits n : Nat) : assemble bits (List.replicate n 0) = 0 := by
  induction n generalizing bits with
  | zero => rfl
  | succ n ih =>
    cases n with
    | zero => simp [assemble]
    | succ n =>
      have hrest := ih (bits - 32)
      simp only [List.replicate_succ] at hrest
      simp only [List.replicate_succ, assemble, hrest]
      rfl

/-- Past the end of a list of words every attempt gives zero. -/
theorem proposal_wordList {sides k : Nat} {s : WordList}
    (h : s.words.length ≤ k * faceWords sides) : proposal sides s k = 0 := by
  have hzeros : wordsOf (faceWords sides) s k = List.replicate (faceWords sides) 0 := by
    refine List.eq_replicate_iff.2 ⟨length_wordsOf _ _ _, ?_⟩
    intro w hw
    obtain ⟨j, -, rfl⟩ := List.mem_map.1 hw
    exact wordAt_wordList (by omega)
  rw [← assemble_wordsOf, hzeros, assemble_replicate_zero]

theorem exists_attempts_wordList {sides : Nat} (h : 1 ≤ sides) (hwords : 1 ≤ faceWords sides)
    (s : WordList) :
    ∃ attempts face rest, attempts ≤ s.words.length ⌈/⌉ faceWords sides + 1 ∧
      sample? sides s = some (face, ⟨rest, s.used + attempts * faceWords sides⟩) := by
  have hpast : s.words.length ≤ (s.words.length ⌈/⌉ faceWords sides) * faceWords sides := by
    rw [Nat.mul_comm]
    exact (ceilDiv_le_iff_le_mul hwords).1 le_rfl
  have haccepted : proposal sides s (s.words.length ⌈/⌉ faceWords sides) < sides := by
    rw [proposal_wordList hpast]
    exact h
  obtain ⟨first, hle, hfirst, hbefore⟩ := exists_first haccepted
  refine ⟨first + 1, 1 + proposal sides s first, s.words.drop ((first + 1) * faceWords sides),
    Nat.succ_le_succ hle, ?_⟩
  rw [sample_first h hbefore hfirst, after_wordList]

/-! ### Fairness -/

section

variable {sides : Nat}

theorem rows_number (p : Nat → Prop) :
    {ws : List UInt32 | ws.length = faceWords sides ∧ p (number (faceBits sides) ws)} =
      {ws | ws.length = wordCount (faceBits sides) ∧ p (assemble (faceBits sides) ws)} := by
  ext ws
  simp only [Set.mem_ofPred_eq, ← wordCount_faceBits]
  refine and_congr_right fun hlength => ?_
  rw [number_eq_assemble hlength]

theorem ncard_face {face : Nat} (h : 1 ≤ face) (hle : face ≤ sides) :
    {ws : List UInt32 | ws.length = faceWords sides ∧
      1 + number (faceBits sides) ws = face}.ncard = 2 ^ (32 * faceWords sides - faceBits sides) := by
  have hbound : face - 1 < 2 ^ faceBits sides := by
    have hsides := le_pow_faceBits sides
    omega
  have hindex (n : Nat) : 1 + n = face ↔ n = face - 1 := by omega
  simp only [hindex]
  rw [rows_number (· = face - 1), ncard_assemble_eq hbound, wordCount_faceBits]

theorem ncard_accepted :
    {ws : List UInt32 | ws.length = faceWords sides ∧ number (faceBits sides) ws < sides}.ncard =
      sides * 2 ^ (32 * faceWords sides - faceBits sides) := by
  rw [rows_number (· < sides), ncard_assemble_lt (le_pow_faceBits sides), wordCount_faceBits]

theorem pow_mul_pow_faceBits :
    2 ^ faceBits sides * 2 ^ (32 * faceWords sides - faceBits sides) = 2 ^ (32 * faceWords sides) := by
  have hle := le_wordCount (faceBits sides)
  rw [wordCount_faceBits] at hle
  rw [← Nat.pow_add, Nat.add_sub_cancel' hle]

theorem ncard_rows :
    {ws : List UInt32 | ws.length = faceWords sides}.ncard = 2 ^ (32 * faceWords sides) := by
  have hall : {ws : List UInt32 | ws.length = faceWords sides} =
      {ws | ws.length = wordCount (faceBits sides) ∧
        assemble (faceBits sides) ws < 2 ^ faceBits sides} := by
    ext ws
    simp only [Set.mem_ofPred_eq, ← wordCount_faceBits]
    exact ⟨fun hlength => ⟨hlength, assemble_lt hlength⟩, And.left⟩
  rw [hall, ncard_assemble_lt le_rfl, wordCount_faceBits, pow_mul_pow_faceBits]

/-- The sampler rolls a die fairly. It ends with the first attempt that is accepted, takes the words of
the attempts up to there and no more, and shows a face of the die. Each face has the same number of rows
of words, and more than half of all rows are accepted. On a list of words with zeros after it there are
no more attempts than its words make up and one, and a die of one face takes no words. -/
theorem sample_fair (h : 1 ≤ sides) :
    (∀ (σ : Type) [WordSource σ] (s : σ), (∃ k, proposal sides s k < sides) →
      ∃ first, proposal sides s first < sides ∧ (∀ k < first, sides ≤ proposal sides s k) ∧
        sample? sides s =
          some (1 + proposal sides s first, after s ((first + 1) * faceWords sides)) ∧
        Roller.roll sides s =
          (1 + proposal sides s first, after s ((first + 1) * faceWords sides)) ∧
        1 ≤ (Roller.roll sides s).1 ∧ (Roller.roll sides s).1 ≤ sides) ∧
    (∀ face, 1 ≤ face → face ≤ sides →
      {ws : List UInt32 | ws.length = faceWords sides ∧
        1 + number (faceBits sides) ws = face}.ncard = 2 ^ (32 * faceWords sides - faceBits sides)) ∧
    {ws : List UInt32 | ws.length = faceWords sides}.ncard = 2 ^ (32 * faceWords sides) ∧
    2 ^ (32 * faceWords sides) <
      2 * {ws : List UInt32 | ws.length = faceWords sides ∧
        number (faceBits sides) ws < sides}.ncard ∧
    (∀ s : WordList, 1 ≤ faceWords sides →
      ∃ attempts face rest, attempts ≤ s.words.length ⌈/⌉ faceWords sides + 1 ∧
        sample? sides s = some (face, ⟨rest, s.used + attempts * faceWords sides⟩)) ∧
    (sides = 1 → ∀ s : WordList, sample? sides s = some (1, s)) := by
  refine ⟨?_, fun face hpos hle => ncard_face hpos hle, ncard_rows, ?_,
    fun s hwords => exists_attempts_wordList h hwords s, ?_⟩
  · rintro σ _ s ⟨k, hk⟩
    obtain ⟨first, -, hfirst, hbefore⟩ := exists_first hk
    have hsample := sample_first h hbefore hfirst
    have hroll : Roller.roll sides s =
        (1 + proposal sides s first, after s ((first + 1) * faceWords sides)) := by
      simp only [Roller.roll, hsample, Option.getD_some]
    refine ⟨first, hfirst, hbefore, hsample, hroll, ?_, ?_⟩
    · rw [hroll]
      exact Nat.le_add_right 1 _
    · rw [hroll]
      simp only
      omega
  · rw [ncard_accepted, ← Nat.mul_assoc, ← pow_mul_pow_faceBits]
    exact Nat.mul_lt_mul_of_pos_right (pow_faceBits_lt h) (by positivity)
  · rintro rfl s
    have hzero : proposal 1 s 0 = 0 := rfl
    have hrefused : ∀ k < 0, 1 ≤ proposal 1 s k := nofun
    have hsample := sample_first h hrefused (by omega)
    rw [hsample, hzero]
    rfl

end

/-- Of the numbers seven and two, the second is the index of a face of six. -/
theorem sample_fair_six :
    1 ≤ 6 ∧ {ws : List UInt32 | ws.length = 1 ∧ 1 + number 3 ws = 4}.ncard = 536870912 ∧
      Roller.roll 6 (⟨[0xffffffff, 0x40000000, 5], 0⟩ : WordList) = (3, ⟨[5], 2⟩) := by
  have hwords : faceWords 6 = 1 := by decide
  have hbits : faceBits 6 = 3 := by decide
  have hsix : 1 ≤ 6 := by decide
  obtain ⟨hstream, hface, -⟩ := sample_fair hsix
  refine ⟨hsix, ?_, ?_⟩
  · have hfour := hface 4 (by decide) (by decide)
    rw [hwords, hbits] at hfour
    exact hfour
  · generalize hlist : (⟨[0xffffffff, 0x40000000, 5], 0⟩ : WordList) = s
    have hseven : proposal 6 s 0 = 7 := by
      rw [← hlist]
      decide +kernel
    have htwo : proposal 6 s 1 = 2 := by
      rw [← hlist]
      decide +kernel
    obtain ⟨first, hfirst, hbefore, -, hroll, -⟩ := hstream WordList s ⟨1, by omega⟩
    have hone : first = 1 := by
      rcases Nat.lt_trichotomy first 1 with hlt | heq | hgt
      · obtain rfl : first = 0 := by omega
        omega
      · exact heq
      · have hle := hbefore 1 hgt
        omega
    rw [hroll, hone, htwo, hwords, ← hlist]
    rfl

end DiceExpr.Sampler
